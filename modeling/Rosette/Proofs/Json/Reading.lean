import Rosette.Proofs.Binary64.RoundTrip
import Rosette.Proofs.Json.Text

/-!
# What the reader takes off a text

One lemma for each way in which a document may begin or go on. A number is taken with all its characters if what
stands behind it may stand behind a document (`Ends`).
-/

namespace Rosette.Json

/-- A reader takes the value `a` and leaves `rest`. -/
def Takes {α : Type} {before : List Char} (r : Except Fault (Taken α before)) (a : α) (rest : List Char) : Prop :=
  ∃ t, r = .ok t ∧ t.value = a ∧ t.rest = rest

/-- A text may stand behind a document: it goes on with a comma, a bracket, a brace or white space, if it does. -/
def Ends (cs : List Char) : Prop := ∀ c ∈ cs.head?, c ∈ [',', ']', '\x7d', ' ', '\t', '\n', '\r']

theorem Ends.head? {cs : List Char} (h : Ends cs) {p : Char → Bool}
    (hp : [',', ']', '\x7d', ' ', '\t', '\n', '\r'].all (!p ·) = true) : ∀ c ∈ cs.head?, p c = false := by
  intro c hc
  have hall := List.all_eq_true.1 hp c (h c hc)
  simpa using hall

/-! ## White space -/

theorem skipGap_append {gap cs : List Char} (hgap : ∀ c ∈ gap, isGap c = true) (hcs : ∀ c ∈ cs.head?, isGap c = false) :
    skipGap (gap ++ cs) = cs :=
  (Text.run_append hgap hcs).2

theorem skipGap_cons {c : Char} (hc : isGap c = false) (cs : List Char) : skipGap (c :: cs) = c :: cs := by
  rw [skipGap, List.dropWhile_cons_of_neg (by simp [hc])]

/-! ## Texts -/

theorem takes_text (s : String) (tail : List Char) :
    Takes (takeText (s.toList.flatMap escape ++ '"' :: tail)) s tail := by
  have hunits := takeUnits_literal s.toList tail
  unfold takeText
  split
  · rename_i hnone
    simp [hunits] at hnone
  · rename_i ns rest hsome
    rw [hunits, Option.some.injEq, Prod.mk.injEq] at hsome
    obtain ⟨rfl, rfl⟩ := hsome
    exact ⟨_, rfl, by rw [joinUnits_units, String.ofList_toList], rfl⟩

theorem takes_textLiteral (s : String) (tail : List Char) :
    Takes (takeValue (textLiteral s ++ tail)) (.text s) tail := by
  obtain ⟨t, ht, hvalue, hrest⟩ := takes_text s tail
  have htext : textLiteral s ++ tail = '"' :: (s.toList.flatMap escape ++ '"' :: tail) := by simp [textLiteral]
  rw [htext, takeValue, ht]
  exact ⟨_, rfl, by rw [hvalue], hrest⟩

/-! ## Words -/

theorem takes_word (word : List Char) (value : Json) (c : Char) (tail : List Char) :
    Takes (takeWord word value c (word ++ tail)) value tail := by
  unfold takeWord
  rw [if_pos (List.isPrefixOf_iff_prefix.2 (List.prefix_append word tail))]
  exact ⟨_, rfl, rfl, List.drop_left⟩

theorem takes_null (tail : List Char) : Takes (takeValue ("null".toList ++ tail)) .null tail := by
  have htext : "null".toList ++ tail = 'n' :: ("ull".toList ++ tail) := rfl
  rw [htext, takeValue]
  exact takes_word _ _ _ _

theorem takes_bool (b : Bool) (tail : List Char) :
    Takes (takeValue ((if b then "true".toList else "false".toList) ++ tail)) (.bool b) tail := by
  cases b with
  | false =>
    have htext : "false".toList ++ tail = 'f' :: ("alse".toList ++ tail) := rfl
    rw [if_neg Bool.false_ne_true, htext, takeValue]
    exact takes_word _ _ _ _
  | true =>
    have htext : "true".toList ++ tail = 't' :: ("rue".toList ++ tail) := rfl
    rw [if_pos rfl, htext, takeValue]
    exact takes_word _ _ _ _

theorem takes_nan (tail : List Char) : Takes (takeValue ("NaN".toList ++ tail)) (.float .nan) tail := by
  have htext : "NaN".toList ++ tail = 'N' :: ("aN".toList ++ tail) := rfl
  rw [htext, takeValue]
  exact takes_word _ _ _ _

theorem takes_infinite (s : Bool) (tail : List Char) :
    Takes (takeValue (floatLiteral (.infinite s) ++ tail)) (.float (.infinite s)) tail := by
  cases s with
  | false =>
    have htext : floatLiteral (.infinite false) ++ tail = 'I' :: ("nfinity".toList ++ tail) := rfl
    rw [htext, takeValue]
    exact takes_word _ _ _ _
  | true =>
    have htext : floatLiteral (.infinite true) ++ tail = '-' :: 'I' :: ("nfinity".toList ++ tail) := rfl
    obtain ⟨t, ht, hvalue, hrest⟩ := takes_word "nfinity".toList (.float (.infinite true)) 'I' tail
    rw [htext, takeValue, ht]
    exact ⟨_, rfl, hvalue, hrest⟩

/-! ## Numbers -/

theorem wholeDigits_append {whole tail : List Char} (h : Text.IsRun whole) (hzero : whole.head? = some '0' → whole = ['0'])
    (htail : ∀ c ∈ tail.head?, c.isDigit = false) : wholeDigits (whole ++ tail) = whole := by
  obtain ⟨c, ds, rfl⟩ := List.exists_cons_of_ne_nil h.ne_nil
  rw [List.cons_append, wholeDigits]
  split
  · rename_i hc
    subst hc
    exact (hzero rfl).symm
  · rw [if_pos (h.digits c List.mem_cons_self),
      (Text.run_append (fun d hd => h.digits d (List.mem_cons_of_mem _ hd)) htail).1]

theorem fractionPart_append {fraction tail : List Char} (h : ∀ c ∈ fraction, c.isDigit = true)
    (htail : ∀ c ∈ tail.head?, c.isDigit = false) (hpoint : fraction = [] → tail.head? ≠ some '.') :
    fractionPart (Binary64.pointText fraction ++ tail) = Binary64.pointText fraction := by
  by_cases hne : fraction = []
  · subst hne
    have hnone : ∀ cs, tail ≠ '.' :: cs := fun cs heq => hpoint rfl (by rw [heq]; rfl)
    show fractionPart tail = []
    unfold fractionPart
    split
    · exact absurd rfl (hnone _)
    · rfl
  · rw [Binary64.pointText_of_ne_nil hne, List.cons_append, fractionPart, (Text.run_append h htail).1]
    obtain ⟨d, ds, rfl⟩ := List.exists_cons_of_ne_nil hne
    rfl

theorem exponentPart_append {exponent tail : List Char} (h : Binary64.IsExponent exponent) (htail : Ends tail) :
    exponentPart (exponent ++ tail) = exponent := by
  rcases h with rfl | ⟨sign, ds, rfl, hsign, hds⟩
  · cases tail with
    | nil => rfl
    | cons c tail =>
      have hc := htail.head? (p := fun c => c = 'e' || c = 'E') (by decide) c rfl
      rw [List.nil_append, exponentPart]
      simp only [hc, Bool.false_eq_true, if_false]
  · have hsplit : Binary64.splitSign (sign :: (ds ++ tail)) = ([sign], ds ++ tail) := by
      rcases hsign with rfl | rfl <;> rfl
    have hrun := (Text.run_append hds.digits (htail.head? (by decide))).1
    obtain ⟨d, ds, rfl⟩ := List.exists_cons_of_ne_nil hds.ne_nil
    rw [List.cons_append, List.cons_append, exponentPart]
    simp only [decide_true, Bool.true_or, if_true, hsplit, hrun]
    rfl

theorem head?_exponent_append {exponent tail : List Char} (h : Binary64.IsExponent exponent) (htail : Ends tail) :
    ∀ c ∈ (exponent ++ tail).head?, c.isDigit = false ∧ c ≠ '.' := by
  rcases h with rfl | ⟨sign, ds, rfl, -⟩
  · intro c hc
    exact ⟨htail.head? (by decide) c hc, by simpa using htail.head? (p := (· == '.')) (by decide) c hc⟩
  · rintro c ⟨⟩
    decide

theorem number_append {s : Bool} {cs whole fraction exponent : List Char} {x : Binary64}
    (h : Binary64.IsNumeral cs whole fraction exponent)
    (hvalue : Binary64.ofNumeral? ((if s then ['-'] else []) ++ cs) = some x) {tail : List Char} (htail : Ends tail) :
    number s whole (Binary64.pointText fraction ++ (exponent ++ tail)) =
      .ok (.float x, (Binary64.pointText fraction).length + exponent.length) := by
  have hhead := head?_exponent_append h.exponent_form htail
  have hfraction : fractionPart (Binary64.pointText fraction ++ (exponent ++ tail)) = Binary64.pointText fraction :=
    fractionPart_append h.fraction_digits (fun c hc => (hhead c hc).1) fun _ hpoint => (hhead '.' hpoint).2 rfl
  have hmarked : ((Binary64.pointText fraction).isEmpty && exponent.isEmpty) = false := by
    rcases h.marked with hne | hne
    · rw [Binary64.pointText_of_ne_nil hne]
      rfl
    · simp [hne]
  have hparts : Binary64.ofNumeral? ((if s then ['-'] else []) ++ whole ++ Binary64.pointText fraction ++ exponent) =
      some x := by
    rw [← hvalue, h.text]
    simp only [List.append_assoc]
  unfold number
  simp only [hfraction, List.drop_left, exponentPart_append h.exponent_form htail, hmarked, hparts, Bool.false_eq_true,
    if_false]

/-- A number is taken with its whole digits and as much of what stands behind them as belongs to it. -/
theorem takes_number {s : Bool} {c : Char} {ws behind : List Char} {value : Json} {extra : Nat}
    (hwhole : Text.IsRun (c :: ws)) (hzero : c = '0' → ws = []) (hbehind : ∀ d ∈ behind.head?, d.isDigit = false)
    (hnumber : number s (c :: ws) behind = .ok (value, extra)) :
    Takes (takeNumber s c (ws ++ behind)) value (behind.drop extra) := by
  have hdigits : wholeDigits (c :: (ws ++ behind)) = c :: ws :=
    wholeDigits_append hwhole (fun h => by rw [hzero (Option.some.inj h), Option.some.inj h]) hbehind
  unfold takeNumber
  simp only [hdigits, List.drop_left, hnumber]
  exact ⟨_, rfl, rfl, rfl⟩

theorem takeValue_digit {c : Char} (hc : c.isDigit = true) (cs : List Char) :
    takeValue (c :: cs) = takeNumber false c cs := by
  rw [takeValue]
  -- no other document begins with a digit
  all_goals
    intros
    subst_vars
    simp at hc

theorem takes_negative {c : Char} (hc : c.isDigit = true) {cs rest : List Char} {value : Json}
    (h : Takes (takeNumber true c cs) value rest) : Takes (takeValue ('-' :: c :: cs)) value rest := by
  obtain ⟨t, ht, hvalue, hrest⟩ := h
  rw [takeValue, ht]
  · exact ⟨_, rfl, hvalue, hrest⟩
  · rintro rfl
    simp at hc

/-- A number with its sign is taken if its digits are. -/
theorem takes_signed {s : Bool} {c : Char} {cs rest : List Char} {value : Json} (hc : c.isDigit = true)
    (h : Takes (takeNumber s c cs) value rest) : Takes (takeValue ((if s then ['-'] else []) ++ c :: cs)) value rest := by
  cases s with
  | false =>
    show Takes (takeValue (c :: cs)) value rest
    rwa [takeValue_digit hc]
  | true => exact takes_negative hc h

/-- The digits of a whole number are taken as that number. -/
theorem takes_digits {n : Nat} (h : Numeral.fits n = true) (s : Bool) {tail : List Char} (htail : Ends tail) :
    Takes (takeValue ((if s then ['-'] else []) ++ Numeral.digits n ++ tail)) (.int (if s then -(n : Int) else n)) tail := by
  have hrun := Numeral.isRun_digits n
  have hread := Numeral.read_digits h
  have hzero : (Numeral.digits n).head? = some '0' → Numeral.digits n = ['0'] := by
    intro hhead
    by_cases hn : n = 0
    · subst hn
      rfl
    · exact absurd hhead (Numeral.head?_digits hn)
  have hnumber : number s (Numeral.digits n) tail = .ok (.int (if s then -(n : Int) else n), 0) := by
    have hfraction := @fractionPart_append [] tail (by simp) (htail.head? (by decide)) fun _ hpoint => by
      simpa using htail.head? (p := (· == '.')) (by decide) '.' hpoint
    have hexponent := exponentPart_append (.inl rfl) htail
    rw [Binary64.pointText, List.isEmpty_nil, if_pos rfl, List.nil_append] at hfraction
    rw [List.nil_append] at hexponent
    unfold number
    simp only [hfraction, List.length_nil, List.drop_zero, hexponent, List.isEmpty_nil, Bool.and_true, if_true, hread]
  generalize Numeral.digits n = ds at hrun hzero hnumber
  obtain ⟨c, ds, rfl⟩ := List.exists_cons_of_ne_nil hrun.ne_nil
  rw [List.append_assoc]
  exact takes_signed (hrun.digits c List.mem_cons_self)
    (takes_number hrun (fun hc => (List.cons.inj (hzero (congrArg some hc))).2) (htail.head? (by decide)) hnumber)

/-- A numeral is taken as the binary64 number that it writes. -/
theorem takes_numeral {s : Bool} {cs whole fraction exponent : List Char} {x : Binary64}
    (h : Binary64.IsNumeral cs whole fraction exponent)
    (hvalue : Binary64.ofNumeral? ((if s then ['-'] else []) ++ cs) = some x) {tail : List Char} (htail : Ends tail) :
    Takes (takeValue ((if s then ['-'] else []) ++ cs ++ tail)) (.float x) tail := by
  have hrun := h.whole_run
  have hzero := h.whole_head
  have hnumber := number_append h hvalue htail
  have hbehind : ∀ d ∈ (Binary64.pointText fraction ++ (exponent ++ tail)).head?, d.isDigit = false := by
    unfold Binary64.pointText
    split
    · exact fun d hd => (head?_exponent_append h.exponent_form htail d hd).1
    · rintro d ⟨⟩
      rfl
  have hdrop : (Binary64.pointText fraction ++ (exponent ++ tail)).drop
      ((Binary64.pointText fraction).length + exponent.length) = tail := by
    rw [← List.append_assoc, ← List.length_append, List.drop_left]
  have htext : (if s then ['-'] else []) ++ cs ++ tail =
      (if s then ['-'] else []) ++ (whole ++ (Binary64.pointText fraction ++ (exponent ++ tail))) := by
    simp [h.text]
  rw [htext]
  clear h hvalue htext
  obtain ⟨c, ws, rfl⟩ := List.exists_cons_of_ne_nil hrun.ne_nil
  have htakes := takes_number hrun (fun hc => (List.cons.inj (hzero (congrArg some hc))).2) hbehind hnumber
  rw [hdrop] at htakes
  exact takes_signed (hrun.digits c List.mem_cons_self) htakes

/-! ## Lists -/

theorem takes_emptyList {cs rest : List Char} (h : skipGap cs = ']' :: rest) :
    Takes (takeValue ('[' :: cs)) (.list []) rest := by
  rw [takeValue]
  split
  · rename_i rest' heq
    rw [h] at heq
    cases heq
    exact ⟨_, rfl, rfl, rfl⟩
  · rename_i hother
    exact absurd h (hother rest)

theorem takes_list {cs rest : List Char} {items : List Json} (h : (skipGap cs).head? ≠ some ']')
    (hitems : Takes (takeItems (skipGap cs)) items rest) : Takes (takeValue ('[' :: cs)) (.list items) rest := by
  obtain ⟨t, ht, hvalue, hrest⟩ := hitems
  rw [takeValue]
  split
  · rename_i rest' heq
    exact absurd (congrArg List.head? heq) h
  · rw [ht]
    exact ⟨_, rfl, by rw [hvalue], hrest⟩

theorem takes_lastItem {cs behind rest : List Char} {value : Json} (h : Takes (takeValue cs) value behind)
    (hbehind : skipGap behind = ']' :: rest) : Takes (takeItems cs) [value] rest := by
  obtain ⟨t, ht, rfl, rfl⟩ := h
  rw [takeItems, ht]
  simp only
  split
  · rename_i rest' heq
    rw [hbehind] at heq
    cases heq
    exact ⟨_, rfl, rfl, rfl⟩
  · rename_i rest' heq
    rw [hbehind] at heq
    cases heq
  · rename_i hother _
    exact absurd hbehind (hother rest)

theorem takes_moreItems {cs behind more rest : List Char} {value : Json} {items : List Json}
    (h : Takes (takeValue cs) value behind) (hbehind : skipGap behind = ',' :: more)
    (hitems : Takes (takeItems (skipGap more)) items rest) : Takes (takeItems cs) (value :: items) rest := by
  obtain ⟨t, ht, rfl, rfl⟩ := h
  obtain ⟨u, hu, rfl, rfl⟩ := hitems
  rw [takeItems, ht]
  simp only
  split
  · rename_i rest' heq
    rw [hbehind] at heq
    cases heq
  · rename_i rest' heq
    rw [hbehind] at heq
    cases heq
    rw [hu]
    exact ⟨_, rfl, rfl, rfl⟩
  · rename_i _ hother
    exact absurd hbehind (hother more)

/-! ## Objects -/

theorem takes_emptyObject {cs rest : List Char} (h : skipGap cs = '\x7d' :: rest) :
    Takes (takeValue ('\x7b' :: cs)) (.object []) rest := by
  rw [takeValue]
  split
  · rename_i rest' heq
    rw [h] at heq
    cases heq
    exact ⟨_, rfl, rfl, rfl⟩
  · rename_i hother
    exact absurd h (hother rest)

theorem takes_object {cs rest : List Char} {members : List (String × Json)} (h : (skipGap cs).head? ≠ some '\x7d')
    (hmembers : Takes (takeMembers (skipGap cs)) members rest) :
    Takes (takeValue ('\x7b' :: cs)) (.object (Table.ofList members)) rest := by
  obtain ⟨t, ht, hvalue, hrest⟩ := hmembers
  rw [takeValue]
  split
  · rename_i rest' heq
    exact absurd (congrArg List.head? heq) h
  · rw [ht]
    exact ⟨_, rfl, by rw [hvalue], hrest⟩

theorem takes_lastMember {cs afterKey afterColon behind rest : List Char} {k : String} {value : Json}
    (hkey : Takes (takeText cs) k afterKey) (hcolon : skipGap afterKey = ':' :: afterColon)
    (h : Takes (takeValue (skipGap afterColon)) value behind) (hbehind : skipGap behind = '\x7d' :: rest) :
    Takes (takeMembers ('"' :: cs)) [(k, value)] rest := by
  obtain ⟨t, ht, rfl, rfl⟩ := hkey
  obtain ⟨u, hu, rfl, rfl⟩ := h
  rw [takeMembers, ht]
  simp only
  split
  · rename_i afterColon' heq
    rw [hcolon] at heq
    cases heq
    rw [hu]
    simp only
    split
    · rename_i rest' heq
      rw [hbehind] at heq
      cases heq
      exact ⟨_, rfl, rfl, rfl⟩
    · rename_i rest' heq
      rw [hbehind] at heq
      cases heq
    · rename_i hother _
      exact absurd hbehind (hother rest)
  · rename_i hother
    exact absurd hcolon (hother afterColon)

theorem takes_moreMembers {cs afterKey afterColon behind more rest : List Char} {k : String} {value : Json}
    {members : List (String × Json)} (hkey : Takes (takeText cs) k afterKey)
    (hcolon : skipGap afterKey = ':' :: afterColon) (h : Takes (takeValue (skipGap afterColon)) value behind)
    (hbehind : skipGap behind = ',' :: more) (hmembers : Takes (takeMembers (skipGap more)) members rest) :
    Takes (takeMembers ('"' :: cs)) ((k, value) :: members) rest := by
  obtain ⟨t, ht, rfl, rfl⟩ := hkey
  obtain ⟨u, hu, rfl, rfl⟩ := h
  obtain ⟨w, hw, rfl, rfl⟩ := hmembers
  rw [takeMembers, ht]
  simp only
  split
  · rename_i afterColon' heq
    rw [hcolon] at heq
    cases heq
    rw [hu]
    simp only
    split
    · rename_i rest' heq
      rw [hbehind] at heq
      cases heq
    · rename_i rest' heq
      rw [hbehind] at heq
      cases heq
      rw [hw]
      exact ⟨_, rfl, rfl, rfl⟩
    · rename_i _ hother
      exact absurd hbehind (hother more)
  · rename_i hother
    exact absurd hcolon (hother afterColon)

end Rosette.Json
