import Rosette.Color.Reading
import Rosette.Color.Writing
import Rosette.Proofs.Binary64.Characters
import Rosette.Proofs.Numeral
import Rosette.Proofs.Table
import Rosette.Proofs.Text.LetterCase
import Rosette.Proofs.Traversal

/-!
# Colours are read back from their texts

Main result: `IsRead.read_text`. A colour that was read from an expression is written, and what is written is read
as the same colour, with its parameters in their order. Generators need an ASCII name and numbers that are read
back (`Survives`): letters of other scripts may have no one small form.
-/

namespace Rosette.Color

open Text Numeral Writing

variable {cs ds rest : List Char} {c : Color}

/-! ## What is read -/

/-- A parameter as it is read: its key is trimmed, and holds nothing that ends a key or a line. -/
structure IsParam (e : String × Measure) : Prop where
  number : ∃ x, e.2 = .float x
  ne_nil : e.1.toList ≠ []
  trimmed : Trimmed e.1.toList
  plain : ∀ c ∈ e.1.toList, c ≠ ',' ∧ c ≠ ':' ∧ c ≠ '\n'

/-- A colour as it is read from an expression. -/
inductive IsRead : Color → Prop
  | rgb {r g b : Nat} (hr : Numeral.fits r = true) (hg : Numeral.fits g = true) (hb : Numeral.fits b = true) :
    IsRead (.rgb r g b)
  | hsb {h s b : Nat} (hh : Numeral.fits h = true) (hs : Numeral.fits s = true) (hb : Numeral.fits b = true) :
    IsRead (.hsb h s b)
  | function {word : List Char} {params : Table Measure} (ne_nil : word ≠ [])
    (chars : ∀ c ∈ word, isWordChar c = true) (name : String.ofList (lower word) ∉ tripleNames)
    (keys : (params.map Prod.fst).Nodup) (parts : ∀ e ∈ params, IsParam e) :
    IsRead (.function (String.ofList (lower word)) params)

theorem isParam_of_pairOf? {e : String × Measure} (hcomma : ',' ∉ cs) (hfeed : '\n' ∉ cs) (h : pairOf? cs = some e) :
    IsParam e := by
  unfold pairOf? at h
  dsimp only at h
  split at h
  · cases h
  · rename_i hempty
    obtain ⟨x, -, rfl⟩ := Option.map_eq_some_iff.1 h
    have hkey : ∀ c ∈ trim (cs.takeWhile (· != ':')), c ≠ ',' ∧ c ≠ ':' ∧ c ≠ '\n' := by
      intro c hc
      have hrun := mem_of_mem_trim hc
      have hmem : c ∈ cs := (List.takeWhile_prefix _).subset hrun
      refine ⟨?_, ?_, ?_⟩
      · rintro rfl
        exact hcomma hmem
      · simpa using List.mem_takeWhile_imp hrun
      · rintro rfl
        exact hfeed hmem
    refine ⟨⟨x, rfl⟩, ?_, ?_, ?_⟩
    · rw [String.toList_ofList]
      simpa using hempty
    · rw [String.toList_ofList]
      exact trimmed_trim _
    · rwa [String.toList_ofList]

theorem callForm?_eq_some {name params : List Char} (h : callForm? cs = some (name, params)) :
    name ≠ [] ∧ (∀ c ∈ name, isWordChar c = true) ∧ '\n' ∉ params := by
  unfold callForm? at h
  split at h
  · cases h
  · rename_i hword
    split at h
    · rename_i hends
      cases h
      rw [Bool.and_eq_true] at hends
      exact ⟨hword, fun c hc => List.mem_takeWhile_imp hc, by simpa using hends.2⟩
    · cases h
  · cases h

theorem isRead_of_functionOf? (h : functionOf? cs = some c) : c.IsRead := by
  unfold functionOf? at h
  split at h
  · cases h
  · rename_i word params hform
    obtain ⟨hne, hchars, hfeed⟩ := callForm?_eq_some hform
    dsimp only at h
    split at h
    · cases h
    · rename_i hname
      cases h
      refine .function hne hchars (by simpa using hname) Table.nodup_ofList fun e he => ?_
      obtain ⟨part, hpart, hpair⟩ := List.mem_filterMap.1 (Table.mem_of_mem_ofList he)
      refine isParam_of_pairOf? (not_mem_of_mem_splitAtChar hpart) (fun hmem => ?_) hpair
      exact hfeed (mem_of_mem_splitAtChar hpart hmem)

theorem tripleColor_eq_ok {make : Int → Int → Int → Color} {t : List Char × List Char × List Char}
    (h : tripleColor make t = .ok (some c)) : ∃ x y z : Nat, Numeral.fits x = true ∧ Numeral.fits y = true ∧
      Numeral.fits z = true ∧ c = make x y z := by
  obtain ⟨x, hx, h⟩ := bind_eq_ok.1 h
  obtain ⟨y, hy, h⟩ := bind_eq_ok.1 h
  obtain ⟨z, hz, h⟩ := bind_eq_ok.1 h
  cases h
  exact ⟨x, y, z, Numeral.fits_of_read hx, Numeral.fits_of_read hy, Numeral.fits_of_read hz, rfl⟩

/-- What an expression gives is a colour as colours are read. -/
theorem isRead_of_ofExpression (h : ofExpression cs = .ok (some c)) : c.IsRead := by
  unfold ofExpression at h
  dsimp only at h
  split at h
  · split at h
    · obtain ⟨x, y, z, hx, hy, hz, rfl⟩ := tripleColor_eq_ok h
      exact .rgb hx hy hz
    · exact isRead_of_functionOf? (Except.ok.inj h)
  · split at h
    · obtain ⟨x, y, z, hx, hy, hz, rfl⟩ := tripleColor_eq_ok h
      exact .hsb hx hy hz
    · exact isRead_of_functionOf? (Except.ok.inj h)
  · exact isRead_of_functionOf? (Except.ok.inj h)

/-! ## Three numbers -/

theorem splitCount?_append (h : IsRun ds) (hrest : ∀ c ∈ rest.head?, isDecimal c = false) :
    splitCount? (' ' :: (ds ++ rest)) = some (ds, rest) := by
  obtain ⟨d, ds', hds⟩ := List.exists_cons_of_ne_nil h.ne_nil
  have hblank : isBlank d = false := isBlank_of_isAlphanum (h.isAlphanum d (by rw [hds]; exact List.mem_cons_self))
  obtain ⟨htake, hdrop⟩ := run_append h.decimal hrest
  unfold splitCount?
  rw [trimLeft_cons_space, trimLeft_eq_self (by rw [hds]; simpa using hblank)]
  dsimp only
  rw [htake, hdrop, hds]

theorem tripleForm?_call {a b c : List Char} (ha : IsRun a) (hb : IsRun b) (hc : IsRun c) :
    tripleForm? (call [] [a, b, c]) = some (a, b, c) := by
  have hcall : call [] [a, b, c] = '(' :: (a ++ ',' :: ' ' :: (b ++ ',' :: ' ' :: (c ++ [')']))) := by
    simp [call, List.intercalate]
  have hcomma := head?_cons_of_not (p := isDecimal) (a := ',') (by decide)
  have hclose := head?_cons_of_not (p := isDecimal) (a := ')') (by decide) []
  obtain ⟨a₀, as, rfl⟩ := List.exists_cons_of_ne_nil ha.ne_nil
  unfold tripleForm?
  simp only [hcall, (run_append ha.decimal (hcomma _)).1, (run_append ha.decimal (hcomma _)).2,
    splitCount?_append hb (hcomma _), splitCount?_append hc hclose]

/-! ## Parameters -/

theorem pairOf?_cons_space (cs : List Char) : pairOf? (' ' :: cs) = pairOf? cs := by
  unfold pairOf?
  rw [List.takeWhile_cons_of_pos (by decide), List.dropWhile_cons_of_pos (by decide), trim_cons_space]

/-- A parameter is read back from its text. -/
theorem IsParam.pairOf?_text {e : String × Measure} (h : IsParam e)
    (hback : ∀ x, e.2 = .float x → Binary64.leading? x.plainText = some x) :
    ∃ t, paramText e = .ok t ∧ pairOf? t = some e ∧ ∀ c ∈ t, c ≠ ',' ∧ c ≠ '\n' := by
  obtain ⟨key, m⟩ := e
  obtain ⟨x, rfl⟩ := h.number
  refine ⟨key.toList ++ ':' :: ' ' :: x.plainText, rfl, ?_, ?_⟩
  · have hkey : ∀ c ∈ key.toList, (c != ':') = true := fun c hc => by simpa using (h.plain c hc).2.1
    have hcolon := head?_cons_of_not (p := (· != ':')) (a := ':') (by decide) (' ' :: x.plainText)
    unfold pairOf?
    rw [(run_append hkey hcolon).1, (run_append hkey hcolon).2, List.drop_one, List.tail_cons, trim_cons_space,
      (Binary64.trimmed_plainText x).trim_eq, h.trimmed.trim_eq]
    dsimp only
    rw [if_neg (by simpa using h.ne_nil), hback x rfl, String.ofList_toList]
    rfl
  · intro c hc
    simp only [List.mem_append, List.mem_cons] at hc
    rcases hc with hc | rfl | rfl | hc
    · exact ⟨(h.plain c hc).1, (h.plain c hc).2.2⟩
    · decide
    · decide
    · rcases Binary64.isNumberChar_of_mem_plainText hc with hc | hc
      · constructor <;> (rintro rfl; revert hc; decide)
      · constructor <;> (rintro rfl; revert hc; decide)

theorem callForm?_call {name : List Char} {parts : List (List Char)} (hne : name ≠ [])
    (hname : ∀ c ∈ name, isWordChar c = true) (hfeed : '\n' ∉ [',', ' '].intercalate parts) :
    callForm? (call name parts) = some (name, [',', ' '].intercalate parts) := by
  obtain ⟨c, name, rfl⟩ := List.exists_cons_of_ne_nil hne
  have hcall : call (c :: name) parts = (c :: name) ++ '(' :: ([',', ' '].intercalate parts ++ [')']) := by
    simp [call]
  have hopen := head?_cons_of_not (p := isWordChar) (a := '(') (by decide)
  unfold callForm?
  rw [hcall, (run_append hname (hopen _)).1, (run_append hname (hopen _)).2]
  simp only
  rw [List.getLast?_concat, List.dropLast_concat, if_pos (by simpa using hfeed)]

/-- The parameters of a call are read back in their order. -/
theorem paramsOfText_intercalate {params : Table Measure} {parts : List (List Char)}
    (hkeys : (params.map Prod.fst).Nodup) (hcomma : ∀ t ∈ parts, ',' ∉ t)
    (hparts : List.Forall₂ (fun t e => pairOf? t = some e) parts params) :
    paramsOfText ([',', ' '].intercalate parts) = params := by
  by_cases hnil : parts = []
  · subst hnil
    rw [List.forall₂_nil_left_iff.1 hparts]
    rfl
  · have hpairs := map_splitAtChar_list hnil hcomma fun t _ => pairOf?_cons_space t
    have hall : (splitAtChar ',' ([',', ' '].intercalate parts)).filterMap pairOf? = params := by
      rw [← filterMap_eq_of_forall₂ hparts]
      simpa [List.filterMap_map] using congrArg (List.filterMap id) hpairs
    rw [paramsOfText, hall, Table.ofList_eq_self hkeys]

/-! ## Reading back what is written -/

/-- What a generator needs to be read back from its text: an ASCII name, and numbers that are read back. -/
def Survives : Color → Prop
  | .function name params =>
    (∀ c ∈ name.toList, c.toNat < 128) ∧ ∀ e ∈ params, ∀ x, e.2 = .float x → Binary64.leading? x.plainText = some x
  | _ => True

theorem isBlank_of_isWordChar {c : Char} (hascii : c.toNat < 128) (h : isWordChar c = true) : isBlank c = false := by
  simp only [isWordChar, Bool.or_eq_true, beq_iff_eq] at h
  rcases h with rfl | h
  · decide
  · rw [isAlphanumeric_of_ascii hascii] at h
    exact isBlank_of_isAlphanum h

/-- Three numbers are read back from a call of the name of their colour space. -/
theorem tripleText_digits {x y z : Nat} (name : List Char) (hx : Numeral.fits x = true) (hy : Numeral.fits y = true)
    (hz : Numeral.fits z = true) : tripleText name (.int x) (.int y) (.int z) =
      .ok (call name [Numeral.digits x, Numeral.digits y, Numeral.digits z]) := by
  simp only [tripleText, Value.written, Numeral.write_natCast hx, Numeral.write_natCast hy, Numeral.write_natCast hz]
  rfl

theorem tripleColor_digits {x y z : Nat} {make : Int → Int → Int → Color} (hx : Numeral.fits x = true)
    (hy : Numeral.fits y = true) (hz : Numeral.fits z = true) :
    tripleColor make (Numeral.digits x, Numeral.digits y, Numeral.digits z) = .ok (some (make x y z)) := by
  simp only [tripleColor, Numeral.read_digits hx, Numeral.read_digits hy, Numeral.read_digits hz]
  rfl

theorem isPhrase_triple (name : List Char) (hne : name ≠ []) (hname : ∀ c ∈ name, c.isAlphanum = true) (x y z : Nat) :
    IsPhrase (call name [Numeral.digits x, Numeral.digits y, Numeral.digits z]) := by
  have hdigits : ∀ n, '\n' ∉ Numeral.digits n := fun n => feed_not_mem_of_isAlphanum (isRun_digits n).isAlphanum
  refine isPhrase_call hne (.of_all fun c hc => isBlank_of_isAlphanum (hname c hc)) (feed_not_mem_of_isAlphanum hname)
    (feed_not_mem_intercalate ?_)
  simp [hdigits]

/-- A call that is no colour of three numbers is a generator. -/
theorem ofExpression_call {name : List Char} {parts : List (List Char)} (hname : ∀ c ∈ name, isWordChar c = true)
    (htriple : String.ofList name ∉ tripleNames) (ht : Trimmed (call name parts)) :
    ofExpression (call name parts) = .ok (functionOf? (call name parts)) := by
  have hopen := head?_cons_of_not (p := isWordChar) (a := '(') (by decide)
  have hform : ∀ word rest, (∀ c ∈ word, isWordChar c = true) → String.ofList word ∈ tripleNames →
      call name parts = word ++ rest → tripleForm? rest = none := by
    intro word rest hchars hmem hcall
    unfold tripleForm?
    split
    · -- the name ends where the parenthesis stands
      rename_i args
      refine absurd ?_ htriple
      have hcall' : name ++ '(' :: ([',', ' '].intercalate parts ++ [')']) = word ++ '(' :: args := by
        rw [← hcall]
        simp [call]
      have hname' := congrArg (List.takeWhile isWordChar) hcall'
      rw [(run_append hname (hopen _)).1, (run_append hchars (hopen _)).1] at hname'
      rwa [hname']
    · rfl
  unfold ofExpression
  rw [ht.trim_eq]
  dsimp only
  split
  · rename_i rest hcall
    rw [hform ['r', 'g', 'b'] rest (List.all_eq_true.1 (by decide)) (by decide) hcall]
  · rename_i rest hcall
    rw [hform ['h', 's', 'b'] rest (List.all_eq_true.1 (by decide)) (by decide) hcall]
  · rfl

/-- The name of a generator is a word in small letters; being ASCII, it is found as it is. -/
theorem functionOf?_call {word : List Char} {parts : List (List Char)} (hne : word ≠ [])
    (hchars : ∀ c ∈ word, isWordChar c = true) (hname : String.ofList (lower word) ∉ tripleNames)
    (hascii : ∀ c ∈ lower word, c.toNat < 128) (hparts : '\n' ∉ [',', ' '].intercalate parts) :
    functionOf? (call (lower word) parts) =
      some (.function (String.ofList (lower word)) (paramsOfText ([',', ' '].intercalate parts))) := by
  have hform := callForm?_call (lower_ne_nil hne) (isWordChar_of_mem_lower hchars hascii) hparts
  unfold functionOf?
  rw [hform]
  dsimp only
  rw [lower_lower hchars hascii, if_neg (by simpa using hname)]

/-- **Colours are read back from their texts.** -/
theorem IsRead.read_text (h : c.IsRead) (hs : c.Survives) :
    ∃ t, c.text = .ok t ∧ IsPhrase t ∧ ofExpression t = .ok (some c) := by
  cases h with
  | @rgb r g b hr hg hb =>
    have ht := isPhrase_triple ['r', 'g', 'b'] (by simp) (List.all_eq_true.1 (by decide)) r g b
    refine ⟨_, tripleText_digits ['r', 'g', 'b'] hr hg hb, ht, ?_⟩
    have hform := tripleForm?_call (isRun_digits r) (isRun_digits g) (isRun_digits b)
    unfold ofExpression
    rw [ht.trimmed.trim_eq]
    simp only [call, List.cons_append, List.nil_append] at hform ⊢
    rw [hform]
    exact tripleColor_digits hr hg hb
  | @hsb h s b hh hs' hb =>
    have ht := isPhrase_triple ['h', 's', 'b'] (by simp) (List.all_eq_true.1 (by decide)) h s b
    refine ⟨_, tripleText_digits ['h', 's', 'b'] hh hs' hb, ht, ?_⟩
    have hform := tripleForm?_call (isRun_digits h) (isRun_digits s) (isRun_digits b)
    unfold ofExpression
    rw [ht.trimmed.trim_eq]
    simp only [call, List.cons_append, List.nil_append] at hform ⊢
    rw [hform]
    exact tripleColor_digits hh hs' hb
  | @function word params hne hchars hname hkeys hparts =>
    obtain ⟨hascii, hback⟩ := hs
    rw [String.toList_ofList] at hascii
    obtain ⟨parts, htext, hall⟩ := exists_mapM_eq_ok fun e he => (hparts e he).pairOf?_text (hback e he)
    have hplain : ∀ t ∈ parts, ∀ c ∈ t, c ≠ ',' ∧ c ≠ '\n' := by
      intro t ht
      obtain ⟨e, -, he⟩ := exists_left_of_forall₂ hall ht
      exact he.2
    have hfeed := feed_not_mem_intercalate fun t ht hmem => (hplain t ht _ hmem).2 rfl
    have hchars' := isWordChar_of_mem_lower hchars hascii
    have ht : IsPhrase (call (lower word) parts) := by
      refine isPhrase_call (lower_ne_nil hne) ?_ (fun hmem => ?_) hfeed
      · exact .of_all fun c hc => isBlank_of_isWordChar (hascii c hc) (hchars' c hc)
      · exact absurd (hchars' _ hmem) (by decide)
    refine ⟨call (lower word) parts, ?_, ht, ?_⟩
    · rw [text, htext, String.toList_ofList]
      rfl
    · rw [ofExpression_call hchars' hname ht.trimmed, functionOf?_call hne hchars hname hascii hfeed,
        paramsOfText_intercalate hkeys (fun t ht hmem => (hplain t ht _ hmem).1 rfl) (hall.flip.imp fun _ _ h => h.1)]

end Rosette.Color
