import Mathlib.Data.List.Perm.Basic
import Rosette.Proofs.Json.Reading
import Rosette.Proofs.Table
import Rosette.Proofs.Traversal

/-!
# Documents are read back

Main result: the text of a document is read as a document that differs from it in the order of members only, whatever
white space an indent is made of. Each piece of the text is read where it stands, in front of what closes or goes on with
the document around it (`IsTextOf`).
-/

namespace Rosette.Json

/-- The same document with the members of each object in any order. -/
inductive Rearranged : Json → Json → Prop where
  | null : Rearranged .null .null
  | bool (b : Bool) : Rearranged (.bool b) (.bool b)
  | int (n : Int) : Rearranged (.int n) (.int n)
  | float (x : Binary64) : Rearranged (.float x) (.float x)
  | text (s : String) : Rearranged (.text s) (.text s)
  | list {js js' : List Json} (each : List.Forall₂ Rearranged js js') : Rearranged (.list js) (.list js')
  | object {ms ms' ms'' : List (String × Json)} (names : ms.map Prod.fst = ms'.map Prod.fst)
      (values : List.Forall₂ Rearranged (ms.map Prod.snd) (ms'.map Prod.snd)) (perm : ms'.Perm ms'') :
      Rearranged (.object ms) (.object ms'')

/-- A document that has a text and is given back by it: whole numbers have few enough digits, other numbers the one form
of their value, and no name occurs twice in an object. -/
inductive IsWritable : Json → Prop where
  | null : IsWritable .null
  | bool (b : Bool) : IsWritable (.bool b)
  | int {n : Int} (fits : Numeral.fits n = true) : IsWritable (.int n)
  | float {x : Binary64} (canonical : x.Canonical) : IsWritable (.float x)
  | text (s : String) : IsWritable (.text s)
  | list {items : List Json} (each : ∀ j ∈ items, IsWritable j) : IsWritable (.list items)
  | object {members : List (String × Json)} (nodup : (members.map Prod.fst).Nodup)
      (each : ∀ m ∈ members, IsWritable m.2) : IsWritable (.object members)

/-! ## Rearranged objects -/

/-- A member of the same name with a rearranged value. -/
def SameMember (m m' : String × Json) : Prop := m.1 = m'.1 ∧ Rearranged m.2 m'.2

theorem map_fst_of_sameMember {ms ms' : List (String × Json)} (h : List.Forall₂ SameMember ms ms') :
    ms.map Prod.fst = ms'.map Prod.fst := by
  induction h with
  | nil => rfl
  | cons hm _ ih => rw [List.map_cons, List.map_cons, hm.1, ih]

theorem Rearranged.of_members {ms mid ms' : List (String × Json)} (perm : ms.Perm mid)
    (h : List.Forall₂ SameMember mid ms') : Rearranged (.object ms) (.object ms') := by
  obtain ⟨ms'', hall, hperm⟩ := List.perm_comp_forall₂ perm h
  refine .object (map_fst_of_sameMember hall) ?_ hperm
  rw [List.forall₂_map_left_iff, List.forall₂_map_right_iff]
  exact hall.imp fun _ _ hm => hm.2

/-- What an object holds under its names, in another order. -/
theorem Rearranged.members {ms : List (String × Json)} {j : Json} (h : Rearranged (.object ms) j) :
    ∃ ms', j = .object ms' ∧ ms'.length = ms.length ∧ ((ms.map Prod.fst).Nodup → (ms'.map Prod.fst).Nodup) ∧
      (∀ k d, (k, d) ∈ ms → ∃ d', (k, d') ∈ ms' ∧ Rearranged d d') ∧
      ∀ k d', (k, d') ∈ ms' → ∃ d, (k, d) ∈ ms ∧ Rearranged d d' := by
  obtain _ | _ | _ | _ | _ | _ | @⟨_, mid, ms', names, values, perm⟩ := h
  have hpair : List.Forall₂ SameMember ms mid := by
    rw [← List.forall₂_eq_eq_eq, List.forall₂_map_left_iff, List.forall₂_map_right_iff] at names
    rw [List.forall₂_map_left_iff, List.forall₂_map_right_iff] at values
    exact List.Forall₂.mp (fun _ _ => And.intro) names values
  refine ⟨ms', rfl, ?_, fun hnodup => ?_, fun k d hd => ?_, fun k d' hd' => ?_⟩
  · rw [← perm.length_eq, hpair.length_eq]
  · rw [names] at hnodup
    exact (perm.map Prod.fst).nodup_iff.1 hnodup
  · obtain ⟨⟨k', d'⟩, hd', rfl, hrel⟩ := exists_right_of_forall₂ hpair hd
    exact ⟨d', perm.mem_iff.1 hd', hrel⟩
  · obtain ⟨⟨k', d⟩, hd, rfl, hrel⟩ := exists_left_of_forall₂ hpair (perm.mem_iff.2 hd')
    exact ⟨d, hd, hrel⟩

/-! ## Texts in their places -/

/-- The text is read as the document wherever a document ends behind it. -/
def IsTextOf (t : List Char) (j : Json) : Prop := ∀ tail, Ends tail → Takes (takeValue (t ++ tail)) j tail

/-- The text is a name and the text of a document. -/
def IsMemberOf (t : List Char) (m : String × Json) : Prop :=
  ∃ u, t = textLiteral m.1 ++ ':' :: ' ' :: u ∧ IsTextOf u m.2

theorem ends_nil : Ends [] := nofun

theorem ends_cons {c : Char} (hc : c ∈ [',', ']', '\x7d']) (tail : List Char) : Ends (c :: tail) := by
  rintro d ⟨⟩
  exact List.mem_append_left [' ', '\t', '\n', '\r'] hc

theorem ends_gap {gap : List Char} (hgap : ∀ c ∈ gap, isGap c = true) {c : Char} (hc : c ∈ [',', ']', '\x7d'])
    (tail : List Char) : Ends (gap ++ c :: tail) := by
  cases gap with
  | nil => exact ends_cons hc tail
  | cons g gap =>
    rintro d ⟨⟩
    have hd := hgap g List.mem_cons_self
    unfold isGap at hd
    simp only [Bool.or_eq_true, beq_iff_eq] at hd
    rcases hd with ((rfl | rfl) | rfl) | rfl <;> decide

/-- No document begins with white space or with what closes a list. -/
theorem takeValue_eq_error {c : Char} (hc : isGap c = true ∨ c = ']') (cs : List Char) :
    takeValue (c :: cs) = .error .malformed := by
  unfold isGap at hc
  simp only [Bool.or_eq_true, beq_iff_eq] at hc
  rcases hc with (((rfl | rfl) | rfl) | rfl) | rfl <;> rw [takeValue] <;> first | rfl | simp

/-- The text alone is read as the document. -/
theorem IsTextOf.takes {t : List Char} {j : Json} (h : IsTextOf t j) : Takes (takeValue t) j [] := by
  have htakes := h [] ends_nil
  rwa [List.append_nil] at htakes

theorem IsTextOf.head {t : List Char} {j : Json} (h : IsTextOf t j) :
    ∃ c cs, t = c :: cs ∧ isGap c = false ∧ c ≠ ']' := by
  obtain ⟨u, hu, -⟩ := h.takes
  cases t with
  | nil =>
    rw [takeValue] at hu
    cases hu
  | cons c cs =>
    refine ⟨c, cs, rfl, ?_, ?_⟩
    · by_cases hc : isGap c = true
      · rw [takeValue_eq_error (.inl hc)] at hu
        cases hu
      · simpa using hc
    · rintro rfl
      rw [takeValue_eq_error (.inr rfl)] at hu
      cases hu

theorem IsMemberOf.head {t : List Char} {m : String × Json} (h : IsMemberOf t m) :
    ∃ cs, t = '"' :: cs := by
  obtain ⟨u, rfl, -⟩ := h
  exact ⟨_, rfl⟩

/-! ## Rows of items and of members -/

section
variable {α : Type} {takeRow : (cs : List Char) → Except Fault (Taken (List α) cs)} {close : Char}
  {IsEntry : List Char → α → Prop}

/-- A row of entries is taken if a reader takes the last entry of one, and an entry in front of a row. -/
theorem takes_row (hclose : close ∈ [']', '\x7d'])
    (start : ∀ {t a}, IsEntry t a → ∃ c cs, t = c :: cs ∧ isGap c = false)
    (last : ∀ {t a behind rest}, IsEntry t a → Ends behind → skipGap behind = close :: rest →
      Takes (takeRow (t ++ behind)) [a] rest)
    (more : ∀ {t a behind next as rest}, IsEntry t a → Ends behind → skipGap behind = ',' :: next →
      Takes (takeRow (skipGap next)) as rest → Takes (takeRow (t ++ behind)) (a :: as) rest)
    {gap closing : List Char} (hgap : ∀ c ∈ gap, isGap c = true) (hclosing : ∀ c ∈ closing, isGap c = true)
    {texts : List (List Char)} {as : List α} (h : List.Forall₂ IsEntry texts as) (hne : texts ≠ []) (tail : List Char) :
    Takes (takeRow ((',' :: gap).intercalate texts ++ (closing ++ close :: tail))) as tail := by
  have hcloses : isGap close = false := by
    rcases List.mem_pair.1 hclose with rfl | rfl <;> rfl
  induction h with
  | nil => exact absurd rfl hne
  | @cons t a texts as hentry hrest ih =>
    -- behind the last entry stands what closes the row, behind any other a comma and the rest of the row
    cases hrest with
    | nil =>
      rw [List.intercalate_singleton]
      exact last hentry (ends_gap hclosing (List.mem_cons_of_mem _ hclose) tail)
        (skipGap_append hclosing (Text.head?_cons_of_not hcloses tail))
    | @cons t' a' texts as hentry' hrest =>
      obtain ⟨c, cs, hstart, hc⟩ := start hentry'
      have hnext : skipGap (gap ++ ((',' :: gap).intercalate (t' :: texts) ++ (closing ++ close :: tail))) =
          (',' :: gap).intercalate (t' :: texts) ++ (closing ++ close :: tail) := by
        refine skipGap_append hgap ?_
        rw [hstart, List.intercalate_cons_cons_left]
        exact Text.head?_cons_of_not hc _
      have htext : (',' :: gap).intercalate (t :: t' :: texts) ++ (closing ++ close :: tail) =
          t ++ ',' :: (gap ++ ((',' :: gap).intercalate (t' :: texts) ++ (closing ++ close :: tail))) := by
        simp
      rw [htext]
      refine more hentry (ends_cons List.mem_cons_self _) (skipGap_cons rfl _) ?_
      rw [hnext]
      exact ih (List.cons_ne_nil _ _)

end

theorem takes_items {gap closing : List Char} (hgap : ∀ c ∈ gap, isGap c = true)
    (hclosing : ∀ c ∈ closing, isGap c = true) {texts : List (List Char)} {js : List Json}
    (h : List.Forall₂ IsTextOf texts js) (hne : texts ≠ []) (tail : List Char) :
    Takes (takeItems ((',' :: gap).intercalate texts ++ (closing ++ ']' :: tail))) js tail := by
  refine takes_row (by decide) (fun ht => ?_) (fun ht hends hclose => takes_lastItem (ht _ hends) hclose)
    (fun ht hends hcomma hrest => takes_moreItems (ht _ hends) hcomma hrest) hgap hclosing h hne tail
  obtain ⟨c, cs, hcs, hc, -⟩ := ht.head
  exact ⟨c, cs, hcs, hc⟩

/-- The key of a member, its colon, and its value are taken one after the other. -/
theorem IsMemberOf.takes {t : List Char} {m : String × Json} (h : IsMemberOf t m) {behind : List Char}
    (hbehind : Ends behind) :
    ∃ cs afterKey afterColon, t ++ behind = '"' :: cs ∧ Takes (takeText cs) m.1 afterKey ∧
      skipGap afterKey = ':' :: afterColon ∧ Takes (takeValue (skipGap afterColon)) m.2 behind := by
  obtain ⟨u, rfl, hu⟩ := h
  obtain ⟨c, cs, rfl, hc, -⟩ := hu.head
  refine ⟨m.1.toList.flatMap escape ++ '"' :: ':' :: ' ' :: (c :: cs ++ behind), _, _, by simp [textLiteral],
    takes_text _ _, skipGap_cons rfl _, ?_⟩
  have hgap : ∀ c ∈ [' '], isGap c = true := List.forall_mem_singleton.2 rfl
  have hskip := skipGap_append hgap (Text.head?_cons_of_not hc (cs ++ behind))
  rw [List.singleton_append] at hskip
  rw [List.cons_append, hskip]
  exact hu _ hbehind

theorem takes_members {gap closing : List Char} (hgap : ∀ c ∈ gap, isGap c = true)
    (hclosing : ∀ c ∈ closing, isGap c = true) {texts : List (List Char)} {ms : List (String × Json)}
    (h : List.Forall₂ IsMemberOf texts ms) (hne : texts ≠ []) (tail : List Char) :
    Takes (takeMembers ((',' :: gap).intercalate texts ++ (closing ++ '\x7d' :: tail))) ms tail := by
  refine takes_row (by decide) (fun ht => ?_) (fun ht hends hclose => ?_) (fun ht hends hcomma hrest => ?_) hgap hclosing
    h hne tail
  · obtain ⟨cs, rfl⟩ := ht.head
    exact ⟨'"', cs, rfl, rfl⟩
  · obtain ⟨cs, afterKey, afterColon, htext, hkey, hcolon, hvalue⟩ := ht.takes hends
    rw [htext]
    exact takes_lastMember hkey hcolon hvalue hclose
  · obtain ⟨cs, afterKey, afterColon, htext, hkey, hcolon, hvalue⟩ := ht.takes hends
    rw [htext]
    exact takes_moreMembers hkey hcolon hvalue hcomma hrest

/-- At each level the document has a text that stands for a rearrangement of it. -/
def Renders (indent : Option (List Char)) (j : Json) : Prop :=
  ∀ level, ∃ t j', renderAt indent level j = .ok t ∧ IsTextOf t j' ∧ Rearranged j j'

/-! ## Lists and objects between brackets -/

section
variable {indent : Option (List Char)} (hindent : ∀ unit ∈ indent, ∀ c ∈ unit, isGap c = true)
include hindent

theorem isGap_of_mem_lineBreak {level : Nat} {c : Char} (h : c ∈ lineBreak indent level) : isGap c = true := by
  cases indent with
  | none => cases h
  | some unit =>
    rcases List.mem_cons.1 h with rfl | h
    · rfl
    · obtain ⟨l, hl, hc⟩ := List.mem_flatten.1 h
      rw [List.eq_of_mem_replicate hl] at hc
      exact hindent unit rfl c hc

/-- What stands between brackets, with the white space taken apart. -/
theorem exists_enclose_eq (level : Nat) {texts : List (List Char)} (hne : texts ≠ []) :
    ∃ opening gap closing : List Char, (∀ c ∈ opening, isGap c = true) ∧ (∀ c ∈ gap, isGap c = true) ∧
      (∀ c ∈ closing, isGap c = true) ∧ ∀ left right tail, enclose indent level left right texts ++ tail =
        left :: (opening ++ ((',' :: gap).intercalate texts ++ (closing ++ right :: tail))) := by
  refine ⟨lineBreak indent (level + 1), (if indent.isSome then [] else [' ']) ++ lineBreak indent (level + 1),
    lineBreak indent level, fun c hc => isGap_of_mem_lineBreak hindent hc, fun c hc => ?_,
    fun c hc => isGap_of_mem_lineBreak hindent hc, fun left right tail => ?_⟩
  · rcases List.mem_append.1 hc with hc | hc
    · split at hc
      · cases hc
      · rw [List.mem_singleton.1 hc]
        rfl
    · exact isGap_of_mem_lineBreak hindent hc
  · -- with or without an indent, a comma comes first and white space follows it
    have hseparator : (if indent.isSome then [','] else [',', ' ']) ++ lineBreak indent (level + 1) =
        ',' :: ((if indent.isSome then [] else [' ']) ++ lineBreak indent (level + 1)) := by
      cases indent <;> rfl
    unfold enclose
    rw [if_neg (by simpa using hne)]
    simp only [hseparator]
    simp

theorem isTextOf_list {level : Nat} {texts : List (List Char)} {js : List Json} (h : List.Forall₂ IsTextOf texts js) :
    IsTextOf (enclose indent level '[' ']' texts) (.list js) := by
  intro tail _
  by_cases hne : texts = []
  · subst hne
    cases h
    exact takes_emptyList rfl
  · obtain ⟨opening, gap, closing, hopening, hgap, hclosing, henclose⟩ := exists_enclose_eq hindent level hne
    obtain ⟨t, rest, htexts⟩ := List.exists_cons_of_ne_nil hne
    obtain ⟨c, cs, hc, hnotGap, hnotClose⟩ : ∃ c cs, (',' :: gap).intercalate texts = c :: cs ∧ isGap c = false ∧
        c ≠ ']' := by
      subst htexts
      obtain ⟨j, js, ht, -, -⟩ := List.forall₂_cons_left_iff.1 h
      obtain ⟨c, cs, rfl, hc⟩ := ht.head
      exact ⟨c, _, List.intercalate_cons_cons_left, hc⟩
    have hitems := takes_items hgap hclosing h hne tail
    rw [hc] at hitems henclose
    have hskip := skipGap_append hopening (Text.head?_cons_of_not hnotGap (cs ++ (closing ++ ']' :: tail)))
    rw [henclose]
    refine takes_list ?_ ?_
    · rw [List.cons_append, hskip]
      simpa using hnotClose
    · rwa [List.cons_append, hskip]

theorem isTextOf_object {level : Nat} {texts : List (List Char)} {ms : List (String × Json)}
    (nodup : (ms.map Prod.fst).Nodup) (h : List.Forall₂ IsMemberOf texts ms) :
    IsTextOf (enclose indent level '\x7b' '\x7d' texts) (.object ms) := by
  intro tail _
  by_cases hne : texts = []
  · subst hne
    cases h
    exact takes_emptyObject rfl
  · obtain ⟨opening, gap, closing, hopening, hgap, hclosing, henclose⟩ := exists_enclose_eq hindent level hne
    obtain ⟨t, rest, htexts⟩ := List.exists_cons_of_ne_nil hne
    obtain ⟨cs, hc⟩ : ∃ cs, (',' :: gap).intercalate texts = '"' :: cs := by
      subst htexts
      obtain ⟨m, ms, ht, -, -⟩ := List.forall₂_cons_left_iff.1 h
      obtain ⟨cs, rfl⟩ := ht.head
      exact ⟨_, List.intercalate_cons_cons_left⟩
    have hmembers := takes_members hgap hclosing h hne tail
    rw [hc] at hmembers henclose
    have hquote : isGap '"' = false := rfl
    have hskip := skipGap_append hopening (Text.head?_cons_of_not hquote (cs ++ (closing ++ '\x7d' :: tail)))
    rw [henclose, ← Table.ofList_eq_self nodup]
    refine takes_object ?_ ?_
    · rw [List.cons_append, hskip]
      simp
    · rwa [List.cons_append, hskip]

/-! ## Documents -/

omit hindent in
theorem renderItems_eq_mapM (level : Nat) (items : List Json) :
    renderItems indent level items = items.mapM (renderAt indent level) := by
  induction items with
  | nil => rw [renderItems]; rfl
  | cons j js ih => rw [renderItems, ih, List.mapM_cons]; rfl

omit hindent in
theorem renderMembers_eq_map (level : Nat) (members : List (String × Json)) :
    renderMembers indent level members = members.map fun m => (m.1, renderAt indent level m.2) := by
  induction members with
  | nil => rw [renderMembers]; rfl
  | cons m ms ih => rw [renderMembers, ih]; rfl

omit hindent in
/-- The members are written in the order of their names. -/
theorem mapM_memberText (level : Nat) (members : List (String × Json)) :
    ((sortMembers (renderMembers indent level members)).mapM fun m => memberText m.1 m.2) =
      (sortMembers members).mapM fun m => memberText m.1 (renderAt indent level m.2) := by
  have hsort : sortMembers (members.map fun m => (m.1, renderAt indent level m.2)) =
      (sortMembers members).map fun m => (m.1, renderAt indent level m.2) :=
    (List.map_mergeSort (f := fun m : String × Json => (m.1, renderAt indent level m.2)) fun _ _ _ _ => rfl).symm
  rw [renderMembers_eq_map, hsort, List.mapM_map]
  rfl

omit hindent in
theorem renders_int {n : Int} (fits : Numeral.fits n = true) : Renders indent (.int n) := by
  intro level
  have hwrite : (Numeral.write n).mapError Writing.Fault.numeral =
      .ok ((if decide (n < 0) then ['-'] else []) ++ Numeral.digits n.natAbs) := by
    unfold Numeral.write
    rw [if_pos fits]
    split <;> rename_i hn <;> simp [hn, Except.mapError]
  have hn : (if decide (n < 0) then -(n.natAbs : Int) else n.natAbs) = n := by
    split <;> rename_i hneg <;> simp only [decide_eq_true_eq] at hneg <;> omega
  refine ⟨_, .int n, by rw [renderAt, hwrite], fun tail htail => ?_, .int n⟩
  have hfits : Numeral.fits n.natAbs = true := by rwa [Numeral.fits, Int.natAbs_natCast]
  have htakes := takes_digits hfits (decide (n < 0)) htail
  rwa [hn] at htakes

omit hindent in
theorem renders_float {x : Binary64} (canonical : x.Canonical) : Renders indent (.float x) := by
  intro level
  refine ⟨floatLiteral x, .float x, by rw [renderAt], fun tail htail => ?_, .float x⟩
  cases x with
  | infinite s => exact takes_infinite s tail
  | nan => exact takes_nan tail
  | finite s m e =>
    obtain ⟨whole, fraction, exponent, hnumeral, -⟩ := Binary64.isNumeral_magnitudeText canonical
    exact takes_numeral hnumeral (Binary64.ofNumeral?_text canonical) htail

theorem renders_list {items : List Json} (h : ∀ j ∈ items, Renders indent j) : Renders indent (.list items) := by
  intro level
  have heach : ∀ j ∈ items, ∃ t, renderAt indent (level + 1) j = .ok t ∧ ∃ j', Rearranged j j' ∧ IsTextOf t j' := by
    intro j hj
    obtain ⟨t, j', ht, htext, hrel⟩ := h j hj (level + 1)
    exact ⟨t, ht, j', hrel, htext⟩
  obtain ⟨texts, htexts, hall⟩ := exists_mapM_eq_ok heach
  obtain ⟨js, hrel, hread⟩ := exists_between_of_forall₂ hall
  refine ⟨enclose indent level '[' ']' texts, .list js, ?_, isTextOf_list hindent hread.flip, .list hrel⟩
  rw [renderAt, renderItems_eq_mapM, htexts]
  rfl

theorem renders_object {members : List (String × Json)} (nodup : (members.map Prod.fst).Nodup)
    (h : ∀ m ∈ members, Renders indent m.2) : Renders indent (.object members) := by
  intro level
  have hperm : members.Perm (sortMembers members) := (List.mergeSort_perm members _).symm
  have heach : ∀ m ∈ sortMembers members, ∃ t, memberText m.1 (renderAt indent (level + 1) m.2) = .ok t ∧
      ∃ m', SameMember m m' ∧ IsMemberOf t m' := by
    intro m hm
    obtain ⟨t, j', ht, htext, hrel⟩ := h m (hperm.mem_iff.2 hm) (level + 1)
    exact ⟨textLiteral m.1 ++ ':' :: ' ' :: t, by rw [ht]; rfl, (m.1, j'), ⟨rfl, hrel⟩, t, rfl, htext⟩
  obtain ⟨texts, htexts, hall⟩ := exists_mapM_eq_ok heach
  obtain ⟨ms, hrel, hread⟩ := exists_between_of_forall₂ hall
  -- the members that are read have the names of those written, so none is written over
  have hnodup : (ms.map Prod.fst).Nodup := by
    rw [← map_fst_of_sameMember hrel]
    exact (hperm.map Prod.fst).nodup_iff.1 nodup
  refine ⟨enclose indent level '\x7b' '\x7d' texts, .object ms, ?_, isTextOf_object hindent hnodup hread.flip,
    .of_members hperm hrel⟩
  rw [renderAt, mapM_memberText, htexts]
  rfl

theorem IsWritable.renders {j : Json} (h : IsWritable j) : Renders indent j := by
  induction h with
  | null => exact fun level => ⟨_, .null, by rw [renderAt], fun tail _ => takes_null tail, .null⟩
  | bool b => exact fun level => ⟨_, .bool b, by rw [renderAt], fun tail _ => takes_bool b tail, .bool b⟩
  | int fits => exact renders_int fits
  | float canonical => exact renders_float canonical
  | text s => exact fun level => ⟨_, .text s, by rw [renderAt], fun tail _ => takes_textLiteral s tail, .text s⟩
  | list _ ih => exact renders_list hindent ih
  | object nodup _ ih => exact renders_object hindent nodup ih

omit hindent in
theorem read_eq_ok {source : String} {j : Json} (h : Takes (takeValue (skipGap source.toList)) j []) :
    read source = .ok j := by
  obtain ⟨t, ht, rfl, hrest⟩ := h
  rw [read, ht]
  simp [hrest, skipGap]

/-- **Documents are read back**: a writable document has a text, which is read as the document with the members of its
objects in some order. -/
theorem IsWritable.read_render {j : Json} (h : IsWritable j) :
    ∃ text j', render indent j = .ok text ∧ read text = .ok j' ∧ Rearranged j j' := by
  obtain ⟨t, j', ht, htext, hrel⟩ := h.renders hindent 0
  refine ⟨String.ofList t, j', by rw [render, ht]; rfl, read_eq_ok ?_, hrel⟩
  have hskip : skipGap (String.ofList t).toList = t := by
    obtain ⟨c, cs, rfl, hc, -⟩ := htext.head
    rw [String.toList_ofList]
    exact skipGap_cons hc cs
  rw [hskip]
  exact htext.takes

end

end Rosette.Json
