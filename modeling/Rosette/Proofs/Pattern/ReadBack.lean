import Rosette.Proofs.Pattern.Rows
import Rosette.Proofs.Pattern.Shorthand

/-!
# Shorthand is read back

Whatever puts a row together takes the strokes from the rows it puts together, but for the strokes of gaps; so a row
has stroke letters only (`char_mem_alphabet_of_expandAt`). The shorthand of stroke letters has one letter for each
stroke and no digits, so it is read stroke by stroke (`ofShorthand_toShorthand`).

Main result: `ofShorthand_compile`.
-/

namespace Rosette.Pattern

open Expansion

variable {limit : Int} {depth : Nat} {p : Pattern} {n : Count} {row row' : List Stroke} {rows : List (List Stroke)}
  {s : Stroke}

/-! ## Where strokes come from -/

theorem mem_of_mem_flatten_replicate {k : Nat} (h : s ∈ (List.replicate k row).flatten) : s ∈ row := by
  obtain ⟨copy, hcopy, hs⟩ := List.mem_flatten.1 h
  exact List.eq_of_mem_replicate hcopy ▸ hs

theorem mem_of_counted (h : counted n row = .ok row') (hs : s ∈ row') : s ∈ row := by
  obtain ⟨k, rfl, -⟩ := exists_copies_of_counted h
  exact mem_of_mem_flatten_replicate hs

theorem mem_of_tile? {k : Int} (h : Repetition.tile? k row = some row') (hs : s ∈ row') : s ∈ row := by
  unfold Repetition.tile? at h
  split at h
  · cases h
    cases hs
  · obtain ⟨copies, hcopies, rfl⟩ := Option.map_eq_some_iff.1 h
    rw [Repetition.copies?, Option.ite_none_right_eq_some, Repetition.copies_eq_flatten_replicate] at hcopies
    obtain ⟨-, ⟨⟩⟩ := hcopies
    exact (List.mem_append.1 hs).elim mem_of_mem_flatten_replicate List.mem_of_mem_take

theorem mem_of_tiled (h : tiled n row = .ok row') (hs : s ∈ row') : s ∈ row := by
  unfold tiled at h
  split at h
  · split at h
    · cases h
    · cases h
      exact mem_of_tile? ‹_› hs
  · split at h
    · cases h
      cases hs
    · cases h

theorem mem_of_gathered {rule : CommandRule} (h : gathered rule n rows = .ok row) (hs : s ∈ row) :
    s = Stroke.spacer ∨ ∃ first ∈ rows, s ∈ first := by
  unfold gathered at h
  split at h
  · exact .inr (List.mem_flatten.1 (mem_of_counted h hs))
  · obtain ⟨gap, hgap, rfl⟩ := map_eq_ok.1 h
    exact (Text.mem_intercalate hs).imp_left fun hs => List.mem_singleton.1 (mem_of_counted hgap hs)

/-- **Rows are over the alphabet**, whatever they are put together from. -/
theorem char_mem_alphabet_of_expandAt (h : expandAt limit depth p = .ok row) : ∀ s ∈ row, s.char ∈ Stroke.alphabet := by
  have heach : ∀ {ps : List Pattern} {rows : List (List Stroke)},
      List.Forall₂ (fun _ row => ∀ s ∈ row, s.char ∈ Stroke.alphabet) ps rows →
        ∀ row ∈ rows, ∀ s ∈ row, s.char ∈ Stroke.alphabet := by
    intro ps rows hrows row hrow
    obtain ⟨_, -, hmem⟩ := exists_left_of_forall₂ hrows hrow
    exact hmem
  refine row_induction (motive := fun _ _ row => ∀ s ∈ row, s.char ∈ Stroke.alphabet)
    ?symbol ?sequence ?mirrored ?gathered ?tiled h
  case symbol =>
    intro depth p char rotated n row _ hletter hrow s hs
    rwa [List.mem_singleton.1 (mem_of_counted hrow hs)]
  case sequence =>
    intro depth ps n rows row _ hrows hrow s hs
    obtain ⟨first, hfirst, hs⟩ := List.mem_flatten.1 (mem_of_counted hrow hs)
    exact heach hrows first hfirst s hs
  case mirrored =>
    intro depth p m row _ ih s hs
    exact ih s (List.mem_reverse.1 hs)
  case gathered =>
    intro depth rule ps q m n rows row _ _ _ hrows hrow s hs
    obtain rfl | ⟨first, hfirst, hs⟩ := mem_of_gathered hrow hs
    · decide
    · exact heach hrows first hfirst s hs
  case tiled =>
    intro depth p n inner row ih hrow s hs
    exact ih s (mem_of_tiled hrow hs)

/-- The mark of a solid ring has no row. -/
theorem isSolid_of_expandAt (h : expandAt limit depth p = .ok row) : p.isSolid = false := by
  unfold isSolid
  split
  · rename_i hsymbol
    obtain ⟨hletter, -⟩ := (expandAt_symbol_eq_ok hsymbol).1 h
    exact beq_false_of_ne (Stroke.ne_solidMark_of_mem hletter)
  · rfl

/-! ## One letter for each stroke -/

theorem isAlpha_of_mem_toShorthand (h : ∀ s ∈ row, s.char ∈ Stroke.alphabet) {c : Char}
    (hc : c ∈ Stroke.toShorthand row) : c.isAlpha = true := by
  obtain ⟨s, hs, hc⟩ := List.mem_flatMap.1 hc
  obtain ⟨letter, htext, halpha, -⟩ := Stroke.letterText_of_mem (h s hs) s.rotated
  rw [Stroke.text, htext, List.mem_singleton] at hc
  rwa [hc]

/-- The letter of a stroke is read as the stroke. -/
theorem ofShorthand_letter {c : Char} (h : Stroke.ofChar? c = some s) : Stroke.ofShorthand [c] = .ok [s] := by
  have hempty : Stroke.ofShorthand [] = .ok [] := by rw [Stroke.ofShorthand]
  exact (ofShorthand_cons_eq_ok h rfl).2 ⟨[s], [], rfl, hempty, rfl⟩

theorem ofShorthand_toShorthand (h : ∀ s ∈ row, s.char ∈ Stroke.alphabet) :
    Stroke.ofShorthand (Stroke.toShorthand row) = .ok row := by
  induction row with
  | nil => rw [Stroke.toShorthand, List.flatMap_nil, Stroke.ofShorthand]
  | cons s row ih =>
    obtain ⟨hs, hrow⟩ := List.forall_mem_cons.1 h
    obtain ⟨c, htext, -, hc⟩ := Stroke.letterText_of_mem hs s.rotated
    have hhead : ∀ d ∈ (Stroke.toShorthand row).head?, Text.isDigit d = false := fun d hd =>
      isDigit_of_isAlpha (isAlpha_of_mem_toShorthand hrow (List.mem_of_mem_head? hd))
    rw [Stroke.toShorthand, List.flatMap_cons, Stroke.text, htext, ← Stroke.toShorthand]
    exact ofShorthand_append hhead (ofShorthand_letter hc) (ih hrow)

/-- **Shorthand is read back.** A pattern with a row has a row over the alphabet, and compiles without a note to a text
that is read as that row; and so is the shorthand of any row over the alphabet. -/
theorem ofShorthand_compile (limit : Int) :
    (∀ p row, expand limit p = .ok row → (∀ s ∈ row, s.char ∈ Stroke.alphabet) ∧
        ∃ text, compile limit p = .ok (text, []) ∧ Stroke.ofShorthand text = .ok row) ∧
      ∀ row : List Stroke, (∀ s ∈ row, s.char ∈ Stroke.alphabet) →
        Stroke.ofShorthand (Stroke.toShorthand row) = .ok row := by
  refine ⟨fun p row hrow => ?_, fun row h => ofShorthand_toShorthand h⟩
  have hletters := char_mem_alphabet_of_expandAt hrow
  refine ⟨hletters, Stroke.toShorthand row, ?_, ofShorthand_toShorthand hletters⟩
  rw [compile, if_neg (by simp [isSolid_of_expandAt hrow]), hrow]

theorem ofShorthand_compile_space :
    ∃ (p : Pattern) (text : List Char), compile 2 p = .ok (text, []) ∧
      Stroke.ofShorthand text = .ok [⟨"d", true⟩, ⟨"x", false⟩, ⟨"x", false⟩, ⟨"h", false⟩] := by
  have hrow : expand 2 (.command CommandRule.space.name
      [.symbol "d" true .absent, .symbol "h" false .absent, .symbol "x" false (.times 2)] .absent) =
        .ok [⟨"d", true⟩, ⟨"x", false⟩, ⟨"x", false⟩, ⟨"h", false⟩] := by
    decide
  obtain ⟨-, text, hcompile, hread⟩ := (ofShorthand_compile 2).1 _ _ hrow
  exact ⟨_, text, hcompile, hread⟩

end Rosette.Pattern
