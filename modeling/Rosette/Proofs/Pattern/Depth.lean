import Rosette.Proofs.Pattern.Expansion
import Rosette.Proofs.Pattern.Failure
import Rosette.Proofs.Pattern.Locality

/-!
# One bound on nesting

The reader counts levels as it enters rules, the expansion as it goes down a tree; both mean the nesting of the tree.
A run that succeeds under one limit succeeds under any other that has room for its result (`moved_topLevel`), and there
is always room under a limit not below the length of the text, as each level costs a token. What was read holds no
values but patterns, so that its expansion meets no levels that were not counted (`LegibleRoot.shallow`).

Main result: `parse_eq_ok_iff_nesting`.
-/

namespace Rosette.Pattern

variable {limit : Int} {ts : List Token} {ps : List Pattern} {p : Pattern}

/-! ## Levels and tokens -/

/-- Each level of a pattern costs a token. -/
theorem Derives.nestingEach_le {n : Nonterminal} (h : Derives n ts ps) : nestingEach ps ≤ ts.length := by
  induction h with
  | symbol kind word =>
    have := nesting_ofWord word
    simp only [nestingEach, List.length_singleton]
    split at this <;> omega
  | _ =>
    simp only [nestingEach, nesting, List.length_append, List.length_cons, List.length_nil] at *
    omega

/-! ## Expansion within the limit -/

/-- A row, or a fault other than too many levels. -/
def Shallow {α : Type} (r : Except Expansion.Fault α) : Prop := ∀ m, r ≠ .error (.tooDeep m)

theorem LegibleRoot.shallow (h : LegibleRoot p) (hfits : Fits limit 0 p.nesting) : Shallow (expand limit p) := by
  intro m hm
  cases h.allCounts.arises limit 0 _ hm with
  | refused refusal => cases refusal
  | deep full => exact full hfits

/-! ## Whole texts -/

/-- What was read from a text nests no deeper than the text is long. -/
theorem nesting_le_of_parse {s : Settings} {source : String} (h : parse s source = .ok p) :
    p.nesting ≤ source.length := by
  obtain ⟨rest, hrun⟩ := parse_eq_ok.1 h
  obtain ⟨used, hused, hd, -⟩ := sound_topLevel hrun
  have hnesting := hd.nestingEach_le
  have hscan := Token.length_scan_le .start source.toList
  rw [hused, List.length_append, String.length_toList] at hscan
  simp only [nestingEach] at hnesting
  omega

theorem parse_of_fits {limit limit' : Int} {trailing : Bool} {source : String}
    (h : parse ⟨limit, trailing⟩ source = .ok p) (hfits : Fits limit' 0 p.nesting) :
    parse ⟨limit', trailing⟩ source = .ok p := by
  obtain ⟨rest, hrun⟩ := parse_eq_ok.1 h
  exact parse_eq_ok.2 ⟨rest, moved_topLevel hrun hfits⟩

/-- **The reader and the expansion keep one bound on nesting.** A limit not below the length of the text is never in
the way. Under any other limit a text is read exactly if it is read under that one and what it gives nests within the
limit, and then the expansion under the limit is not refused for its depth. -/
theorem parse_eq_ok_iff_nesting {limit high : Int} (hlimit : 0 ≤ limit) (trailing : Bool) (source : String)
    (hhigh : source.length ≤ high) :
    (∀ p m, parse ⟨high, trailing⟩ source = .error (.problem p) → p.cause ≠ .tooDeep m) ∧
      (∀ p, parse ⟨limit, trailing⟩ source = .ok p ↔
        parse ⟨high, trailing⟩ source = .ok p ∧ (p.nesting : Int) ≤ limit) ∧
      ∀ p, parse ⟨limit, trailing⟩ source = .ok p → ∀ m, expand limit p ≠ .error (.tooDeep m) := by
  refine ⟨fun p m hp => parse_ne_tooDeep hhigh hp m, fun p => ⟨fun h => ?_, fun ⟨h, hle⟩ => ?_⟩, fun p h => ?_⟩
  · have hle := nesting_le_of_parse h
    have hfits : Fits limit 0 p.nesting := (settled_of_parse h).2.2
    unfold Fits at hfits
    exact ⟨parse_of_fits h (.inr (by omega)), by omega⟩
  · exact parse_of_fits h (.inr (by omega))
  · obtain ⟨hroot, -, hfits⟩ := settled_of_parse h
    exact hroot.shallow hfits

theorem parse_eq_ok_iff_nesting_word :
    (∃ p, parse ⟨2, false⟩ "$dh" = .ok p ∧ ∀ m, expand 2 p ≠ .error (.tooDeep m)) ∧
      ∀ p, parse ⟨1, false⟩ "$dh" ≠ .ok p := by
  have htokens : (Token.scan .start "$dh".toList).1 =
      [⟨.dollar, "$", ⟨1, 1, 0⟩⟩, ⟨.symbol, "dh", ⟨1, 2, 1⟩⟩] := by decide +kernel
  have hmember : Derives .member [⟨.symbol, "dh", ⟨1, 2, 1⟩⟩]
      [.sequence [.symbol "d" false .absent, .symbol "h" false .absent] .absent] :=
    .memberSymbol (.symbol rfl (by with_unfolding_all rfl))
  have hsequence := @Derives.sequence ⟨.dollar, "$", ⟨1, 1, 0⟩⟩ _ _ _ _ rfl hmember .noMembers
  have hread : parse ⟨3, false⟩ "$dh" = .ok _ :=
    parse_eq_ok.2 ⟨[], htokens ▸ readTopLevel_of_derives (.plain (.patternSequence hsequence)) (.inr (by decide)) false⟩
  obtain ⟨-, htwo, hexpand⟩ := @parse_eq_ok_iff_nesting 2 3 (by decide) false "$dh" (by decide)
  obtain ⟨-, hone, -⟩ := @parse_eq_ok_iff_nesting 1 3 (by decide) false "$dh" (by decide)
  have hparse := (htwo _).2 ⟨hread, by decide⟩
  refine ⟨⟨_, hparse, hexpand _ hparse⟩, fun p hp => ?_⟩
  obtain ⟨hp', hle⟩ := (hone p).1 hp
  rw [hread] at hp'
  cases hp'
  exact absurd hle (by decide)

end Rosette.Pattern
