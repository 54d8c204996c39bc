import Rosette.Proofs.Pattern.Unrolling

/-!
# Repeat counts of sequences and of calls

A sequence and a command both have a field for a repeat count. The writer takes it alike for both: the pattern goes into
a call of `seq`. The expansion repeats the row of a sequence, but never looks at the count of a command
(`expandAt_command`). So a command with a count is written as more strokes than it stands for
(`expand_text_of_call`), and the two agree only where a repeat changes nothing (`expand_withCount_iff`).
-/

namespace Rosette

theorem Numeral.fits_of_repetition {k : Nat} (h : Repetition.fits k = true) : fits k = true := by
  simp only [Repetition.fits, Bool.and_eq_true, decide_eq_true_eq] at h
  have hlt : k < Nat.pow 10 19 := by
    have : Nat.pow 10 19 = 10000000000000000000 := rfl
    omega
  have hlen : (digits k).length ≤ 19 := (Nat.length_toDigits_le_iff (by decide) (by decide)).2 hlt
  exact decide_eq_true (hlen.trans (by decide))

namespace Pattern

open Expansion Writing

variable {p : Pattern} {ps : List Pattern} {n : Count} {limit : Int} {depth k : Nat} {row row' : List Stroke}
  {rows : List (List Stroke)} {s : Settings} {name : String} {args : List Pattern}

/-! ## Patterns with a meaning -/

/-- A pattern whose parts all have a meaning as strokes. Unlike a regular one it may have counts that are too long for a
text. -/
inductive Meaningful : Pattern → Prop where
  | symbol {char : String} {rotated : Bool} {n : Count} (hchar : char ∈ Stroke.alphabet) (hn : n.IsFrom 0) :
      Meaningful (.symbol char rotated n)
  | sequence {ps : List Pattern} {n : Count} (ne : ps ≠ []) (each : ∀ p ∈ ps, Meaningful p) (hn : n.IsFrom 1) :
      Meaningful (.sequence ps n)
  | mirrored {p : Pattern} (h : Meaningful p) : Meaningful (.command CommandRule.mir.name [p] .absent)
  | counted {rule : CommandRule} {ps : List Pattern} {char : String} {rotated : Bool} {n : Count}
      (hrule : rule = .seq ∨ rule = .space) (ne : ps ≠ []) (each : ∀ p ∈ ps, Meaningful p)
      (hchar : char ∈ Stroke.alphabet) (hn : n.IsFrom 1) :
      Meaningful (.command rule.name (ps ++ [.symbol char rotated n]) .absent)

theorem counted_times (k : Nat) (row : List Stroke) :
    counted (.times k) row = if Repetition.fits k then .ok (Repetition.copies k row) else .error .overflow := by
  simp only [counted, repeated, Repetition.copies?]
  cases Repetition.fits k <;> rfl

/-- A count that repeats a row has few digits. -/
theorem isAtLeast_of_counted {least : Nat} (hn : n.IsFrom least) (h : counted n row = .ok row') :
    n.IsAtLeast least := by
  obtain rfl | ⟨k, rfl, hk⟩ := hn
  · exact .inl rfl
  · rw [counted_times] at h
    split at h
    · rename_i hfits
      exact .inr ⟨k, rfl, hk, Numeral.fits_of_repetition hfits⟩
    · cases h

/-- The count of a counted command repeats its patterns or its gap. -/
theorem isAtLeast_of_gathered {rule : CommandRule} (hn : n.IsFrom 1)
    (h : gathered rule (if n.isAbsent then .times 1 else n) rows = .ok row) : n.IsAtLeast 1 := by
  obtain rfl | ⟨k, rfl, hk⟩ := hn
  · exact .inl rfl
  have hcounted : ∃ row row' : List Stroke, counted (.times k) row = .ok row' := by
    rw [if_neg (by simp [Count.isAbsent]), gathered] at h
    split at h
    · exact ⟨_, _, h⟩
    · cases hgap : counted (.times k) [Stroke.spacer] with
      | error f => simp [hgap, Except.map] at h
      | ok gap => exact ⟨_, _, hgap⟩
  obtain ⟨row, row', hcounted⟩ := hcounted
  exact isAtLeast_of_counted (.inr ⟨k, rfl, hk⟩) hcounted

theorem expandAt_of_expandEach (h : expandEach limit depth ps = .ok rows) :
    ∀ p ∈ ps, ∃ row, expandAt limit depth p = .ok row := by
  intro p hp
  obtain ⟨row, -, hrow⟩ := exists_right_of_forall₂ (expandEach_eq_ok.1 h) hp
  exact ⟨row, hrow⟩

/-- **What has a row can be written**: every count in it is looked at, and was not too large to repeat. -/
theorem Meaningful.regular (h : Meaningful p) (hrow : expandAt limit depth p = .ok row) : Regular p := by
  induction h generalizing depth row with
  | symbol hchar hn =>
    rw [expandAt, symbolRow, if_neg (Stroke.ne_solidMark_of_mem hchar), if_pos (List.contains_iff_mem.2 hchar)] at hrow
    exact .symbol hchar (isAtLeast_of_counted hn hrow)
  | sequence ne each hn ih =>
    obtain ⟨-, rows, hrows, hcounted⟩ := expandAt_sequence_eq_ok.1 hrow
    refine .sequence ne (fun p hp => ?_) (isAtLeast_of_counted hn hcounted)
    obtain ⟨row', hrow'⟩ := expandAt_of_expandEach hrows p hp
    exact ih p hp hrow'
  | mirrored h ih =>
    obtain ⟨-, row', hrow', -⟩ := expandAt_mirrored_eq_ok.1 hrow
    exact .mirrored (ih hrow')
  | counted hrule ne each hchar hn ih =>
    obtain ⟨-, k, rows, hk, hrows, hgathered⟩ := (expandAt_counted_eq_ok hrule).1 hrow
    rw [countArgument_concat hrule ne hchar hn] at hk
    cases hk
    refine .counted hrule ne (fun p hp => ?_) hchar (isAtLeast_of_gathered hn hgathered)
    obtain ⟨row', hrow'⟩ := expandAt_of_expandEach hrows p hp
    exact ih p hp hrow'

/-! ## A count at the root -/

/-- A sequence or a command with another repeat count. -/
def withCount (n : Count) : Pattern → Pattern
  | .sequence ps _ => .sequence ps n
  | .command name args _ => .command name args n
  | p => p

/-- Whether the pattern is a command. -/
def isCommand : Pattern → Bool
  | .command _ _ _ => true
  | _ => false

/-- The repeat count of a command has no part in its row. -/
theorem expandAt_command (n m : Count) :
    expandAt limit depth (.command name args n) = expandAt limit depth (.command name args m) := rfl

/-- The repeat count of a command has a part in its text. -/
theorem canonical_command (n : Count) :
    canonical (.command name args n) = repeatedBy n (canonical (.command name args .absent)) := rfl

/-- A pattern that can be written is read back as its canonical form. -/
theorem LegibleRoot.parse_textValue (h : LegibleRoot p) (hfits : Fits s.maxDepth 0 (canonical p).nesting) :
    ∃ t : String, p.textValue = .ok (.text t) ∧ parse s t = .ok (canonical p) := by
  obtain ⟨cs, htext, -, hread⟩ := run_text h hfits
  exact ⟨String.ofList cs, h.textValue htext, (hread s.trailing).1⟩

theorem fits_canonical (hroom : 2 * (p.nesting : Int) ≤ limit) : Fits limit 0 (canonical p).nesting := by
  have hle := nesting_canonical_le p
  unfold Fits
  omega

/-- What a text was written for a pattern with a row unrolls to. -/
def Rewritten (s : Settings) (p : Pattern) (r : Except Expansion.Fault (List Stroke)) : Prop :=
  ∃ (t : String) (q : Pattern), p.textValue = .ok (.text t) ∧ parse s t = .ok q ∧ expand s.maxDepth q = r

theorem Rewritten.unique {r r' : Except Expansion.Fault (List Stroke)} (h : Rewritten s p r) (h' : Rewritten s p r') :
    r = r' := by
  obtain ⟨t, q, ht, hq, hr⟩ := h
  obtain ⟨t', q', ht', hq', hr'⟩ := h'
  rw [ht] at ht'
  cases ht'
  rw [hq] at hq'
  cases hq'
  exact hr.symm.trans hr'

/-- The text of a regular pattern keeps its row. -/
theorem Regular.rewritten (h : Regular p) (hroom : 2 * (p.nesting : Int) ≤ s.maxDepth)
    (hrow : expand s.maxDepth p = .ok row) : Rewritten s p (.ok row) := by
  have hfits := fits_canonical hroom
  obtain ⟨t, ht, hparse⟩ := LegibleRoot.parse_textValue (s := s) (.inl h.legible) hfits
  exact ⟨t, canonical p, ht, hparse, (h.unrolls 0 0 row hrow).1 hfits⟩

/-- **A command with a count is written as more than it stands for**: its text unrolls to its row as many times as
the count says. -/
theorem expand_text_of_call (h : Regular (.command name args .absent)) (hk : 1 ≤ k) (hfew : Numeral.fits k = true)
    (hroom : 2 * ((Pattern.command name args (.times k)).nesting : Int) ≤ s.maxDepth)
    (hrow : expand s.maxDepth (.command name args (.times k)) = .ok row) :
    Rewritten s (.command name args (.times k)) (counted (.times k) row) := by
  have hfits := fits_canonical hroom
  have honce : Legible .member (.command name args .absent) := h.legible
  have hleg : Legible .member (.command name args (.times k)) := by
    cases honce with
    | command hname each => exact .command hname each (.inr ⟨k, rfl, hfew⟩)
  obtain ⟨t, ht, hparse⟩ := LegibleRoot.parse_textValue (s := s) (.inl hleg) hfits
  refine ⟨t, _, ht, hparse, ?_⟩
  rw [canonical_command] at hfits ⊢
  rw [repeatedBy, if_neg (by simp [Count.isAbsent]), nesting, fits_succ, nestingEach, fits_max] at hfits
  refine expandAt_repeatedBy_times hk hfits.1 ?_
  exact (h.unrolls 0 1 row (expandAt_command (.times k) .absent ▸ hrow)).1 hfits.2.1

/-- A command with a count that is too long has no text. -/
theorem fits_of_textValue {v : Value} (h : (Pattern.command name args (.times k)).textValue = .ok v) :
    Numeral.fits k = true := by
  by_contra hlong
  have hcount := countText_tooLong (Bool.not_eq_true _ ▸ hlong)
  have htop : ∀ cs, topText (.command name args (.times k)) ≠ .ok cs := by
    intro cs hcs
    rw [topText] at hcs
    cases hparts : argumentTexts args with
    | error f => simp [hparts, Bind.bind, Except.bind] at hcs
    | ok parts =>
      cases hcall : callText name args parts with
      | error f => simp [hparts, hcall, Bind.bind, Except.bind] at hcs
      | ok inner => simp [hparts, hcall, repeatedText, hcount, Count.isAbsent, Bind.bind, Except.bind] at hcs
  have hbare : bare? (.command name args (.times k)) = none := rfl
  rw [textValue, hbare] at h
  cases htext : topText (.command name args (.times k)) with
  | error f => simp [text, htext, Except.map] at h
  | ok cs => exact htop cs htext

/-! ## Where the two agree -/

/-- Whether the expansion and the writer take a repeat count alike: the row of the pattern is its row without the count,
repeated, and its text unrolls to that row. -/
def CountAgrees (s : Settings) (k : Nat) (p : Pattern) (row : List Stroke) : Prop :=
  (∃ once, expand s.maxDepth (p.withCount .absent) = .ok once ∧ row = Repetition.copies k once) ∧
    Rewritten s (p.withCount (.times k)) (.ok row)

theorem copies_one (row : List Stroke) : Repetition.copies 1 row = row := by
  simp [Repetition.copies_eq_flatten_replicate]

theorem eq_copies_iff (hk : 1 ≤ k) : row = Repetition.copies k row ↔ k = 1 ∨ row = [] := by
  constructor
  · intro h
    have hlen : row.length = k * row.length := by
      simpa [Repetition.copies_eq_flatten_replicate] using congrArg List.length h
    by_cases hempty : row.length = 0
    · exact .inr (List.length_eq_zero_iff.1 hempty)
    · exact .inl (Nat.eq_of_mul_eq_mul_right (Nat.pos_of_ne_zero hempty) (by omega))
  · rintro (rfl | rfl)
    · exact (copies_one row).symm
    · rfl

/-- The expansion repeats a sequence as its text does. -/
theorem countAgrees_sequence (h : Meaningful (.sequence ps n)) (hk : 1 ≤ k)
    (hroom : 2 * ((Pattern.sequence ps n).nesting : Int) ≤ s.maxDepth)
    (hrow : expand s.maxDepth (.sequence ps (.times k)) = .ok row) : CountAgrees s k (.sequence ps n) row := by
  have hmeaning : Meaningful (.sequence ps (.times k)) := by
    cases h with
    | sequence ne each => exact .sequence ne each (.inr ⟨k, rfl, hk⟩)
  obtain ⟨hlimit, rows, hrows, hcounted⟩ := expandAt_sequence_eq_ok.1 hrow
  refine ⟨⟨rows.flatten, expandAt_sequence_eq_ok.2 ⟨hlimit, rows, hrows, rfl⟩, ?_⟩,
    (hmeaning.regular hrow).rewritten hroom hrow⟩
  rw [counted_times] at hcounted
  split at hcounted <;> cases hcounted
  rfl

/-- The expansion leaves a command as it is, so it agrees with the text only if the text repeats nothing. -/
theorem countAgrees_command (h : Meaningful (.command name args n)) (hk : 1 ≤ k)
    (hroom : 2 * ((Pattern.command name args n).nesting : Int) ≤ s.maxDepth)
    (hrow : expand s.maxDepth (.command name args (.times k)) = .ok row) :
    CountAgrees s k (.command name args n) row ↔ k = 1 ∨ (row = [] ∧ Repetition.fits k = true) := by
  have hmeaning : Meaningful (.command name args .absent) := by
    cases h with
    | mirrored h => exact .mirrored h
    | counted hrule ne each hchar hn => exact .counted hrule ne each hchar hn
  have honce : expand s.maxDepth (.command name args .absent) = .ok row := hrow
  have hregular := hmeaning.regular honce
  have hrepeats : (∃ once, expand s.maxDepth ((Pattern.command name args n).withCount .absent) = .ok once ∧
      row = Repetition.copies k once) ↔ k = 1 ∨ row = [] := by
    rw [← eq_copies_iff hk, withCount, honce]
    simp
  have htext (hfew : Numeral.fits k = true) := expand_text_of_call hregular hk hfew hroom hrow
  rw [CountAgrees, hrepeats, withCount]
  constructor
  · rintro ⟨rfl | rfl, hrewritten⟩
    · exact .inl rfl
    · obtain ⟨t, q, ht, -⟩ := id hrewritten
      have hcounted := (htext (fits_of_textValue ht)).unique hrewritten
      rw [counted_times] at hcounted
      split at hcounted
      · rename_i hfits
        exact .inr ⟨rfl, hfits⟩
      · cases hcounted
  · intro hwhen
    have hfits : Repetition.fits k = true := by
      obtain rfl | ⟨-, hfits⟩ := hwhen
      · rfl
      · exact hfits
    have hcopies : row = Repetition.copies k row := (eq_copies_iff hk).2 (hwhen.imp_right And.left)
    have hrewritten := htext (Numeral.fits_of_repetition hfits)
    rw [counted_times, if_pos hfits, ← hcopies] at hrewritten
    exact ⟨hwhen.imp_right And.left, hrewritten⟩

/-- **Where the expansion and the writer agree on a repeat count.** For a sequence they always do. For a command
they do if the count is one, or if there is nothing to repeat and the count can be repeated at all. -/
theorem expand_withCount_iff (hp : Meaningful p) (hnode : (p.isSequence || p.isCommand) = true) (hk : 1 ≤ k)
    (hroom : 2 * (p.nesting : Int) ≤ s.maxDepth) (hrow : expand s.maxDepth (p.withCount (.times k)) = .ok row) :
    CountAgrees s k p row ↔ p.isSequence = true ∨ k = 1 ∨ (row = [] ∧ Repetition.fits k = true) := by
  cases p with
  | sequence ps n => exact iff_of_true (countAgrees_sequence hp hk hroom hrow) (.inl rfl)
  | command name args n =>
    rw [countAgrees_command hp hk hroom hrow]
    simp [isSequence]
  | symbol | elementCount | reference | other => cases hnode

theorem expand_withCount_iff_twice :
    CountAgrees ⟨4, true⟩ 2 (.sequence [.symbol "d" true .absent] .absent) [⟨"d", true⟩, ⟨"d", true⟩] ∧
      ¬ CountAgrees ⟨4, true⟩ 2 (.command "mir" [.symbol "d" true .absent] .absent) [⟨"d", true⟩] := by
  have hd : Meaningful (.symbol "d" true .absent) := .symbol (by decide) (.inl rfl)
  have hsequence : Meaningful (.sequence [.symbol "d" true .absent] .absent) :=
    .sequence (by simp) (by simpa using hd) (.inl rfl)
  constructor
  · exact (expand_withCount_iff (s := ⟨4, true⟩) hsequence rfl (by decide) (by decide) (by decide)).2 (.inl rfl)
  · intro hagrees
    have hrow : expand 4 (.command "mir" [.symbol "d" true .absent] (.times 2)) = .ok [⟨"d", true⟩] := by decide
    have hwhen := (expand_withCount_iff (k := 2) (.mirrored hd) rfl (by decide) (by decide) hrow).1 hagrees
    revert hwhen
    decide

/-- A mirrored pattern with a count stands for its row once, and is written as three times that. -/
theorem expand_withCount_mirrored :
    let node : Pattern := .command "mir" [.symbol "d" false .absent] (.times 3)
    expand 64 node = .ok [⟨"d", false⟩] ∧ node.textValue = .ok (.text "seq(mir(d), 3)") ∧
      Rewritten ⟨64, true⟩ node (.ok [⟨"d", false⟩, ⟨"d", false⟩, ⟨"d", false⟩]) ∧
      ¬ CountAgrees ⟨64, true⟩ 3 node [⟨"d", false⟩] := by
  intro node
  have hrow : expand 64 node = .ok [⟨"d", false⟩] := by decide
  have hd : Regular (.symbol "d" false .absent) := .symbol (by decide) (.inl rfl)
  have hrewritten : Rewritten ⟨64, true⟩ node (.ok [⟨"d", false⟩, ⟨"d", false⟩, ⟨"d", false⟩]) :=
    expand_text_of_call (s := ⟨64, true⟩) (.mirrored hd) (by decide) (by decide) (by decide) hrow
  refine ⟨hrow, by with_unfolding_all rfl, hrewritten, fun hagrees => ?_⟩
  cases hagrees.2.unique hrewritten

end Pattern

end Rosette
