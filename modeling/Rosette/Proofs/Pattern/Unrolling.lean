import Rosette.Pattern.Expansion
import Rosette.Proofs.Pattern.RoundTrip
import Rosette.Proofs.Traversal

/-!
# Writing a pattern keeps its row

Main result: a regular pattern has a text, the text is read, and what is read unrolls to the row of the pattern.
What is read is the canonical form (`canonical`), which nests at most twice as deep (`nesting_canonical_le`) and
unrolls to the same row at any depth with room for it (`Regular.unrolls`).
-/

namespace Rosette

/-- A count that is none, or a natural number from `least` on. -/
def Count.IsFrom (least : Nat) (n : Count) : Prop := n = .absent ∨ ∃ k : Nat, n = .times k ∧ least ≤ k

/-- A count that is none, or a natural number from `least` on that is not too long for a text. -/
def Count.IsAtLeast (least : Nat) (n : Count) : Prop :=
  n = .absent ∨ ∃ k : Nat, n = .times k ∧ least ≤ k ∧ Numeral.fits k = true

theorem Count.IsAtLeast.isWritten {least : Nat} {n : Count} (h : n.IsAtLeast least) : n.IsWritten := by
  obtain rfl | ⟨k, rfl, -, hk⟩ := h
  · exact .inl rfl
  · exact .inr ⟨k, rfl, hk⟩

theorem Count.IsAtLeast.isFrom {least : Nat} {n : Count} (h : n.IsAtLeast least) : n.IsFrom least := by
  obtain rfl | ⟨k, rfl, hk, -⟩ := h
  · exact .inl rfl
  · exact .inr ⟨k, rfl, hk⟩

namespace Pattern

open Expansion

/-- A pattern whose parts all have a meaning as strokes and can be written: stroke letters, sequences that are not
empty, mirrored patterns, and calls of `seq` and `space` that end in a stroke letter, all with usable counts. -/
inductive Regular : Pattern → Prop where
  | symbol {char : String} {rotated : Bool} {n : Count} (hchar : char ∈ Stroke.alphabet) (hn : n.IsAtLeast 0) :
      Regular (.symbol char rotated n)
  | sequence {ps : List Pattern} {n : Count} (ne : ps ≠ []) (each : ∀ p ∈ ps, Regular p) (hn : n.IsAtLeast 1) :
      Regular (.sequence ps n)
  | mirrored {p : Pattern} (h : Regular p) : Regular (.command CommandRule.mir.name [p] .absent)
  | counted {rule : CommandRule} {ps : List Pattern} {char : String} {rotated : Bool} {n : Count}
      (hrule : rule = .seq ∨ rule = .space) (ne : ps ≠ []) (each : ∀ p ∈ ps, Regular p)
      (hchar : char ∈ Stroke.alphabet) (hn : n.IsAtLeast 1) :
      Regular (.command rule.name (ps ++ [.symbol char rotated n]) .absent)

/-- A regular pattern, with an element count if it has one. -/
def RegularRoot (p : Pattern) : Prop :=
  Regular p ∨ ∃ (q : Pattern) (k : Nat), p = .elementCount q (.times k) ∧ Regular q ∧ Numeral.fits k = true

variable {p q : Pattern} {ps qs : List Pattern} {n : Count} {limit : Int} {depth : Nat} {row : List Stroke}
  {rows : List (List Stroke)} {place : Place}

theorem Regular.legible (h : Regular p) : Legible place p := by
  induction h generalizing place with
  | symbol hchar hn => exact .letter ⟨_, _, _, rfl, hchar, hn.isWritten⟩
  | sequence ne each hn ih => exact .sequence ne (fun p hp => ih p hp) hn.isWritten
  | mirrored h ih => exact .command (by decide) (by simpa using ih) (.inl rfl)
  | counted hrule ne each hchar hn ih =>
    refine .command (by rcases hrule with rfl | rfl <;> decide) (fun p hp => ?_) (.inl rfl)
    rcases List.mem_append.1 hp with hp | hp
    · exact ih p hp
    · cases List.mem_singleton.1 hp
      exact .letter ⟨_, _, _, rfl, hchar, hn.isWritten⟩

theorem RegularRoot.legible (h : RegularRoot p) : LegibleRoot p := by
  obtain h | ⟨q, k, rfl, h, hk⟩ := h
  · exact .inl h.legible
  · exact .inr ⟨q, k, rfl, h.legible, hk⟩

/-! ## The nesting of the canonical form -/

theorem nesting_repeatedBy_le : (repeatedBy n p).nesting ≤ p.nesting + 1 := by
  unfold repeatedBy
  split
  · omega
  · simp only [nesting, nestingEach]
    omega

theorem nestingEach_append : nestingEach (ps ++ qs) = max (nestingEach ps) (nestingEach qs) := by
  induction ps with
  | nil => simp [nestingEach]
  | cons p ps ih => simp only [List.cons_append, nestingEach, ih, Nat.max_assoc]

mutual

/-- **The canonical form nests at most twice as deep**: a level with a repeat count becomes two. -/
theorem nesting_canonical_le : (p : Pattern) → (canonical p).nesting ≤ 2 * p.nesting
  | .symbol _ _ _ | .reference _ | .other _ => by simp [canonical, nesting]
  | .sequence ps n => by
    have hps := nestingEach_dissolvedEach_le ps
    have hrep := nesting_repeatedBy_le (n := n) (p := .sequence (dissolvedEach ps) .absent)
    rw [canonical]
    split <;> simp only [nesting] at * <;> omega
  | .command name args n => by
    have hargs := nestingEach_canonicalEach_le args
    have hrep := nesting_repeatedBy_le (n := n) (p := .command name (canonicalEach args) .absent)
    rw [canonical]
    simp only [nesting] at *
    omega
  | .elementCount p n => by
    rw [canonical, nesting, nesting]
    exact nesting_canonical_le p

theorem nestingEach_canonicalEach_le : (ps : List Pattern) → nestingEach (canonicalEach ps) ≤ 2 * nestingEach ps
  | [] => by simp [canonicalEach, nestingEach]
  | p :: ps => by
    have hp := nesting_canonical_le p
    have hps := nestingEach_canonicalEach_le ps
    rw [canonicalEach, nestingEach, nestingEach]
    omega

theorem nestingEach_dissolved_le : (p : Pattern) → nestingEach (dissolved p) ≤ 2 * p.nesting
  | .symbol _ _ _ | .reference _ | .other _ => by simp [dissolved, nesting, nestingEach]
  | .sequence ps n => by
    have hps := nestingEach_dissolvedEach_le ps
    have hrep := nesting_repeatedBy_le (n := n) (p := .sequence (dissolvedEach ps) .absent)
    rw [dissolved]
    split
    · simp only [nesting, nestingEach] at *
      omega
    · split <;> simp only [nesting, nestingEach] at * <;> omega
  | .command name args n => by
    have hargs := nestingEach_canonicalEach_le args
    have hrep := nesting_repeatedBy_le (n := n) (p := .command name (canonicalEach args) .absent)
    rw [dissolved]
    simp only [nesting, nestingEach] at *
    omega
  | .elementCount p n => by
    simp only [dissolved, nesting, nestingEach]
    omega

theorem nestingEach_dissolvedEach_le : (ps : List Pattern) → nestingEach (dissolvedEach ps) ≤ 2 * nestingEach ps
  | [] => by simp [dissolvedEach, nestingEach]
  | p :: ps => by
    have hp := nestingEach_dissolved_le p
    have hps := nestingEach_dissolvedEach_le ps
    rw [dissolvedEach, nestingEach_append, nestingEach]
    omega

end

/-! ## What unrolls to what -/

theorem expandEach_cons_eq_ok :
    expandEach limit depth (p :: ps) = .ok rows ↔
      ∃ row rows', expandAt limit depth p = .ok row ∧ expandEach limit depth ps = .ok rows' ∧ rows = row :: rows' := by
  rw [expandEach]
  cases expandAt limit depth p with
  | error f => simp [Bind.bind, Except.bind]
  | ok row =>
    cases expandEach limit depth ps with
    | error f => simp [Bind.bind, Except.bind]
    | ok rows' => simp [Bind.bind, Except.bind, eq_comm]

theorem expandEach_eq_ok :
    expandEach limit depth ps = .ok rows ↔
      List.Forall₂ (fun p row => expandAt limit depth p = .ok row) ps rows := by
  induction ps generalizing rows with
  | nil =>
    rw [List.forall₂_nil_left_iff, expandEach, Except.ok.injEq, eq_comm]
  | cons p ps ih =>
    rw [expandEach_cons_eq_ok, List.forall₂_cons_left_iff]
    simp only [ih]

theorem expandEach_append {rows' : List (List Stroke)} (h : expandEach limit depth ps = .ok rows)
    (h' : expandEach limit depth qs = .ok rows') : expandEach limit depth (ps ++ qs) = .ok (rows ++ rows') :=
  expandEach_eq_ok.2 (List.rel_append (expandEach_eq_ok.1 h) (expandEach_eq_ok.1 h'))

theorem expandInit_concat : expandInit limit depth (ps ++ [q]) = expandEach limit depth ps := by
  induction ps with
  | nil => rfl
  | cons p ps ih =>
    rw [expandEach, ← ih]
    cases ps <;> rfl

theorem expandAt_sequence_eq_ok :
    expandAt limit depth (.sequence ps n) = .ok row ↔
      (depth : Int) + 1 ≤ limit ∧
        ∃ rows, expandEach limit (depth + 1) ps = .ok rows ∧ counted n rows.flatten = .ok row := by
  rw [expandAt]
  split
  · simp only [reduceCtorEq, false_iff]
    omega
  · rw [and_iff_right (by omega)]
    cases expandEach limit (depth + 1) ps <;> simp [Bind.bind, Except.bind]

theorem expandAt_mirrored_eq_ok :
    expandAt limit depth (.command CommandRule.mir.name [p] n) = .ok row ↔
      (depth : Int) + 1 ≤ limit ∧ ∃ row', expandAt limit (depth + 1) p = .ok row' ∧ row = row'.reverse := by
  rw [expandAt]
  split
  · simp only [reduceCtorEq, false_iff]
    omega
  · have haccepts : CommandRule.mir.accepts [p].length = true := rfl
    rw [and_iff_right (by omega), if_neg (by decide), if_pos rfl, if_pos haccepts, expandEach, expandEach]
    cases expandAt limit (depth + 1) p <;> simp [Bind.bind, Except.bind, eq_comm]

/-- How a counted command puts the rows of its patterns together. -/
def gathered (rule : CommandRule) (n : Count) (rows : List (List Stroke)) : Except Expansion.Fault (List Stroke) :=
  if rule = .seq then counted n rows.flatten else (counted n [Stroke.spacer]).map fun gap => gap.intercalate rows

theorem expandAt_counted_eq_ok {rule : CommandRule} (hrule : rule = .seq ∨ rule = .space) {m : Count} :
    expandAt limit depth (.command rule.name (ps ++ [q]) m) = .ok row ↔
      (depth : Int) + 1 ≤ limit ∧ ∃ k rows, countArgument rule (ps ++ [q]) = .ok k ∧
        expandEach limit (depth + 1) ps = .ok rows ∧ gathered rule k rows = .ok row := by
  rw [expandAt, expandInit_concat]
  split
  · simp only [reduceCtorEq, false_iff]
    omega
  · rw [and_iff_right (by omega)]
    rcases hrule with rfl | rfl
    · rw [if_pos rfl]
      cases countArgument .seq (ps ++ [q]) with
      | error f => simp [Bind.bind, Except.bind]
      | ok k => cases expandEach limit (depth + 1) ps <;> simp [Bind.bind, Except.bind, gathered]
    · rw [if_neg (by decide), if_neg (by decide), if_pos rfl]
      cases countArgument .space (ps ++ [q]) with
      | error f => simp [Bind.bind, Except.bind]
      | ok k =>
        have hne : CommandRule.space ≠ .seq := by decide
        cases hgap : counted k [Stroke.spacer] with
        | error f => simp [hgap, hne, Bind.bind, Except.bind, gathered, Except.map]
        | ok gap =>
          cases expandEach limit (depth + 1) ps <;> simp [hgap, hne, Bind.bind, Except.bind, gathered, Except.map]

theorem countArgument_concat {rule : CommandRule} (hrule : rule = .seq ∨ rule = .space) (hne : ps ≠ []) {char : String}
    {rotated : Bool} (hchar : char ∈ Stroke.alphabet) (hn : n.IsFrom 1) :
    countArgument rule (ps ++ [.symbol char rotated n]) = .ok (if n.isAbsent then .times 1 else n) := by
  have haccepts : rule.accepts ((ps ++ [Pattern.symbol char rotated n]).length : Nat) = true := by
    have hpos := List.length_pos_iff.2 hne
    rcases hrule with rfl | rfl <;> simp [CommandRule.accepts, CommandRule.seq, CommandRule.space] <;> omega
  have hcount : countOf (.symbol char rotated n) = if n.isAbsent then .times 1 else n := by
    obtain rfl | ⟨k, rfl, -⟩ := hn
    · simp [countOf, symbol?, hchar, Count.isAbsent]
    · simp [countOf, symbol?, Count.isAbsent]
  have hset : (if n.isAbsent then Count.times 1 else n).isSet = true := by
    obtain rfl | ⟨k, rfl, hk⟩ := hn
    · rfl
    · simp [Count.isAbsent, Count.isSet]
      omega
  rw [countArgument, if_pos haccepts, List.getLast?_append]
  simp [hcount, hset]

/-! ## The row of the canonical form -/

/-- A pattern and its canonical form have the same row, at any depths with room for them. -/
def Unrolls (limit : Int) (p : Pattern) : Prop :=
  ∀ (depth depth' : Nat) (row : List Stroke), expandAt limit depth p = .ok row →
    (Fits limit depth' (canonical p).nesting → expandAt limit depth' (canonical p) = .ok row) ∧
      (Fits limit depth' (nestingEach (dissolved p)) →
        ∃ rows, expandEach limit depth' (dissolved p) = .ok rows ∧ rows.flatten = row)

/-- What does not dissolve needs no proof of its own as a member. -/
theorem Unrolls.of_canonical (hp : dissolved p = [canonical p])
    (h : ∀ (depth depth' : Nat) (row : List Stroke), expandAt limit depth p = .ok row →
      Fits limit depth' (canonical p).nesting → expandAt limit depth' (canonical p) = .ok row) : Unrolls limit p := by
  intro depth depth' row hrow
  refine ⟨h depth depth' row hrow, fun hfits => ⟨[row], ?_, by simp⟩⟩
  rw [hp] at hfits ⊢
  rw [nestingEach, fits_max] at hfits
  exact expandEach_cons_eq_ok.2 ⟨row, [], h depth depth' row hrow hfits.1, rfl, rfl⟩

theorem expandEach_canonicalEach (h : ∀ p ∈ ps, Unrolls limit p) {depth' : Nat}
    (hrows : expandEach limit depth ps = .ok rows) (hfits : Fits limit depth' (nestingEach (canonicalEach ps))) :
    expandEach limit depth' (canonicalEach ps) = .ok rows := by
  induction ps generalizing rows with
  | nil =>
    cases hrows
    rfl
  | cons p ps ih =>
    obtain ⟨row, rest, hrow, hrest, rfl⟩ := expandEach_cons_eq_ok.1 hrows
    rw [canonicalEach, nestingEach, fits_max] at hfits
    rw [canonicalEach]
    have hp := (h p List.mem_cons_self depth depth' row hrow).1 hfits.1
    have hps := ih (fun q hq => h q (List.mem_cons_of_mem _ hq)) hrest hfits.2
    exact expandEach_cons_eq_ok.2 ⟨row, rest, hp, hps, rfl⟩

theorem expandEach_dissolvedEach (h : ∀ p ∈ ps, Unrolls limit p) {depth' : Nat}
    (hrows : expandEach limit depth ps = .ok rows) (hfits : Fits limit depth' (nestingEach (dissolvedEach ps))) :
    ∃ rows', expandEach limit depth' (dissolvedEach ps) = .ok rows' ∧ rows'.flatten = rows.flatten := by
  induction ps generalizing rows with
  | nil => exact ⟨[], rfl, by cases hrows; rfl⟩
  | cons p ps ih =>
    obtain ⟨row, rest, hrow, hrest, rfl⟩ := expandEach_cons_eq_ok.1 hrows
    rw [dissolvedEach, nestingEach_append, fits_max] at hfits
    obtain ⟨first, hfirst, hflat⟩ := (h p List.mem_cons_self depth depth' row hrow).2 hfits.1
    obtain ⟨others, hothers, hflats⟩ := ih (fun q hq => h q (List.mem_cons_of_mem _ hq)) hrest hfits.2
    refine ⟨first ++ others, expandEach_append hfirst hothers, ?_⟩
    rw [List.flatten_append, hflat, hflats, List.flatten_cons]

/-- The members of a word are letters, and dissolve to themselves. -/
theorem dissolvedEach_of_isWord (each : ∀ p ∈ ps, Legible .member p) (hw : Writing.isWord ps = true) :
    dissolvedEach ps = ps := by
  obtain ⟨-, hletters⟩ := letters_of_isWord hw
  exact dissolvedEach_eq_self fun p hp => ((each p hp).isWrittenLetter (hletters p hp)).settled.2.2

/-- A sequence becomes one of dissolved members, in a call of `seq` if it has a repeat count. -/
theorem canonical_sequence (each : ∀ p ∈ ps, Legible .member p) :
    canonical (.sequence ps n) = repeatedBy n (.sequence (dissolvedEach ps) .absent) := by
  rw [canonical]
  split
  · rename_i hw
    rw [Bool.and_eq_true] at hw
    rw [dissolvedEach_of_isWord each hw.2, repeatedBy, if_pos hw.1]
  · rfl

/-- A call of `seq` with a count from one on repeats the row of its argument, if the count fits into a word. -/
theorem expandAt_repeatedBy_times {k : Nat} (hk : 1 ≤ k) (hroom : (depth : Int) + 1 ≤ limit)
    (h : expandAt limit (depth + 1) p = .ok row) :
    expandAt limit depth (repeatedBy (.times k) p) = counted (.times k) row := by
  have hcall : repeatedBy (.times k) p =
      .command CommandRule.seq.name ([p] ++ [.symbol Stroke.spacerLetter false (.times k)]) .absent := rfl
  have hcount : countArgument .seq ([p] ++ [.symbol Stroke.spacerLetter false (.times k)]) = .ok (.times k) :=
    countArgument_concat (.inl rfl) (by simp) (by decide) (.inr ⟨k, rfl, hk⟩)
  have hrows : expandEach limit (depth + 1) [p] = .ok [row] := expandEach_cons_eq_ok.2 ⟨row, [], h, rfl, rfl⟩
  rw [hcall, expandAt, if_neg (by omega), if_pos rfl, hcount, expandInit_concat, hrows]
  simp [Bind.bind, Except.bind]

theorem expandAt_repeatedBy (hn : n.IsAtLeast 1) {row' : List Stroke}
    (h : ∀ depth' : Nat, Fits limit depth' p.nesting → expandAt limit depth' p = .ok row')
    (hcounted : counted n row' = .ok row) (hfits : Fits limit depth (repeatedBy n p).nesting) :
    expandAt limit depth (repeatedBy n p) = .ok row := by
  obtain rfl | ⟨k, rfl, hk, -⟩ := hn
  · cases hcounted
    exact h depth hfits
  · rw [repeatedBy, if_neg (by simp [Count.isAbsent]), nesting, fits_succ, nestingEach, fits_max] at hfits
    rw [expandAt_repeatedBy_times hk hfits.1 (h _ hfits.2.1), hcounted]

theorem Regular.unrolls_sequence (each : ∀ p ∈ ps, Legible .member p) (hn : n.IsAtLeast 1)
    (h : ∀ p ∈ ps, Unrolls limit p) : Unrolls limit (.sequence ps n) := by
  have hcanonical := canonical_sequence (n := n) each
  have honce : ∀ (depth depth' : Nat) (rows : List (List Stroke)), expandEach limit (depth + 1) ps = .ok rows →
      Fits limit depth' (Pattern.sequence (dissolvedEach ps) .absent).nesting →
      expandAt limit depth' (.sequence (dissolvedEach ps) .absent) = .ok rows.flatten := by
    intro depth depth' rows hrows hfits
    rw [nesting, fits_succ] at hfits
    obtain ⟨rows', hrows', hflat⟩ := expandEach_dissolvedEach h hrows hfits.2
    exact expandAt_sequence_eq_ok.2 ⟨hfits.1, rows', hrows', by rw [hflat]; rfl⟩
  have hwhole : ∀ (depth depth' : Nat) (row : List Stroke), expandAt limit depth (.sequence ps n) = .ok row →
      Fits limit depth' (canonical (.sequence ps n)).nesting →
      expandAt limit depth' (canonical (.sequence ps n)) = .ok row := by
    intro depth depth' row hrow hfits
    obtain ⟨-, rows, hrows, hcounted⟩ := expandAt_sequence_eq_ok.1 hrow
    rw [hcanonical] at hfits ⊢
    exact expandAt_repeatedBy hn (fun d => honce depth d rows hrows) hcounted hfits
  by_cases hw : (n.isAbsent && Writing.isWord ps) = true
  · exact .of_canonical (by rw [dissolved, canonical, if_pos hw, if_pos hw]) hwhole
  cases habs : n.isAbsent with
  | false => exact .of_canonical (by rw [hcanonical, dissolved, if_neg hw, if_neg (by simp [habs])]) hwhole
  | true =>
    intro depth depth' row hrow
    refine ⟨hwhole depth depth' row hrow, fun hfits => ?_⟩
    obtain ⟨-, rows, hrows, hcounted⟩ := expandAt_sequence_eq_ok.1 hrow
    rw [dissolved, if_neg hw, if_pos habs] at hfits ⊢
    obtain rfl := Count.eq_absent habs
    cases hcounted
    exact expandEach_dissolvedEach h hrows hfits

theorem canonicalEach_append : canonicalEach (ps ++ qs) = canonicalEach ps ++ canonicalEach qs := by
  simp only [canonicalEach_eq_map, List.map_append]

theorem canonicalEach_ne_nil (h : ps ≠ []) : canonicalEach ps ≠ [] := by
  simpa [canonicalEach_eq_map] using h

theorem Regular.unrolls_mirrored (h : Unrolls limit p) : Unrolls limit (.command CommandRule.mir.name [p] .absent) := by
  have hcanonical : canonical (.command CommandRule.mir.name [p] .absent) =
      .command CommandRule.mir.name [canonical p] .absent := rfl
  refine .of_canonical rfl fun depth depth' row hrow hfits => ?_
  obtain ⟨-, row', hrow', rfl⟩ := expandAt_mirrored_eq_ok.1 hrow
  rw [hcanonical, nesting, fits_succ, nestingEach, fits_max] at hfits
  obtain ⟨hroom, hp, -⟩ := hfits
  rw [hcanonical]
  exact expandAt_mirrored_eq_ok.2 ⟨hroom, row', (h _ _ row' hrow').1 hp, rfl⟩

theorem Regular.unrolls_counted {rule : CommandRule} (hrule : rule = .seq ∨ rule = .space) (ne : ps ≠ [])
    (h : ∀ p ∈ ps, Unrolls limit p) {char : String} {rotated : Bool} (hchar : char ∈ Stroke.alphabet)
    (hn : n.IsAtLeast 1) : Unrolls limit (.command rule.name (ps ++ [.symbol char rotated n]) .absent) := by
  have hcanonical : canonical (.command rule.name (ps ++ [.symbol char rotated n]) .absent) =
      .command rule.name (canonicalEach ps ++ [.symbol char rotated n]) .absent := by
    rw [canonical, canonicalEach_append]
    rfl
  refine .of_canonical rfl fun depth depth' row hrow hfits => ?_
  obtain ⟨-, k, rows, hk, hrows, hgathered⟩ := (expandAt_counted_eq_ok hrule).1 hrow
  rw [hcanonical, nesting, fits_succ, nestingEach_append, fits_max] at hfits
  obtain ⟨hroom, hps, -⟩ := hfits
  rw [countArgument_concat hrule ne hchar hn.isFrom,
    ← countArgument_concat hrule (canonicalEach_ne_nil ne) hchar hn.isFrom] at hk
  rw [hcanonical]
  exact (expandAt_counted_eq_ok hrule).2 ⟨hroom, k, rows, hk, expandEach_canonicalEach h hrows hps, hgathered⟩

/-- **The canonical form of a regular pattern has its row.** -/
theorem Regular.unrolls (h : Regular p) : Unrolls limit p := by
  induction h with
  | symbol hchar hn => exact .of_canonical rfl fun _ _ _ hrow _ => hrow
  | sequence ne each hn ih => exact Regular.unrolls_sequence (fun p hp => (each p hp).legible) hn ih
  | mirrored h ih => exact Regular.unrolls_mirrored ih
  | counted hrule ne each hchar hn ih => exact Regular.unrolls_counted hrule ne ih hchar hn

/-- **Writing keeps the row**: a regular pattern has a text, the text is read if the limit has room for twice the
levels of the pattern, and what is read unrolls to the row of the pattern. -/
theorem expand_text_of_regular {s : Settings} (h : RegularRoot p) (hroom : 2 * (p.nesting : Int) ≤ s.maxDepth) :
    ∃ (t : String) (q : Pattern), p.textValue = .ok (.text t) ∧ parse s t = .ok q ∧
      ∀ row, expand s.maxDepth p = .ok row → expand s.maxDepth q = .ok row := by
  have hle := nesting_canonical_le p
  have hfits : Fits s.maxDepth 0 (canonical p).nesting := by
    unfold Fits
    omega
  obtain ⟨cs, htext, -, hread⟩ := run_text h.legible hfits
  refine ⟨String.ofList cs, canonical p, h.legible.textValue htext, (hread s.trailing).1, fun row hrow => ?_⟩
  obtain h | ⟨q, k, rfl, h, -⟩ := h
  · exact (h.unrolls 0 0 row hrow).1 hfits
  · rw [expand, expandAt] at hrow
    cases hq : expandAt s.maxDepth 0 q with
    | error f => simp [hq, Bind.bind, Except.bind] at hrow
    | ok inner =>
      rw [hq] at hrow
      rw [expand, canonical, expandAt, (h.unrolls 0 0 inner hq).1 hfits]
      exact hrow

theorem expand_text_of_regular_nested :
    ∃ (t : String) (q : Pattern), parse ⟨4, true⟩ t = .ok q ∧ expand 4 q = .ok [⟨"d", true⟩, ⟨"d", true⟩] := by
  have hd : Regular (.symbol "d" true .absent) := .symbol (by decide) (.inl rfl)
  have hinner : Regular (.sequence [.symbol "d" true .absent] .absent) :=
    .sequence (by simp) (by simpa using hd) (.inl rfl)
  have h : Regular (.sequence [.sequence [.symbol "d" true .absent] .absent] (.times 2)) :=
    .sequence (by simp) (by simpa using hinner) (.inr ⟨2, rfl, by decide, by decide⟩)
  obtain ⟨t, q, -, hparse, hrow⟩ := expand_text_of_regular (s := ⟨4, true⟩) (.inl h) (by decide)
  exact ⟨t, q, hparse, hrow _ (by decide)⟩

end Pattern

end Rosette
