import Rosette.Proofs.Pattern.Unrolling

/-!
# What rows come from

A pattern has a row in five ways only: as a stroke letter, as a sequence, mirrored, as a call that ends in a count, and
tiled. `row_induction` says so once, and what holds of all rows is proved by it.

Main results: `row_induction`, and that the limit decides whether there is a row but not which (`expandAt_eq_ok_iff`).
-/

namespace Rosette.Pattern

open Expansion

variable {limit limit' : Int} {depth depth' : Nat} {p q : Pattern} {ps args : List Pattern} {n m : Count}
  {name : String} {row row' : List Stroke} {rows : List (List Stroke)}

/-! ## Patterns and rows, one by one -/

/-- What holds of a pattern if it holds of its parts holds of every pattern. -/
theorem part_induction {motive : Pattern → Prop}
    (symbol : ∀ char rotated n, motive (.symbol char rotated n))
    (sequence : ∀ ps n, (∀ p ∈ ps, motive p) → motive (.sequence ps n))
    (command : ∀ name args n, (∀ p ∈ args, motive p) → motive (.command name args n))
    (elementCount : ∀ p n, motive p → motive (.elementCount p n))
    (reference : ∀ name, motive (.reference name)) (other : ∀ v, motive (.other v)) : ∀ p, motive p
  | .symbol char rotated n => symbol char rotated n
  | .sequence ps n =>
    sequence ps n fun p _ => part_induction symbol sequence command elementCount reference other p
  | .command name args n =>
    command name args n fun p _ => part_induction symbol sequence command elementCount reference other p
  | .elementCount p n =>
    elementCount p n (part_induction symbol sequence command elementCount reference other p)
  | .reference name => reference name
  | .other v => other v

/-- What has the form of a symbol has a row if its letter is one of a stroke, as many strokes as it counts. -/
theorem expandAt_symbol_eq_ok {char : String} {rotated : Bool} (h : p.symbol? = some (char, rotated, n)) :
    expandAt limit depth p = .ok row ↔ char ∈ Stroke.alphabet ∧ counted n [⟨char, rotated⟩] = .ok row := by
  have hsymbol : expandAt limit depth p = symbolRow char rotated n := by
    cases p with
    | symbol =>
      cases h
      rfl
    | other v => rw [expandAt, valueRow, h]
    | sequence | command | elementCount | reference => cases h
  rw [hsymbol, symbolRow]
  by_cases hletter : char ∈ Stroke.alphabet
  · rw [if_neg (Stroke.ne_solidMark_of_mem hletter), if_pos (List.contains_iff_mem.2 hletter), and_iff_right hletter]
  · rw [if_neg (mt List.contains_iff_mem.1 hletter)]
    split <;> simp [hletter]

/-- A count repeats every row as often, or no row. -/
theorem counted_cases (n : Count) :
    (∃ f, ∀ row, counted n row = .error f) ∨ ∃ k : Nat, ∀ row, counted n row = .ok (List.replicate k row).flatten := by
  have hrepeated : ∀ k : Int, (∃ f, ∀ row, repeated k row = .error f) ∨
      ∃ m : Nat, ∀ row, repeated k row = .ok (List.replicate m row).flatten := by
    intro k
    cases hk : Repetition.fits k with
    | false => exact .inl ⟨.overflow, fun row => by simp [repeated, Repetition.copies?, hk]⟩
    | true =>
      refine .inr ⟨k.toNat, fun row => ?_⟩
      simp [repeated, Repetition.copies?, hk, Repetition.copies_eq_flatten_replicate]
  cases n with
  | absent => exact .inr ⟨1, fun row => by simp [counted]⟩
  | times k => exact hrepeated k
  | other v =>
    cases hv : (Count.other v).number? with
    | none => exact .inl ⟨.misfit (.notTimes v.typeName), fun row => by simp only [counted, hv]⟩
    | some k => simpa only [counted, hv] using hrepeated k

theorem exists_copies_of_counted (h : counted n row = .ok row') :
    ∃ k : Nat, row' = (List.replicate k row).flatten ∧ ∀ row, counted n row = .ok (List.replicate k row).flatten := by
  obtain ⟨f, hf⟩ | ⟨k, hk⟩ := counted_cases n
  · rw [hf] at h
    cases h
  · rw [hk] at h
    cases h
    exact ⟨k, rfl, hk⟩

theorem countArgument_nil (rule : CommandRule) (hrule : rule = .seq ∨ rule = .space) :
    countArgument rule [] = .error (.arity rule) := by
  rcases hrule with rfl | rfl <;> rfl

/-- A command with a row mirrors one pattern, or ends in a count. -/
theorem command_cases (h : expandAt limit depth (.command name args m) = .ok row) :
    (∃ p, name = CommandRule.mir.name ∧ args = [p]) ∨
      ∃ rule ps q, (rule = .seq ∨ rule = .space) ∧ name = CommandRule.name rule ∧ args = ps ++ [q] := by
  have hcounted : ∀ rule : CommandRule, rule = .seq ∨ rule = .space →
      ∀ {α : Type} {f : Count → Except Expansion.Fault α} {a : α}, countArgument rule args >>= f = .ok a →
        ∃ ps q, args = ps ++ [q] := by
    intro rule hrule α f a ha
    obtain rfl | ⟨ps, q, rfl⟩ := args.eq_nil_or_concat'
    · rw [countArgument_nil rule hrule] at ha
      cases ha
    · exact ⟨ps, q, rfl⟩
  rw [expandAt] at h
  split at h
  · cases h
  split at h
  · rename_i hname
    obtain ⟨ps, q, hargs⟩ := hcounted .seq (.inl rfl) h
    exact .inr ⟨.seq, ps, q, .inl rfl, hname, hargs⟩
  split at h
  · rename_i hname
    split at h
    · rename_i haccepts
      refine .inl ?_
      have hlength : args.length = 1 := by
        rw [CommandRule.accepts, Bool.and_eq_true] at haccepts
        have hleast := of_decide_eq_true haccepts.1
        have hmost := of_decide_eq_true haccepts.2
        simp only [CommandRule.mir] at hleast hmost
        omega
      obtain ⟨p, hargs⟩ := List.length_eq_one_iff.1 hlength
      exact ⟨p, hname, hargs⟩
    · cases h
  split at h
  · rename_i hname
    obtain ⟨ps, q, hargs⟩ := hcounted .space (.inr rfl) h
    exact .inr ⟨.space, ps, q, .inr rfl, hname, hargs⟩
  · cases h

/-- **The ways to a row.** What holds of the row of a symbol, and of the row that is put together in each other way if
it holds of the rows it is put together from, holds of every row. -/
theorem row_induction {motive : Nat → Pattern → List Stroke → Prop}
    (symbol : ∀ {depth p char rotated n row}, p.symbol? = some (char, rotated, n) → char ∈ Stroke.alphabet →
      counted n [⟨char, rotated⟩] = .ok row → motive depth p row)
    (sequence : ∀ {depth : Nat} {ps n rows row}, (depth : Int) + 1 ≤ limit → List.Forall₂ (motive (depth + 1)) ps rows →
      counted n rows.flatten = .ok row → motive depth (.sequence ps n) row)
    (mirrored : ∀ {depth : Nat} {p m row}, (depth : Int) + 1 ≤ limit → motive (depth + 1) p row →
      motive depth (.command CommandRule.mir.name [p] m) row.reverse)
    (gathered : ∀ {depth : Nat} {rule ps q m n rows row}, rule = .seq ∨ rule = .space → (depth : Int) + 1 ≤ limit →
      countArgument rule (ps ++ [q]) = .ok n → List.Forall₂ (motive (depth + 1)) ps rows →
      gathered rule n rows = .ok row → motive depth (.command rule.name (ps ++ [q]) m) row)
    (tiled : ∀ {depth p n inner row}, motive depth p inner → tiled n inner = .ok row →
      motive depth (.elementCount p n) row)
    (h : expandAt limit depth p = .ok row) : motive depth p row := by
  -- on the pattern, and not on the run: the parts of a row are those of the parts of the pattern
  induction p using part_induction generalizing depth row with
  | symbol char rotated n =>
    obtain ⟨hletter, hrow⟩ := (expandAt_symbol_eq_ok rfl).1 h
    exact symbol rfl hletter hrow
  | sequence ps n ih =>
    obtain ⟨hlimit, rows, hrows, hcounted⟩ := expandAt_sequence_eq_ok.1 h
    refine sequence hlimit ?_ hcounted
    exact forall₂_of_mem (expandEach_eq_ok.1 hrows) fun p hp row hrow => ih p hp hrow
  | command name args m ih =>
    obtain ⟨p, rfl, rfl⟩ | ⟨rule, ps, q, hrule, rfl, rfl⟩ := command_cases h
    · obtain ⟨hlimit, row, hrow, rfl⟩ := expandAt_mirrored_eq_ok.1 h
      exact mirrored hlimit (ih p List.mem_cons_self hrow)
    · obtain ⟨hlimit, n, rows, hn, hrows, hgathered⟩ := (expandAt_counted_eq_ok hrule).1 h
      refine gathered hrule hlimit hn ?_ hgathered
      exact forall₂_of_mem (expandEach_eq_ok.1 hrows) fun p hp row hrow => ih p (List.mem_append_left _ hp) hrow
  | elementCount p n ih =>
    rw [expandAt, bind_eq_ok] at h
    obtain ⟨inner, hinner, hrow⟩ := h
    exact tiled (ih hinner) hrow
  | reference => cases h
  | other v =>
    cases hsymbol : (Pattern.other v).symbol? with
    | none =>
      rw [expandAt, valueRow, hsymbol] at h
      cases h
    | some =>
      obtain ⟨hletter, hrow⟩ := (expandAt_symbol_eq_ok hsymbol).1 h
      exact symbol hsymbol hletter hrow

/-! ## Rows and the limit -/

theorem nesting_of_symbol? {char : String} {rotated : Bool} (h : p.symbol? = some (char, rotated, n)) :
    p.nesting = 0 := by
  cases p with
  | symbol | other => rfl
  | sequence | command | elementCount | reference => cases h

theorem countArgument_concat_eq_ok {rule : CommandRule} :
    countArgument rule (ps ++ [q]) = .ok n ↔
      rule.accepts (ps.length + 1 : Nat) = true ∧ countOf q = n ∧ n.isSet = true := by
  unfold countArgument
  rw [List.length_append, List.length_singleton, List.getLast?_concat]
  dsimp only [Option.map_some, Option.getD_some]
  split
  · rename_i haccepts
    rw [and_iff_right haccepts]
    split
    · rename_i hset
      rw [Except.ok.injEq]
      exact ⟨fun h => ⟨h, h ▸ hset⟩, And.left⟩
    · rename_i hset
      simp only [reduceCtorEq, false_iff, not_and]
      exact fun h => h ▸ hset
  · rename_i haccepts
    simp only [reduceCtorEq, haccepts, Bool.false_eq_true, false_and]

/-- What ends a call in a count is no level. -/
theorem nesting_of_countArgument {rule : CommandRule} (h : countArgument rule (ps ++ [q]) = .ok n) : q.nesting = 0 := by
  obtain ⟨-, hcount, hset⟩ := countArgument_concat_eq_ok.1 h
  cases q with
  | symbol | other | reference => rfl
  | sequence | command | elementCount =>
    cases hcount
    cases hset

theorem nesting_command_singleton : (Pattern.command name [p] n).nesting = p.nesting + 1 := by
  rw [nesting, nestingEach, nestingEach, Nat.max_zero]

/-- A row that has room, and that is the row wherever it has room. -/
def Settles (limit : Int) (depth : Nat) (p : Pattern) (row : List Stroke) : Prop :=
  Fits limit depth p.nesting ∧
    ∀ (limit' : Int) (depth' : Nat), Fits limit' depth' p.nesting → expandAt limit' depth' p = .ok row

theorem settles_expandEach (h : List.Forall₂ (Settles limit depth) ps rows) :
    Fits limit depth (nestingEach ps) ∧ ∀ (limit' : Int) (depth' : Nat), Fits limit' depth' (nestingEach ps) →
      expandEach limit' depth' ps = .ok rows := by
  induction h with
  | nil => exact ⟨fits_zero _ _, fun _ _ _ => rfl⟩
  | cons hp _ ih =>
    refine ⟨fits_max.2 ⟨hp.1, ih.1⟩, fun limit' depth' hfits => ?_⟩
    obtain ⟨hfits, hfits'⟩ := fits_max.1 hfits
    exact expandEach_cons_eq_ok.2 ⟨_, _, hp.2 _ _ hfits, ih.2 _ _ hfits', rfl⟩

/-- **The limit is exact.** It decides whether there is a row, by the levels of the pattern alone, and not which. -/
theorem settles_of_expandAt (h : expandAt limit depth p = .ok row) : Settles limit depth p row := by
  refine row_induction (motive := Settles limit) ?symbol ?sequence ?mirrored ?gathered ?tiled h
  case symbol =>
    intro depth p char rotated n row hp hletter hrow
    rw [Settles, nesting_of_symbol? hp]
    exact ⟨fits_zero _ _, fun _ _ _ => (expandAt_symbol_eq_ok hp).2 ⟨hletter, hrow⟩⟩
  case sequence =>
    intro depth ps n rows row hlimit hrows hrow
    obtain ⟨hfits, hmoved⟩ := settles_expandEach hrows
    refine ⟨fits_succ.2 ⟨hlimit, hfits⟩, fun limit' depth' hfits' => ?_⟩
    obtain ⟨hlimit', hfits'⟩ := fits_succ.1 hfits'
    exact expandAt_sequence_eq_ok.2 ⟨hlimit', _, hmoved _ _ hfits', hrow⟩
  case mirrored =>
    intro depth p m row hlimit hp
    rw [Settles, nesting_command_singleton]
    refine ⟨fits_succ.2 ⟨hlimit, hp.1⟩, fun limit' depth' hfits' => ?_⟩
    obtain ⟨hlimit', hfits'⟩ := fits_succ.1 hfits'
    exact expandAt_mirrored_eq_ok.2 ⟨hlimit', _, hp.2 _ _ hfits', rfl⟩
  case gathered =>
    intro depth rule ps q m n rows row hrule hlimit hn hrows hrow
    have hcall : (Pattern.command rule.name (ps ++ [q]) m).nesting = nestingEach ps + 1 := by
      rw [nesting, nestingEach_append, nestingEach, nesting_of_countArgument hn, nestingEach, Nat.max_self,
        Nat.max_zero]
    obtain ⟨hfits, hmoved⟩ := settles_expandEach hrows
    rw [Settles, hcall]
    refine ⟨fits_succ.2 ⟨hlimit, hfits⟩, fun limit' depth' hfits' => ?_⟩
    obtain ⟨hlimit', hfits'⟩ := fits_succ.1 hfits'
    exact (expandAt_counted_eq_ok hrule).2 ⟨hlimit', n, rows, hn, hmoved _ _ hfits', hrow⟩
  case tiled =>
    intro depth p n inner row hp hrow
    refine ⟨hp.1, fun limit' depth' hfits' => ?_⟩
    rw [expandAt, hp.2 _ _ hfits']
    exact hrow

theorem expandAt_eq_ok_iff (hroom : Fits limit' depth' p.nesting) :
    expandAt limit depth p = .ok row ↔ expandAt limit' depth' p = .ok row ∧ Fits limit depth p.nesting := by
  constructor
  · intro h
    obtain ⟨hfits, hmoved⟩ := settles_of_expandAt h
    exact ⟨hmoved _ _ hroom, hfits⟩
  · rintro ⟨h, hfits⟩
    exact (settles_of_expandAt h).2 _ _ hfits

end Rosette.Pattern
