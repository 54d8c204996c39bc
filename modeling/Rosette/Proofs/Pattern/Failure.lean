import Rosette.Proofs.Pattern.Recognition

/-!
# How a run fails

A run over some tokens that fails has met one of them that it refuses, a word or a number that is not read, or the end
of the source, and each level it was in has cost it a token. `Halt.Arises` says so of every rule, rule by rule; it is
kept when more tokens are looked at. Only a whole pattern can fail for what stands behind it (`arises_topLevel`).

Main results: a problem of a text stands in the text (`place_of_parse`), no text is too deep for a limit that is not
below its length (`parse_ne_tooDeep`), tokens behind a pattern are a fault only of a text that is read where they are
let through (`parse_of_trailing`), and a number is not read only if it has too many digits (`not_shortRuns_of_parse`).
-/

namespace Rosette.Pattern

variable {s : Settings} {source : String} {b : Bounds} {depth d : Nat} {t : Token} {ts us : List Token} {h : Halt}
  {cause : Cause} {p : Problem} {f : Numeral.Fault}

/-- A failure over the tokens `ts`, inside `depth` levels: where its problem stands, and that nesting is too deep only
with tokens enough for so many levels. -/
structure Halt.Sited (h : Halt) (b : Bounds) (depth : Nat) (ts : List Token) : Prop where
  place : ∀ p, h.fault = .problem p → p.location = b.stop ∨ ∃ t ∈ ts, p.location = t.location
  deep : ∀ p m, h.fault = .problem p → p.cause = .tooDeep m → b.maxDepth < (depth : Int) + ts.length

/-- Whether a cause has to do neither with the depth of a pattern nor with what stands behind it. -/
def Cause.isPlain : Cause → Bool
  | .tooDeep _ | .trailing _ => false
  | _ => true

/-- How a failure comes about over the tokens `ts`, inside `depth` levels. -/
inductive Halt.Arises (b : Bounds) (depth : Nat) (ts : List Token) : Halt → Prop where
  /-- A token or the end of the source stands where something else has to. -/
  | refused {d : Nat} {us : List Token} {cause : Cause} (hsub : us ⊆ ts) (plain : cause.isPlain = true) :
      Arises b depth ts (b.halt d us cause)
  /-- A token begins a level for which there is no room. -/
  | deep {d : Nat} {t : Token} {us : List Token} (ht : t ∈ ts) (full : b.maxDepth < (depth : Int) + ts.length) :
      Arises b depth ts (b.haltDeep d t us)
  /-- A number in a word is not read. -/
  | word {d : Nat} {t : Token} {us : List Token} {f : Numeral.Fault} (ht : t ∈ ts) (kind : t.kind = .symbol)
      (unread : ofWord t.value.toList = .error f) : Arises b depth ts ⟨.numeral f, d, us⟩
  /-- A number is not read. -/
  | number {d : Nat} {t : Token} {us : List Token} {f : Numeral.Fault} (ht : t ∈ ts) (kind : t.kind = .number)
      (unread : Numeral.read t.value.toList = .error f) : Arises b depth ts ⟨.numeral f, d, us⟩

theorem Halt.Arises.mono (ha : h.Arises b d us) (hsub : us ⊆ ts) (hle : d + us.length ≤ depth + ts.length) :
    h.Arises b depth ts := by
  cases ha with
  | refused hsub' plain => exact .refused (List.Subset.trans hsub' hsub) plain
  | deep ht full => exact .deep (hsub ht) (by omega)
  | word ht kind unread => exact .word (hsub ht) kind unread
  | number ht kind unread => exact .number (hsub ht) kind unread

theorem sited_halt (hsub : us ⊆ ts) (hcause : ∀ m, cause ≠ .tooDeep m) : (b.halt d us cause).Sited b depth ts := by
  refine ⟨fun p hp => ?_, fun p m hp hm => ?_⟩
  · cases hp
    cases us with
    | nil => exact .inl rfl
    | cons t us => exact .inr ⟨t, hsub List.mem_cons_self, rfl⟩
  · cases hp
    exact absurd hm (hcause m)

theorem Halt.Arises.sited (ha : h.Arises b depth ts) : h.Sited b depth ts := by
  cases ha with
  | refused hsub plain =>
    refine sited_halt hsub fun m hm => ?_
    subst hm
    cases plain
  | deep ht full =>
    refine ⟨fun p hp => ?_, fun _ _ _ _ => full⟩
    cases hp
    exact .inr ⟨_, ht, rfl⟩
  | word | number => exact ⟨fun _ hp => (nomatch hp), fun _ _ hp => (nomatch hp)⟩

/-! ## One failure -/

theorem arises_haltDeep (hfull : b.full depth = true) (us ts : List Token) :
    (b.haltDeep depth t us).Arises b depth (t :: ts) := by
  rw [Bounds.full, decide_eq_true_eq] at hfull
  exact .deep List.mem_cons_self (by simp only [List.length_cons]; omega)

theorem arises_word (hk : t.kind = .symbol) (hr : readWord b depth t ts = .error h) : h.Arises b depth (t :: ts) := by
  unfold readWord at hr
  split at hr
  · rename_i hw
    cases hr
    exact .word List.mem_cons_self hk hw
  · split at hr
    · rename_i hfull
      cases hr
      exact arises_haltDeep ((Bool.and_eq_true _ _).mp hfull).2 _ _
    · cases hr

theorem arises_number (ht : t ∈ us) (hk : t.kind = .number) (hr : readNumber depth t ts = .error h) :
    h.Arises b d us := by
  unfold readNumber at hr
  split at hr
  · rename_i hn
    cases hr
    exact .number ht hk hn
  · cases hr

theorem arises_name (hr : readName b depth ts = .error h) : h.Arises b depth ts := by
  unfold readName at hr
  split at hr
  · cases hr
    exact .refused (List.nil_subset _) rfl
  · split at hr
    · cases hr
    · cases hr
      exact .refused (List.Subset.refl _) rfl

/-! ## The rules -/

mutual

theorem arises_sequence (t : Token) (ts : List Token) (depth : Nat) (h : Halt)
    (hr : readSequence b depth t ts = .error h) : h.Arises b depth (t :: ts) := by
  rw [readSequence] at hr
  split at hr
  · rename_i hfull
    cases hr
    exact arises_haltDeep hfull _ _
  · split at hr
    · rename_i hm
      cases hr
      exact (arises_members ts (depth + 1) h hm).mono (List.subset_cons_self _ _)
        (by simp only [List.length_cons]; omega)
    · rename_i rest le hm
      cases hr
      obtain ⟨used, rfl, -⟩ := sound_members ts (depth + 1) [] rest ⟨le, hm⟩
      exact .refused (by simp) rfl
    · cases hr
termination_by (ts.length, 1)

theorem arises_members : (ts : List Token) → (depth : Nat) → (h : Halt) → readMembers b depth ts = .error h →
    h.Arises b depth ts
  | [], depth, h, hr => by simp [readMembers] at hr
  | t :: us, depth, h, hr => by
    rw [readMembers] at hr
    split at hr
    · rename_i hk
      split at hr
      · rename_i hw
        cases hr
        exact arises_word hk hw
      · split at hr
        · rename_i hm
          cases hr
          exact (arises_members us depth h hm).mono (List.subset_cons_self _ _) (by simp)
        · cases hr
    · split at hr
      · rename_i hk
        split at hr
        · rename_i hc
          cases hr
          exact arises_command t us depth h hc
        · rename_i p mid le hc
          obtain ⟨used, rfl, -⟩ := sound_command t hk us depth p mid ⟨le, hc⟩
          split at hr
          · rename_i hm
            cases hr
            have hmid : mid <:+ t :: (used ++ mid) := ⟨t :: used, rfl⟩
            exact (arises_members mid depth h hm).mono hmid.subset (Nat.add_le_add_left hmid.length_le _)
          · cases hr
      · cases hr
termination_by ts => (ts.length, 0)

theorem arises_command (name : Token) : (ts : List Token) → (depth : Nat) → (h : Halt) →
    readCommand b depth name ts = .error h → h.Arises b depth (name :: ts)
  | [], depth, h, hr => by
    rw [readCommand] at hr
    cases hr
    exact .refused (List.nil_subset _) rfl
  | t :: us, depth, h, hr => by
    rw [readCommand] at hr
    split at hr
    · split at hr
      · rename_i hfull
        cases hr
        exact arises_haltDeep hfull _ _
      · split at hr
        · rename_i ha
          cases hr
          exact (arises_arguments us (depth + 1) h ha).mono (by simp) (by simp only [List.length_cons]; omega)
        · cases hr
    · cases hr
      exact .refused (List.subset_cons_self _ _) rfl
termination_by ts => (ts.length, 0)

theorem arises_arguments : (ts : List Token) → (depth : Nat) → (h : Halt) → readArguments b depth ts = .error h →
    h.Arises b depth ts
  | [], depth, h, hr => by
    rw [readArguments] at hr
    cases hr
    exact .refused (List.Subset.refl _) rfl
  | t :: us, depth, h, hr => by
    rw [readArguments] at hr
    split at hr
    · cases hr
    · split at hr
      · rename_i ha
        cases hr
        exact arises_argument t us depth h ha
      · cases hr
        exact .refused (List.nil_subset _) rfl
      · rename_i p s mid le ha
        obtain ⟨used, rfl, -⟩ := sound_argument t us depth p (s :: mid) ⟨le, ha⟩
        split at hr
        · split at hr
          · rename_i hm
            cases hr
            have hmid : mid <:+ t :: (used ++ s :: mid) := ⟨t :: (used ++ [s]), by simp⟩
            exact (arises_arguments mid depth h hm).mono hmid.subset (Nat.add_le_add_left hmid.length_le _)
          · cases hr
        · split at hr
          · cases hr
          · cases hr
            exact .refused (by simp) rfl
termination_by ts => (ts.length, 0)

theorem arises_argument (t : Token) (ts : List Token) (depth : Nat) (h : Halt)
    (hr : readArgument b depth t ts = .error h) : h.Arises b depth (t :: ts) := by
  rw [readArgument] at hr
  split at hr
  · exact arises_sequence t ts depth h hr
  · exact (arises_name hr).mono (List.subset_cons_self _ _) (by simp)
  · split at hr
    · exact arises_command t ts depth h hr
    · cases hr
      exact .refused (List.Subset.refl _) rfl
  · rename_i hk
    split at hr
    · rename_i hw
      cases hr
      exact arises_word hk hw
    · cases hr
  · rename_i hk
    split at hr
    · rename_i hn
      cases hr
      exact arises_number List.mem_cons_self hk hn
    · cases hr
  · cases hr
    exact .refused (List.Subset.refl _) rfl
termination_by (ts.length, 2)

end

theorem error_step {r : Except Halt (Parsed Pattern ts)} :
    (match r with
      | .error h => (.error h : Except Halt (Parsed Pattern (t :: ts)))
      | .ok ⟨p, rest', le⟩ => .ok ⟨p, rest', Nat.le_succ_of_le le⟩) = .error h ↔ r = .error h := by
  rcases r with h | ⟨q, rest', le⟩ <;> simp

theorem arises_pattern (hr : readPattern b depth ts = .error h) : h.Arises b depth ts := by
  obtain _ | ⟨t, us⟩ := ts
  · rw [readPattern] at hr
    cases hr
    exact .refused (List.Subset.refl _) rfl
  rw [readPattern] at hr
  replace hr := error_step.1 hr
  split at hr
  · exact arises_sequence t us depth h hr
  · exact arises_command t us depth h hr
  · rename_i hk
    split at hr
    · rename_i hw
      cases hr
      exact arises_word hk hw
    · cases hr
  · cases hr
    exact .refused (List.Subset.refl _) rfl

theorem arises_count {q : Pattern} (hr : readCount b depth q ts = .error h) : h.Arises b depth ts := by
  unfold readCount at hr
  split at hr
  · cases hr
  · split at hr
    · split at hr
      · cases hr
        exact .refused (List.nil_subset _) rfl
      · split at hr
        · rename_i hk
          split at hr
          · rename_i hn
            cases hr
            exact arises_number (by simp) hk hn
          · cases hr
        · cases hr
          exact .refused (List.subset_cons_self _ _) rfl
    · cases hr

/-- A whole pattern fails as its rules do, or for the token behind it if none is let through. -/
theorem arises_topLevel {trailing : Bool} (hr : readTopLevel b trailing depth ts = .error h) :
    h.Arises b depth ts ∨ trailing = false ∧ ∃ q us, readTopLevel b true depth ts = .ok (q, us) ∧
      h = b.halt depth us (.trailing (b.current us)) := by
  unfold readTopLevel at hr
  split at hr
  · rename_i hp
    cases hr
    exact .inl (arises_pattern hp)
  · rename_i q mid le hp
    split at hr
    · rename_i hc
      cases hr
      obtain ⟨used, rfl, -⟩ := sound_pattern ⟨le, hp⟩
      exact .inl ((arises_count hc).mono (by simp) (by simp))
    · rename_i q' rest le' hc
      split at hr
      · rename_i hrest
        cases hr
        have hread : readTopLevel b true depth ts = .ok (q', rest) :=
          readTopLevel_eq_ok.2 ⟨q, mid, ⟨le, hp⟩, ⟨le', hc⟩, .inl rfl⟩
        rw [Bool.and_eq_true, Bool.not_eq_true', Bool.not_eq_true'] at hrest
        exact .inr ⟨hrest.2, q', rest, hread, rfl⟩
      · cases hr

theorem sited_topLevel {trailing : Bool} (hr : readTopLevel b trailing depth ts = .error h) : h.Sited b depth ts := by
  obtain ha | ⟨-, q, us, hread, rfl⟩ := arises_topLevel hr
  · exact ha.sited
  · obtain ⟨taken, hts, -⟩ := sound_topLevel hread
    exact sited_halt (by simp [hts]) (by simp)

/-! ## Whole texts -/

theorem parse_eq_error {fault : Fault} :
    parse s source = .error fault ↔ ∃ h,
      readTopLevel ⟨s.maxDepth, (Token.scan .start source.toList).2⟩ s.trailing 0
        (Token.scan .start source.toList).1 = .error h ∧ h.fault = fault := by
  unfold parse Reader.run Reader.ofSource
  dsimp only
  rcases readTopLevel ⟨s.maxDepth, (Token.scan .start source.toList).2⟩ s.trailing 0
      (Token.scan .start source.toList).1 with h | ⟨q, rest⟩
  · simp
  · simp

theorem sited_of_parse (hp : parse s source = .error (.problem p)) :
    ∃ h : Halt, h.fault = .problem p ∧
      h.Sited ⟨s.maxDepth, (Token.scan .start source.toList).2⟩ 0 (Token.scan .start source.toList).1 := by
  obtain ⟨h, hr, hfault⟩ := parse_eq_error.1 hp
  exact ⟨h, hfault, sited_topLevel hr⟩

/-- **A problem of a text stands in the text**, or at its end. -/
theorem place_of_parse (hp : parse s source = .error (.problem p)) :
    ∃ before behind, source.toList = before ++ behind ∧ p.location = Location.start.after before := by
  obtain ⟨h, hfault, hsited⟩ := sited_of_parse hp
  obtain hstop | ⟨t, ht, hloc⟩ := hsited.place p hfault
  · exact ⟨source.toList, [], (List.append_nil _).symm, by rw [hstop, Token.scan_snd]⟩
  · obtain ⟨l, before, behind, hsource, -, -, -, hplace⟩ := Token.exists_lexeme_of_mem_scan ht
    exact ⟨before, l.span ++ behind, hsource, by rw [hloc, hplace]⟩

/-- No text is too deep for a limit that is not below its length. -/
theorem parse_ne_tooDeep (hlimit : (source.length : Int) ≤ s.maxDepth) (hp : parse s source = .error (.problem p))
    (m : Int) : p.cause ≠ .tooDeep m := by
  intro hcause
  obtain ⟨h, hfault, hsited⟩ := sited_of_parse hp
  have hdeep := hsited.deep p m hfault hcause
  have hle := Token.length_scan_le .start source.toList
  rw [String.length_toList] at hle
  dsimp only at hdeep
  omega

/-- A text fails as the rules do, or for the token behind a pattern if none is let through. -/
theorem arises_of_parse {fault : Fault} (hp : parse s source = .error fault) :
    (∃ h : Halt, h.fault = fault ∧
        h.Arises ⟨s.maxDepth, (Token.scan .start source.toList).2⟩ 0 (Token.scan .start source.toList).1) ∨
      s.trailing = false ∧ ∃ q t l, parse { s with trailing := true } source = .ok q ∧
        fault = .problem ⟨.trailing t, l⟩ := by
  obtain ⟨h, hr, rfl⟩ := parse_eq_error.1 hp
  obtain ha | ⟨htrailing, q, us, hread, rfl⟩ := arises_topLevel hr
  · exact .inl ⟨h, rfl, ha⟩
  · exact .inr ⟨htrailing, q, _, _, parse_eq_ok.2 ⟨us, hread⟩, rfl⟩

/-- A text that is too deep is so for the limit of the settings. -/
theorem tooDeep_of_parse {l : Location} {m : Int} (hp : parse s source = .error (.problem ⟨.tooDeep m, l⟩)) :
    m = s.maxDepth := by
  obtain ⟨h, hfault, ha⟩ | ⟨-, q, t, l, -, hfault⟩ := arises_of_parse hp
  · cases ha with
    | refused _ plain =>
      cases hfault
      cases plain
    | deep =>
      cases hfault
      rfl
    | word | number => cases hfault
  · cases hfault

/-- Tokens behind a pattern are a fault only of a text that is read where they are let through. -/
theorem parse_of_trailing {l : Location} (hp : parse s source = .error (.problem ⟨.trailing t, l⟩)) :
    s.trailing = false ∧ ∃ q, parse { s with trailing := true } source = .ok q := by
  obtain ⟨h, hfault, ha⟩ | ⟨htrailing, q, -, -, hread, -⟩ := arises_of_parse hp
  · cases ha with
    | refused _ plain =>
      cases hfault
      cases plain
    | deep | word | number => cases hfault
  · exact ⟨htrailing, q, hread⟩

/-- A number that is not read stands in a word or a number of the text. -/
theorem unread_of_parse (hp : parse s source = .error (.numeral f)) :
    ∃ t ∈ (Token.scan .start source.toList).1, (t.kind = .symbol ∧ ofWord t.value.toList = .error f) ∨
      (t.kind = .number ∧ Numeral.read t.value.toList = .error f) := by
  obtain ⟨h, hfault, ha⟩ | ⟨-, q, t, l, -, hfault⟩ := arises_of_parse hp
  · cases ha with
    | refused | deep => cases hfault
    | word ht kind unread =>
      cases hfault
      exact ⟨_, ht, .inl ⟨kind, unread⟩⟩
    | number ht kind unread =>
      cases hfault
      exact ⟨_, ht, .inr ⟨kind, unread⟩⟩
  · cases hfault

/-- A number of a text is not read only if it has too many digits. -/
theorem not_shortRuns_of_parse {f : Numeral.Fault} (h : parse s source = .error (.numeral f)) :
    ¬ ShortRuns source.toList := by
  intro hruns
  obtain ⟨t, ht, ⟨kind, unread⟩ | ⟨kind, unread⟩⟩ := unread_of_parse h
  · obtain ⟨p, hp⟩ := (terminals_total hruns ht).2 kind
    rw [hp] at unread
    cases unread
  · rw [(terminals_total hruns ht).1 kind] at unread
    cases unread

end Rosette.Pattern
