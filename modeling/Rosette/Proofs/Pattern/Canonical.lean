import Rosette.Pattern.Command
import Rosette.Proofs.Pattern.Spelling

/-!
# The pattern that a written text means

A written text does not always mean the very tree it was written from. `canonical` is the tree that it means:
sequences inside sequences dissolve in them, and a repeat count on a sequence or a command becomes a call of
`seq`. Main result: `Legible.spelled`. Every legible pattern has a text in each place it may stand in, and the
text spells the canonical pattern.
-/

namespace Rosette.Pattern

open Writing

/-- A pattern, as the argument of a call of `seq` if there is a repeat count. -/
def repeatedBy (n : Count) (p : Pattern) : Pattern :=
  if n.isAbsent then p
  else .command CommandRule.seq.name [p, .symbol Stroke.spacerLetter false n] .absent

mutual

/-- The pattern that the text of a pattern means. -/
def canonical : Pattern → Pattern
  | .sequence ps n =>
    if n.isAbsent && isWord ps then .sequence ps .absent
    else repeatedBy n (.sequence (dissolvedEach ps) .absent)
  | .command name args n => repeatedBy n (.command name (canonicalEach args) .absent)
  | .elementCount p n => .elementCount (canonical p) n
  | p => p

/-- The canonical patterns of arguments. -/
def canonicalEach : List Pattern → List Pattern
  | [] => []
  | p :: ps => canonical p :: canonicalEach ps

/-- The members that the text of a member means. -/
def dissolved : Pattern → List Pattern
  | .sequence ps n =>
    if n.isAbsent && isWord ps then [.sequence ps .absent]
    else if n.isAbsent then dissolvedEach ps
    else [repeatedBy n (.sequence (dissolvedEach ps) .absent)]
  | .command name args n => [repeatedBy n (.command name (canonicalEach args) .absent)]
  | p => [p]

/-- The members that the texts of members mean, side by side. -/
def dissolvedEach : List Pattern → List Pattern
  | [] => []
  | p :: ps => dissolved p ++ dissolvedEach ps

end

theorem canonicalEach_eq_map (ps : List Pattern) : canonicalEach ps = ps.map canonical := by
  induction ps with
  | nil => rfl
  | cons p ps ih => rw [canonicalEach, ih, List.map_cons]

/-- Where a pattern stands: among the members of a sequence or alone, or among the arguments of a command. -/
inductive Place where
  | member
  | argument
deriving DecidableEq, Repr

/-- Whether a pattern can be written where it stands: its letters and words are those of the notation, its counts
natural numbers that are not too long, its sequences not empty, and references are arguments. -/
inductive Legible : Place → Pattern → Prop where
  | letter {place : Place} {char : String} {rotated : Bool} {n : Count}
      (h : IsWrittenLetter (.symbol char rotated n)) : Legible place (.symbol char rotated n)
  | mute {place : Place} {w : List Char} (h : IsMute w) : Legible place (.symbol (String.ofList w) false .absent)
  | sequence {place : Place} {ps : List Pattern} {n : Count} (ne : ps ≠ []) (each : ∀ p ∈ ps, Legible .member p)
      (hn : n.IsWritten) : Legible place (.sequence ps n)
  | command {place : Place} {name : String} {args : List Pattern} {n : Count} (hname : name ∈ Token.keywords)
      (each : ∀ p ∈ args, Legible .argument p) (hn : n.IsWritten) : Legible place (.command name args n)
  | reference {name : String} (h : Token.IsWord name.toList) : Legible .argument (.reference name)

/-- Whether a whole pattern can be written, with an element count if it has one. -/
def LegibleRoot (p : Pattern) : Prop :=
  Legible .member p ∨
    ∃ (q : Pattern) (k : Nat), p = .elementCount q (.times k) ∧ Legible .member q ∧ Numeral.fits k = true

variable {p : Pattern} {ps : List Pattern} {n : Count} {place : Place}

theorem Legible.bare?_eq_none (h : Legible place p) : bare? p = none := by
  cases h <;> rfl

theorem Legible.asArgument (h : Legible place p) : Legible .argument p := by
  cases h with
  | letter h => exact .letter h
  | mute h => exact .mute h
  | sequence ne each hn => exact .sequence ne each hn
  | command hname each hn => exact .command hname each hn
  | reference h => exact .reference h

/-- A legible member that counts as a letter is one with a count that can be written. -/
theorem Legible.isWrittenLetter (h : Legible .member p) (hl : isLetter p = true) : p.IsWrittenLetter := by
  cases h with
  | letter h => exact h
  | @mute _ w h =>
    obtain ⟨c, ds, hw, -⟩ := h.1.1
    have hmem : String.ofList w ∈ Stroke.alphabet := List.contains_iff_mem.1 hl
    have all : ∀ char ∈ Stroke.alphabet, char.toList.all (fun c => (Stroke.ofChar? c).isSome) = true := by decide
    have hc := List.all_eq_true.1 (all _ hmem) c (by simp [hw])
    rw [h.2.2.2 c (by simp [hw])] at hc
    cases hc
  | sequence | command => cases hl

/-! ## The parts of a text -/

/-- The text of a pattern in a place spells its canonical form; as a member, it spells what it dissolves to. -/
def Place.Spelled : Place → Pattern → Prop
  | .member, p => (∃ cs, topText p = .ok cs ∧ Spells .pattern cs [canonical p]) ∧
      dissolved p ≠ [] ∧ ∃ cs, memberText p = .ok cs ∧ Spells .members cs (dissolved p)
  | .argument, p => ∃ cs, argumentText p = .ok cs ∧ Spells .argument cs [canonical p]

theorem dissolvedEach_ne_nil (hne : ps ≠ []) (h : ∀ p ∈ ps, Place.member.Spelled p) : dissolvedEach ps ≠ [] := by
  obtain ⟨p, ps, rfl⟩ := List.exists_cons_of_ne_nil hne
  rw [dissolvedEach]
  exact List.append_ne_nil_of_left_ne_nil (h p List.mem_cons_self).2.1 _

theorem bodyText_spelled (hleg : ∀ p ∈ ps, Legible .member p) (h : ∀ p ∈ ps, Place.member.Spelled p)
    {before : List Char} {qs : List Pattern} (hbefore : Spells .members before qs) :
    ∃ body, bodyText before ps = .ok body ∧ Spells .members body (qs ++ dissolvedEach ps) := by
  induction ps generalizing before qs with
  | nil => exact ⟨before, rfl, by simpa [dissolvedEach] using hbefore⟩
  | cons p ps ih =>
    obtain ⟨-, -, t, ht, hspells⟩ := h p List.mem_cons_self
    obtain ⟨body, hbody, hall⟩ := ih (fun q hq => hleg q (List.mem_cons_of_mem _ hq))
      (fun q hq => h q (List.mem_cons_of_mem _ hq)) (hbefore.glue hspells)
    refine ⟨body, ?_, by rwa [dissolvedEach, ← List.append_assoc]⟩
    rw [bodyText, ht]
    simp only [behind, (hleg p List.mem_cons_self).bare?_eq_none]
    exact hbody

theorem argumentTexts_spelled (h : ∀ p ∈ ps, Place.argument.Spelled p) :
    ∃ parts, argumentTexts ps = .ok parts ∧
      List.Forall₂ (fun cs p => Spells .argument cs [p]) parts (canonicalEach ps) := by
  induction ps with
  | nil => exact ⟨[], rfl, .nil⟩
  | cons p ps ih =>
    obtain ⟨cs, hcs, hspells⟩ := h p List.mem_cons_self
    obtain ⟨parts, hparts, hall⟩ := ih fun q hq => h q (List.mem_cons_of_mem _ hq)
    refine ⟨cs :: parts, ?_, .cons hspells hall⟩
    rw [argumentTexts, hcs, hparts]
    rfl

theorem argumentMisfit?_eq_none (h : ∀ p ∈ ps, bare? p = none) (i : Nat) : argumentMisfit? i ps = none := by
  induction ps generalizing i with
  | nil => rfl
  | cons p ps ih =>
    rw [argumentMisfit?, h p List.mem_cons_self]
    exact ih (fun q hq => h q (List.mem_cons_of_mem _ hq)) _

theorem repeatedText_times {k : Nat} (hk : Numeral.fits k = true) (ws : List Char) :
    repeatedText (.times k) ws = .ok (Text.call ['s', 'e', 'q'] [ws, Numeral.digits k]) := by
  rw [repeatedText, countText_times hk]
  rfl

/-- A repeat count is written as the last argument of a call of `seq`. -/
theorem repeatedText_spelled (hn : n.IsWritten) (habs : n.isAbsent = false) {inner : List Char}
    (h : Spells .argument inner [p]) :
    ∃ cs, repeatedText n inner = .ok cs ∧ Spells .command cs [repeatedBy n p] := by
  obtain rfl | ⟨k, rfl, hk⟩ := hn
  · cases habs
  have hname : CommandRule.seq.name ∈ Token.keywords := by decide
  have hcall := Spells.call hname (.cons h (.cons (spells_number hk) .nil))
  exact ⟨_, repeatedText_times hk inner, hcall⟩

/-! ## Whole patterns -/

/-- A row of several letters is one word. -/
theorem Legible.spells_word (h : ∀ p ∈ ps, Legible .member p) (hw : isWord ps = true) :
    ∃ cs, wordText ps = .ok cs ∧ Spells .symbol cs [.sequence ps .absent] := by
  obtain ⟨⟨p, q, qs, rfl⟩, hall⟩ := letters_of_isWord hw
  obtain ⟨cs, htext, hspells⟩ := spells_letters (fun r hr => (h r hr).isWrittenLetter (hall r hr)) (by simp)
  exact ⟨cs, htext, hspells _ fun _ => ofWord_of_wordSymbols⟩

/-- What a symbol or a command is read from is the text of the pattern alone and as a member. -/
theorem Place.spelled_member {cs : List Char} {n : Nonterminal} (hn : n = .symbol ∨ n = .command)
    (h : Spells n cs [canonical p]) (htop : topText p = .ok cs) (hmember : memberText p = .ok cs)
    (hp : dissolved p = [canonical p]) : Place.member.Spelled p := by
  refine ⟨⟨cs, htop, ?_⟩, by simp [hp], cs, hmember, ?_⟩
  · obtain rfl | rfl := hn
    · exact h.imp fun _ => .patternSymbol
    · exact h.imp fun _ => .patternCommand
  · rw [hp]
    obtain rfl | rfl := hn
    · exact h.imp fun _ d => (Derives.memberSymbol d).oneMember
    · exact h.imp fun _ d => (Derives.memberCommand d).oneMember

theorem Legible.spelled_letter {char : String} {rotated : Bool} (h : IsWrittenLetter (.symbol char rotated n)) :
    place.Spelled (.symbol char rotated n) := by
  obtain ⟨cs, htext, hspells⟩ := spells_letter h
  cases place with
  | member => exact Place.spelled_member (.inl rfl) hspells htext htext rfl
  | argument =>
    by_cases hx : (char = Stroke.spacerLetter && !rotated && !n.isAbsent) = true
    · -- an upright spacer with a count is a bare number
      obtain ⟨_, _, _, heq, -, hn⟩ := h
      cases heq
      simp only [Bool.and_eq_true, decide_eq_true_eq, Bool.not_eq_true'] at hx
      obtain ⟨⟨rfl, rfl⟩, habs⟩ := hx
      obtain rfl | ⟨k, rfl, hk⟩ := hn
      · cases habs
      · exact ⟨_, countText_times hk, spells_number hk⟩
    · refine ⟨cs, ?_, hspells.imp fun _ => .argumentSymbol⟩
      rw [argumentText, if_neg hx, htext]

theorem Legible.spelled_mute {w : List Char} (h : IsMute w) :
    place.Spelled (.symbol (String.ofList w) false .absent) := by
  obtain ⟨htext, hspells⟩ := spells_mute h
  cases place with
  | member => exact Place.spelled_member (.inl rfl) hspells htext htext rfl
  | argument =>
    refine ⟨w, ?_, hspells.imp fun _ => .argumentSymbol⟩
    rw [argumentText, if_neg (by simp [Count.isAbsent]), htext]

/-- A row of several letters is one word in each place. -/
theorem Legible.spelled_word (each : ∀ p ∈ ps, Legible .member p) (hw : isWord ps = true) :
    place.Spelled (.sequence ps .absent) := by
  obtain ⟨cs, htext, hspells⟩ := Legible.spells_word each hw
  have hcanonical : canonical (.sequence ps .absent) = .sequence ps .absent := by
    simp [canonical, hw, Count.isAbsent]
  have htexts : topText (.sequence ps .absent) = .ok cs ∧ memberText (.sequence ps .absent) = .ok cs ∧
      argumentText (.sequence ps .absent) = .ok cs := by
    simp [topText, memberText, argumentText, hw, htext, Count.isAbsent]
  cases place with
  | member =>
    exact Place.spelled_member (.inl rfl) (by rwa [hcanonical]) htexts.1 htexts.2.1
      (by simp [dissolved, canonical, hw, Count.isAbsent])
  | argument => exact ⟨cs, htexts.2.2, by rw [hcanonical]; exact hspells.imp fun _ => .argumentSymbol⟩

/-- The texts of a sequence that is no word, from the text of its members. -/
theorem sequence_texts {body : List Char} (hw : ¬ (n.isAbsent && isWord ps) = true) (hbody : bodyText [] ps = .ok body)
    (htext : sequenceText body = .ok ('$' :: body)) :
    topText (.sequence ps n) = repeatedText n ('$' :: body) ∧
      argumentText (.sequence ps n) = repeatedText n ('$' :: body) ∧
      memberText (.sequence ps n) = if n.isAbsent then .ok body else repeatedText n ('$' :: body) := by
  refine ⟨?_, ?_, ?_⟩
  · rw [topText, if_neg hw, hbody]
    simp only [htext, Bind.bind, Except.bind]
  · rw [argumentText, if_neg hw, hbody]
    simp only [htext, Bind.bind, Except.bind]
  · rw [memberText, if_neg hw, hbody]
    simp only [htext, Bind.bind, Except.bind]

theorem Legible.spelled_sequence (ne : ps ≠ []) (each : ∀ p ∈ ps, Legible .member p) (hn : n.IsWritten)
    (hw : ¬ (n.isAbsent && isWord ps) = true) (h : ∀ p ∈ ps, Place.member.Spelled p) :
    place.Spelled (.sequence ps n) := by
  obtain ⟨body, hbody, hspells⟩ := bodyText_spelled each h spells_noMembers
  rw [List.nil_append] at hspells
  have hne := dissolvedEach_ne_nil ne h
  obtain ⟨hsequence, htext⟩ := hspells.sequence hne
  obtain ⟨htop, hargument, hmember⟩ := sequence_texts hw hbody htext
  have hcanonical : canonical (.sequence ps n) = repeatedBy n (.sequence (dissolvedEach ps) .absent) := by
    rw [canonical, if_neg hw]
  cases habs : n.isAbsent with
  | true =>
    have honce : repeatedText n ('$' :: body) = .ok ('$' :: body) := by simp [repeatedText, habs]
    rw [honce] at htop hargument
    rw [repeatedBy, if_pos habs] at hcanonical
    rw [if_pos habs] at hmember
    have hdissolved : dissolved (.sequence ps n) = dissolvedEach ps := by
      rw [dissolved, if_neg hw, if_pos habs]
    cases place with
    | member =>
      exact ⟨⟨_, htop, by rw [hcanonical]; exact hsequence.imp fun _ => .patternSequence⟩, by rwa [hdissolved],
        body, hmember, by rwa [hdissolved]⟩
    | argument => exact ⟨_, hargument, by rw [hcanonical]; exact hsequence.imp fun _ => .argumentSequence⟩
  | false =>
    obtain ⟨cs, hcs, hcommand⟩ := repeatedText_spelled hn habs (hsequence.imp fun _ => .argumentSequence)
    rw [← hcanonical] at hcommand
    rw [hcs] at htop hargument hmember
    rw [if_neg (by simp [habs])] at hmember
    have hdissolved : dissolved (.sequence ps n) = [canonical (.sequence ps n)] := by
      rw [hcanonical, dissolved, if_neg hw, if_neg (by simp [habs])]
    cases place with
    | member => exact Place.spelled_member (.inr rfl) hcommand htop hmember hdissolved
    | argument => exact ⟨cs, hargument, hcommand.imp fun _ => .argumentCommand⟩

/-- The texts of a command, from those of its arguments. -/
theorem command_texts (name : String) (n : Count) {parts : List (List Char)} (hbare : ∀ p ∈ ps, bare? p = none)
    (hparts : argumentTexts ps = .ok parts) :
    topText (.command name ps n) = repeatedText n (Text.call name.toList parts) ∧
      memberText (.command name ps n) = repeatedText n (Text.call name.toList parts) ∧
      argumentText (.command name ps n) = repeatedText n (Text.call name.toList parts) := by
  have hmisfit := argumentMisfit?_eq_none hbare 0
  simp [topText, memberText, argumentText, hparts, callText, hmisfit, Bind.bind, Except.bind]

theorem Legible.spelled_command {name : String} (hname : name ∈ Token.keywords)
    (each : ∀ p ∈ ps, Legible .argument p) (hn : n.IsWritten) (h : ∀ p ∈ ps, Place.argument.Spelled p) :
    place.Spelled (.command name ps n) := by
  obtain ⟨parts, hparts, hspells⟩ := argumentTexts_spelled h
  have hcall := Spells.call hname hspells
  obtain ⟨cs, hcs, hcommand⟩ : ∃ cs, repeatedText n (Text.call name.toList parts) = .ok cs ∧
      Spells .command cs [canonical (.command name ps n)] := by
    rw [canonical]
    cases habs : n.isAbsent with
    | true =>
      exact ⟨Text.call name.toList parts, by simp [repeatedText, habs], by rwa [repeatedBy, if_pos habs]⟩
    | false => exact repeatedText_spelled hn habs (hcall.imp fun _ => .argumentCommand)
  obtain ⟨htop, hmember, hargument⟩ := command_texts name n (fun p hp => (each p hp).bare?_eq_none) hparts
  rw [hcs] at htop hmember hargument
  cases place with
  | member => exact Place.spelled_member (.inr rfl) hcommand htop hmember rfl
  | argument => exact ⟨cs, hargument, hcommand.imp fun _ => .argumentCommand⟩

/-- **Every legible pattern has a text that spells its canonical form**, in each place where it may stand. -/
theorem Legible.spelled (h : Legible place p) : place.Spelled p := by
  induction h with
  | letter h => exact Legible.spelled_letter h
  | mute h => exact Legible.spelled_mute h
  | @sequence _ ps n ne each hn ih =>
    by_cases hw : (n.isAbsent && isWord ps) = true
    · rw [Bool.and_eq_true] at hw
      obtain rfl := Count.eq_absent hw.1
      exact Legible.spelled_word each hw.2
    · exact Legible.spelled_sequence ne each hn hw ih
  | command hname each hn ih => exact Legible.spelled_command hname each hn ih
  | reference h => exact ⟨_, rfl, spells_reference h⟩

/-- A whole pattern has a text that spells its canonical form. -/
theorem LegibleRoot.spelled (h : LegibleRoot p) : ∃ cs, text p = .ok cs ∧ Spells .topLevel cs [canonical p] := by
  obtain h | ⟨q, k, rfl, h, hk⟩ := h
  · obtain ⟨⟨cs, hcs, hspells⟩, -⟩ := h.spelled
    refine ⟨cs, ?_, hspells.plain⟩
    cases h <;> exact hcs
  · obtain ⟨⟨cs, hcs, hspells⟩, -⟩ := h.spelled
    refine ⟨_, ?_, hspells.counted hk⟩
    rw [text, hcs, countText_times hk]
    rfl

theorem LegibleRoot.textValue {cs : List Char} (h : LegibleRoot p) (htext : text p = .ok cs) :
    p.textValue = .ok (.text (String.ofList cs)) := by
  have hbare : bare? p = none := by
    obtain h | ⟨q, k, rfl, -⟩ := h
    · exact h.bare?_eq_none
    · rfl
  rw [Pattern.textValue, hbare, htext]
  rfl

end Rosette.Pattern
