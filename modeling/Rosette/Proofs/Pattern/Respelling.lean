import Rosette.Proofs.Pattern.LongCounts

/-!
# Texts that are read and written again

A pattern that was read from the text of another one can have a text of its own that is not the first. The writer asks
whether the members of a sequence make a word before it dissolves them, and asks it of a sequence without a count only.
So it writes `$d h`, alone or in a call of `seq`, for members that are written as the word `dh` once they are read.
`keepsText` tells from the tree alone where this happens.

Each time it happens a `$` is lost, and none is won. The texts are the same exactly if none is lost (`Respells`), and
since what is read is canonical, the second text stays what it is. Main result: `textValue_again`.
-/

namespace Rosette.Pattern

open Writing

variable {p q : Pattern} {ps qs : List Pattern} {n : Count} {place : Place} {cs ds ws : List Char}

/-! ## Which texts come back -/

mutual

/-- Whether the text of a pattern, alone or as a member of a sequence, comes back when it is read and written again: no
sequence in it stands behind a `$` although its dissolved members make a word. -/
def keepsText (alone : Bool) : Pattern → Bool
  | .sequence ps n =>
    n.isAbsent && isWord ps || keepsEach false ps && (!isWord (dissolvedEach ps) || !alone && n.isAbsent)
  | .command _ args _ => keepsEach true args
  | .elementCount p _ => keepsText true p
  | _ => true

/-- Whether the texts of patterns come back. -/
def keepsEach (alone : Bool) : List Pattern → Bool
  | [] => true
  | p :: ps => keepsText alone p && keepsEach alone ps

end

/-- A text that comes back as itself, or else with fewer marks. -/
structure Respells {α : Type} (marks : α → Nat) (kept : Bool) (old new : α) : Prop where
  same : kept = true → new = old
  fewer : kept = false → marks new < marks old

namespace Respells

section
variable {α β γ : Type} {marks : α → Nat} {marks' : β → Nat} {marks'' : γ → Nat} {kept kept' : Bool} {a b : α} {c d : β}

theorem refl (a : α) : Respells marks true a a := ⟨fun _ => rfl, nofun⟩

theorem le (h : Respells marks kept a b) : marks b ≤ marks a := by
  cases kept with
  | true => rw [h.same rfl]
  | false => exact Nat.le_of_lt (h.fewer rfl)

theorem eq_iff (h : Respells marks kept a b) : b = a ↔ kept = true := by
  refine ⟨?_, h.same⟩
  rintro rfl
  by_contra hkept
  exact Nat.lt_irrefl _ (h.fewer (by simpa using hkept))

/-- What is put around a text comes back with it. -/
theorem map (h : Respells marks kept a b) {f : α → β} {k : Nat} (hf : ∀ x, marks' (f x) = marks x + k) :
    Respells marks' kept (f a) (f b) := by
  refine ⟨fun hkept => by rw [h.same hkept], fun hkept => ?_⟩
  rw [hf, hf]
  have := h.fewer hkept
  omega

/-- Two texts put together come back if both do. -/
theorem map₂ (h : Respells marks kept a b) (h' : Respells marks' kept' c d) {f : α → β → γ}
    (hf : ∀ x y, marks'' (f x y) = marks x + marks' y) : Respells marks'' (kept && kept') (f a c) (f b d) := by
  refine ⟨fun hboth => ?_, fun hone => ?_⟩
  · rw [Bool.and_eq_true] at hboth
    rw [h.same hboth.1, h'.same hboth.2]
  · have hle := h.le
    have hle' := h'.le
    rw [hf, hf]
    rcases Bool.and_eq_false_iff.1 hone with hkept | hkept
    · have := h.fewer hkept
      omega
    · have := h'.fewer hkept
      omega

end

end Respells

/-- How many sequence marks a text has. -/
def dollars (cs : List Char) : Nat := cs.count '$'

/-! ## Texts side by side -/

/-- What stands between two texts side by side. -/
def gap (cs ds : List Char) : List Char :=
  if cs.getLast?.any Text.isAlphanumeric && ds.head?.any Text.isAlphanumeric then [' '] else []

theorem glue_eq (cs ds : List Char) : glue cs ds = cs ++ (gap cs ds ++ ds) := by
  unfold glue gap
  cases cs.getLast? with
  | none => simp
  | some a =>
    cases ds.head? with
    | none => simp
    | some b =>
      simp only [Option.any_some]
      split <;> rfl

theorem glue_nil_left (cs : List Char) : glue [] cs = cs := rfl

theorem glue_nil_right (cs : List Char) : glue cs [] = cs := by simp [glue_eq, gap]

/-- Where something stands between, what is on the left and on the right does not matter to each other. -/
theorem glue_assoc (as bs cs : List Char) : glue (glue as bs) cs = glue as (glue bs cs) := by
  cases bs with
  | nil => rw [glue_nil_right, glue_nil_left]
  | cons b bs =>
    have hlast : gap (glue as (b :: bs)) cs = gap (b :: bs) cs := by
      rw [gap, glue_eq, List.getLast?_append_of_ne_nil, List.getLast?_append_of_ne_nil, gap] <;> simp
    have hhead : gap as (glue (b :: bs) cs) = gap as (b :: bs) := by
      rw [gap, glue_eq (b :: bs)]
      rfl
    rw [glue_eq (glue as (b :: bs)), hlast, glue_eq as (glue (b :: bs) cs), hhead, glue_eq as, glue_eq (b :: bs)]
    simp only [List.append_assoc]

theorem dollars_append (cs ds : List Char) : dollars (cs ++ ds) = dollars cs + dollars ds := List.count_append

theorem dollars_glue (cs ds : List Char) : dollars (glue cs ds) = dollars cs + dollars ds := by
  have hgap : dollars (gap cs ds) = 0 := by
    unfold gap
    split <;> rfl
  rw [glue_eq, dollars_append, dollars_append, hgap, Nat.zero_add]

theorem dollars_intercalate (parts : List (List Char)) :
    dollars ([',', ' '].intercalate parts) = dollars parts.flatten := by
  induction parts with
  | nil => rfl
  | cons cs parts ih =>
    cases parts with
    | nil => simp [List.intercalate]
    | cons ds parts =>
      have hsep : dollars (',' :: ' ' :: [',', ' '].intercalate (ds :: parts)) =
          dollars ([',', ' '].intercalate (ds :: parts)) := by
        simp [dollars]
      rw [arguments_cons, dollars_append, hsep, ih, ← dollars_append]
      rfl

theorem dollars_call (name : List Char) (parts : List (List Char)) :
    dollars (Text.call name parts) = dollars parts.flatten + dollars name := by
  have hopen : ∀ cs, dollars ('(' :: cs) = dollars cs := fun cs => by simp [dollars]
  have hclose : dollars [')'] = 0 := rfl
  rw [call_eq, dollars_append, hopen, dollars_append, dollars_intercalate, hclose]
  omega

/-! ## Members side by side -/

theorem bodyText_append (before : List Char) (ps qs : List Pattern) :
    bodyText before (ps ++ qs) = bodyText before ps >>= fun body => bodyText body qs := by
  induction ps generalizing before with
  | nil =>
    rw [bodyText]
    rfl
  | cons p ps ih =>
    rw [List.cons_append, bodyText, bodyText]
    cases memberText p with
    | error f => rfl
    | ok t =>
      cases hbody : behind before p t with
      | error f => simp [hbody, Bind.bind, Except.bind]
      | ok body => simpa [hbody, Bind.bind, Except.bind] using ih body

/-- The text of members side by side, as it stands behind any earlier text. -/
def HasBody (ps : List Pattern) (cs : List Char) : Prop := ∀ before, bodyText before ps = .ok (glue before cs)

namespace HasBody

theorem nil : HasBody [] [] := fun before => by rw [bodyText, glue_nil_right]

theorem cons (hbare : bare? p = none) (h : memberText p = .ok cs) (hps : HasBody ps ds) :
    HasBody (p :: ps) (glue cs ds) := by
  intro before
  rw [bodyText, h]
  simp only [behind, hbare]
  rw [← glue_assoc]
  exact hps _

theorem one (hbare : bare? p = none) (h : memberText p = .ok cs) : HasBody [p] cs := by
  have hp := cons hbare h nil
  rwa [glue_nil_right] at hp

theorem append (hps : HasBody ps cs) (hqs : HasBody qs ds) : HasBody (ps ++ qs) (glue cs ds) := by
  intro before
  rw [bodyText_append, hps before, ← glue_assoc]
  exact hqs _

end HasBody

/-! ## What is read from the text of a member -/

/-- What a legible member dissolves to is legible. -/
theorem Legible.legible_dissolved (h : Legible .member p) : ∀ q ∈ dissolved p, Legible .member q := by
  obtain ⟨-, -, cs, -, hspells⟩ := h.spelled
  exact fun q hq => ((hspells.derives .start).settled (fun _ => Token.isLexical_of_mem_scan) q hq).1

theorem Legible.legible_dissolvedEach (h : ∀ p ∈ ps, Legible .member p) :
    ∀ q ∈ dissolvedEach ps, Legible .member q := by
  induction ps with
  | nil => simp [dissolvedEach]
  | cons p ps ih =>
    rw [dissolvedEach, List.forall_mem_append]
    exact ⟨(h p List.mem_cons_self).legible_dissolved, ih fun q hq => h q (List.mem_cons_of_mem _ hq)⟩

/-! ## Sequences and calls that stand alone -/

theorem Legible.sequenceText_eq (each : ∀ p ∈ ps, Legible .member p) (ne : ps ≠ []) (hbody : HasBody ps cs) :
    bodyText [] ps = .ok cs ∧ sequenceText cs = .ok ('$' :: cs) := by
  have hcs : bodyText [] ps = .ok cs := hbody []
  have hspelled : ∀ p ∈ ps, Place.member.Spelled p := fun p hp => (each p hp).spelled
  obtain ⟨body, hbody, hspells⟩ := bodyText_spelled each hspelled spells_noMembers
  rw [hcs] at hbody
  cases hbody
  exact ⟨hcs, (hspells.sequence (dissolvedEach_ne_nil ne hspelled)).2⟩

/-- A sequence without a count that stands alone: a word, which has no mark, or the members behind the mark. -/
theorem Legible.alone_texts (each : ∀ p ∈ ps, Legible .member p) (ne : ps ≠ []) (hbody : HasBody ps cs) :
    ∃ ws, topText (.sequence ps .absent) = .ok ws ∧ argumentText (.sequence ps .absent) = .ok ws ∧
      (isWord ps = true → dollars ws = 0) ∧ (isWord ps = false → ws = '$' :: cs) := by
  cases hw : isWord ps with
  | true =>
    obtain ⟨-, hletters⟩ := letters_of_isWord hw
    obtain ⟨ws, htext, -, -, hchars, -⟩ := wordText_letters fun p hp => (each p hp).isWrittenLetter (hletters p hp)
    refine ⟨ws, by simp [topText, hw, htext, Count.isAbsent], by simp [argumentText, hw, htext, Count.isAbsent],
      fun _ => ?_, fun hno => absurd hno (by simp)⟩
    refine List.count_eq_zero.2 fun hmem => ?_
    exact absurd (hchars '$' hmem).1 (by decide)
  | false =>
    obtain ⟨hcs, htext⟩ := Legible.sequenceText_eq each ne hbody
    obtain ⟨htop, hargument, -⟩ := sequence_texts (n := .absent) (by simp [hw]) hcs htext
    exact ⟨'$' :: cs, htop, hargument, fun hno => absurd hno (by simp), fun _ => rfl⟩

theorem bare?_repeatedBy (h : bare? p = none) : bare? (repeatedBy n p) = none := by
  unfold repeatedBy
  split
  · exact h
  · rfl

/-- A repeat count is written around the text that stands alone. -/
theorem repeatedBy_texts (hn : n.IsWritten) (hbare : bare? q = none) (htop : topText q = .ok ws)
    (hargument : argumentText q = .ok ws) :
    topText (repeatedBy n q) = repeatedText n ws ∧ argumentText (repeatedBy n q) = repeatedText n ws ∧
      (n.isAbsent = false → memberText (repeatedBy n q) = repeatedText n ws) := by
  obtain rfl | ⟨k, rfl, hk⟩ := hn
  · exact ⟨htop, hargument, nofun⟩
  · have hspacer : argumentText (.symbol Stroke.spacerLetter false (.times k)) = .ok (Numeral.digits k) :=
      countText_times hk
    have hparts : argumentTexts [q, .symbol Stroke.spacerLetter false (.times k)] = .ok [ws, Numeral.digits k] := by
      simp [argumentTexts, hargument, hspacer, Bind.bind, Except.bind]
    have hbares : ∀ p ∈ [q, .symbol Stroke.spacerLetter false (.times k)], bare? p = none := by simpa using ⟨hbare, rfl⟩
    obtain ⟨htop, hmember, hargument⟩ := command_texts CommandRule.seq.name .absent hbares hparts
    rw [repeatedText_times hk]
    exact ⟨htop, hargument, fun _ => hmember⟩

theorem Respells.repeated {kept : Bool} (h : Respells dollars kept cs ds) (hn : n.IsWritten) :
    ∃ cs' ds', repeatedText n cs = .ok cs' ∧ repeatedText n ds = .ok ds' ∧ Respells dollars kept cs' ds' := by
  obtain rfl | ⟨k, rfl, hk⟩ := hn
  · exact ⟨cs, ds, rfl, rfl, h⟩
  · have hmarks : ∀ ws, dollars (Text.call ['s', 'e', 'q'] [ws, Numeral.digits k]) =
        dollars ws + (dollars [Numeral.digits k].flatten + dollars ['s', 'e', 'q']) := fun ws => by
      rw [dollars_call, List.flatten_cons, dollars_append, Nat.add_assoc]
    exact ⟨_, _, repeatedText_times hk cs, repeatedText_times hk ds, h.map hmarks⟩

/-! ## What is written again -/

/-- What is read from the text of a pattern in a place has a text in its place, and `keepsText` says whether it is the
same. -/
def Place.Respelled : Place → Pattern → Prop
  | .member, p =>
    (∃ cs ds, topText p = .ok cs ∧ topText (canonical p) = .ok ds ∧ Respells dollars (keepsText true p) cs ds) ∧
      ∃ cs ds, memberText p = .ok cs ∧ HasBody (dissolved p) ds ∧ Respells dollars (keepsText false p) cs ds
  | .argument, p =>
    ∃ cs ds, argumentText p = .ok cs ∧ argumentText (canonical p) = .ok ds ∧ Respells dollars (keepsText true p) cs ds

/-- What is canonical already comes back. -/
theorem Legible.respelled_self (h : Legible place p) (hcanonical : canonical p = p) (hdissolved : dissolved p = [p])
    (hkept : ∀ alone, keepsText alone p = true) : place.Respelled p := by
  cases place with
  | member =>
    obtain ⟨⟨cs, htop, -⟩, -, ds, hmember, -⟩ := h.spelled
    refine ⟨⟨cs, cs, htop, by rwa [hcanonical], ?_⟩, ds, ds, hmember, ?_, ?_⟩
    · rw [hkept]
      exact .refl cs
    · rw [hdissolved]
      exact .one h.bare?_eq_none hmember
    · rw [hkept]
      exact .refl ds
  | argument =>
    obtain ⟨cs, hcs, -⟩ := h.spelled
    refine ⟨cs, cs, hcs, by rwa [hcanonical], ?_⟩
    rw [hkept]
    exact .refl cs

theorem bodies_respelled (each : ∀ p ∈ ps, Legible .member p) (h : ∀ p ∈ ps, Place.member.Respelled p) :
    ∃ cs ds, HasBody ps cs ∧ HasBody (dissolvedEach ps) ds ∧ Respells dollars (keepsEach false ps) cs ds := by
  induction ps with
  | nil => exact ⟨[], [], .nil, .nil, .refl []⟩
  | cons p ps ih =>
    obtain ⟨-, cs, ds, hmember, hbody, hp⟩ := h p List.mem_cons_self
    obtain ⟨cs', ds', hbody', hbodies', hps⟩ :=
      ih (fun q hq => each q (List.mem_cons_of_mem _ hq)) fun q hq => h q (List.mem_cons_of_mem _ hq)
    refine ⟨glue cs cs', glue ds ds', .cons (each p List.mem_cons_self).bare?_eq_none hmember hbody', ?_, ?_⟩
    · rw [dissolvedEach]
      exact hbody.append hbodies'
    · rw [keepsEach]
      exact hp.map₂ hps dollars_glue

theorem parts_respelled (h : ∀ p ∈ ps, Place.argument.Respelled p) :
    ∃ parts parts', argumentTexts ps = .ok parts ∧ argumentTexts (canonicalEach ps) = .ok parts' ∧
      Respells (fun parts => dollars parts.flatten) (keepsEach true ps) parts parts' := by
  induction ps with
  | nil => exact ⟨[], [], rfl, rfl, .refl []⟩
  | cons p ps ih =>
    obtain ⟨cs, ds, hcs, hds, hp⟩ := h p List.mem_cons_self
    obtain ⟨parts, parts', hparts, hparts', hps⟩ := ih fun q hq => h q (List.mem_cons_of_mem _ hq)
    refine ⟨cs :: parts, ds :: parts', ?_, ?_, ?_⟩
    · rw [argumentTexts, hcs, hparts]
      rfl
    · rw [canonicalEach, argumentTexts, hds, hparts']
      rfl
    · rw [keepsEach]
      exact hp.map₂ hps fun cs parts => dollars_append cs parts.flatten

/-- The text of a sequence comes back if those of its members do and it does not come back as a word. Where it dissolves
it leaves no mark behind, and none is lost. -/
theorem Legible.respelled_sequence (ne : ps ≠ []) (each : ∀ p ∈ ps, Legible .member p) (hn : n.IsWritten)
    (hw : ¬ (n.isAbsent && isWord ps) = true) (h : ∀ p ∈ ps, Place.member.Respelled p) :
    place.Respelled (.sequence ps n) := by
  obtain ⟨cs, ds, hbody, hbody', hmembers⟩ := bodies_respelled each h
  obtain ⟨hcs, htext⟩ := Legible.sequenceText_eq each ne hbody
  obtain ⟨ws, htop, hargument, hword, hmark⟩ := Legible.alone_texts (Legible.legible_dissolvedEach each)
    (dissolvedEach_ne_nil ne fun p hp => (each p hp).spelled) hbody'
  have halone : Respells dollars (keepsEach false ps && !isWord (dissolvedEach ps)) ('$' :: cs) ws := by
    cases hlost : isWord (dissolvedEach ps) with
    | true =>
      rw [Bool.not_true, Bool.and_false]
      refine ⟨nofun, fun _ => ?_⟩
      rw [hword hlost, dollars, List.count_cons_self]
      exact Nat.succ_pos _
    | false =>
      rw [Bool.not_false, Bool.and_true, hmark hlost]
      exact hmembers.map fun _ => List.count_cons_self
  obtain ⟨old, new, hold, hnew, hagain⟩ := halone.repeated hn
  obtain ⟨htop', hargument', hmember'⟩ := sequence_texts hw hcs htext
  obtain ⟨htops, harguments, hmembers'⟩ :=
    repeatedBy_texts hn (q := .sequence (dissolvedEach ps) .absent) rfl htop hargument
  have hcanonical : canonical (.sequence ps n) = repeatedBy n (.sequence (dissolvedEach ps) .absent) := by
    rw [canonical, if_neg hw]
  have hnoWord : (n.isAbsent && isWord ps) = false := by simpa using hw
  have hkept : ∀ alone, keepsText alone (.sequence ps n) =
      (keepsEach false ps && (!isWord (dissolvedEach ps) || !alone && n.isAbsent)) := by
    intro alone
    rw [keepsText, hnoWord, Bool.false_or]
  have htrue : keepsText true (.sequence ps n) = (keepsEach false ps && !isWord (dissolvedEach ps)) := by simp [hkept]
  cases place with
  | argument =>
    refine ⟨old, new, by rw [hargument', hold], by rw [hcanonical, harguments, hnew], by rwa [htrue]⟩
  | member =>
    refine ⟨⟨old, new, by rw [htop', hold], by rw [hcanonical, htops, hnew], by rwa [htrue]⟩, ?_⟩
    cases habs : n.isAbsent with
    | true =>
      refine ⟨cs, ds, by rw [hmember', if_pos habs], ?_, ?_⟩
      · rwa [dissolved, if_neg hw, if_pos habs]
      · simpa [hkept, habs] using hmembers
    | false =>
      have hone : dissolved (.sequence ps n) = [repeatedBy n (.sequence (dissolvedEach ps) .absent)] := by
        rw [dissolved, if_neg hw, if_neg (by simp [habs])]
      refine ⟨old, new, by rw [hmember', if_neg (by simp [habs]), hold], ?_, ?_⟩
      · rw [hone]
        exact .one (bare?_repeatedBy rfl) (by rw [hmembers' habs, hnew])
      · simpa [hkept, habs] using hagain

theorem Legible.bare?_canonical (h : Legible place p) : bare? (canonical p) = none := by
  cases h with
  | letter | mute | reference => rfl
  | sequence =>
    rw [canonical]
    split
    · rfl
    · exact bare?_repeatedBy rfl
  | command =>
    rw [canonical]
    exact bare?_repeatedBy rfl

theorem Legible.respelled_command {name : String} (each : ∀ p ∈ ps, Legible .argument p) (hn : n.IsWritten)
    (h : ∀ p ∈ ps, Place.argument.Respelled p) : place.Respelled (.command name ps n) := by
  obtain ⟨parts, parts', hparts, hparts', hargs⟩ := parts_respelled h
  have hbare : ∀ q ∈ canonicalEach ps, bare? q = none := by
    rw [canonicalEach_eq_map, List.forall_mem_map]
    exact fun p hp => (each p hp).bare?_canonical
  obtain ⟨htop, hmember, hargument⟩ := command_texts name n (fun p hp => (each p hp).bare?_eq_none) hparts
  obtain ⟨htop', hmember', hargument'⟩ := command_texts name .absent hbare hparts'
  obtain ⟨htops, harguments, hmembers⟩ := repeatedBy_texts hn rfl htop' hargument'
  have honce : memberText (repeatedBy n (.command name (canonicalEach ps) .absent)) =
      repeatedText n (Text.call name.toList parts') := by
    cases habs : n.isAbsent with
    | true => rw [repeatedBy, if_pos habs, hmember', Count.eq_absent habs]
    | false => exact hmembers habs
  have hcall : Respells dollars (keepsEach true ps) (Text.call name.toList parts) (Text.call name.toList parts') :=
    hargs.map fun parts => dollars_call name.toList parts
  obtain ⟨old, new, hold, hnew, hagain⟩ := hcall.repeated hn
  have hcanonical : canonical (.command name ps n) = repeatedBy n (.command name (canonicalEach ps) .absent) := rfl
  have hkept : ∀ alone, keepsText alone (.command name ps n) = keepsEach true ps := fun _ => rfl
  cases place with
  | argument => exact ⟨old, new, by rw [hargument, hold], by rw [hcanonical, harguments, hnew], by rwa [hkept]⟩
  | member =>
    refine ⟨⟨old, new, by rw [htop, hold], by rw [hcanonical, htops, hnew], by rwa [hkept]⟩, old, new,
      by rw [hmember, hold], ?_, by rwa [hkept]⟩
    exact .one (bare?_repeatedBy rfl) (by rw [honce, hnew])

/-- **Whether a text comes back**, in each place of a legible pattern. -/
theorem Legible.respelled (h : Legible place p) : place.Respelled p := by
  induction h with
  | letter h => exact Legible.respelled_self (.letter h) rfl rfl fun _ => rfl
  | mute h => exact Legible.respelled_self (.mute h) rfl rfl fun _ => rfl
  | @sequence _ ps n ne each hn ih =>
    by_cases hw : (n.isAbsent && isWord ps) = true
    · have hself : canonical (.sequence ps n) = .sequence ps n ∧ dissolved (.sequence ps n) = [.sequence ps n] := by
        rw [Bool.and_eq_true] at hw
        obtain rfl := Count.eq_absent hw.1
        simp [canonical, dissolved, hw]
      exact Legible.respelled_self (.sequence ne each hn) hself.1 hself.2 fun alone => by simp [keepsText, hw]
    · exact Legible.respelled_sequence ne each hn hw ih
  | command hname each hn ih => exact Legible.respelled_command each hn ih
  | reference h => exact Legible.respelled_self (.reference h) rfl rfl fun _ => rfl

/-! ## Whole patterns -/

theorem Legible.text_eq (h : Legible .member p) : text p = topText p := by
  cases h <;> rfl

/-- What is read from the text of a legible pattern is legible. -/
theorem Legible.legible_canonical (h : Legible .member p) : Legible .member (canonical p) := by
  obtain ⟨⟨cs, -, hspells⟩, -⟩ := h.spelled
  exact ((hspells.derives .start).settled (fun _ => Token.isLexical_of_mem_scan) _ List.mem_cons_self).1

theorem LegibleRoot.respelled (h : LegibleRoot p) :
    ∃ cs ds, text p = .ok cs ∧ text (canonical p) = .ok ds ∧ Respells dollars (keepsText true p) cs ds := by
  obtain h | ⟨q, k, rfl, h, hk⟩ := h
  · obtain ⟨⟨cs, ds, hcs, hds, hagain⟩, -⟩ := h.respelled
    exact ⟨cs, ds, by rw [h.text_eq, hcs], by rw [h.legible_canonical.text_eq, hds], hagain⟩
  · obtain ⟨⟨cs, ds, hcs, hds, hagain⟩, -⟩ := h.respelled
    refine ⟨_, _, ?_, ?_, hagain.map fun ws => dollars_append ws (':' :: Numeral.digits k)⟩
    · rw [text, hcs, countText_times hk]
      rfl
    · rw [canonical, text, hds, countText_times hk]
      rfl

/-- What is read from the text of a legible pattern has a text too, which is the first one exactly if `keepsText` says
so. What is read from the second text is the same pattern again, so there is no third text. -/
theorem LegibleRoot.textValue_respelled {s : Settings} (h : LegibleRoot p)
    (hfits : Fits s.maxDepth 0 (canonical p).nesting) :
    ∃ (t t' : String) (q : Pattern), p.textValue = .ok (.text t) ∧ parse s t = .ok q ∧ q.textValue = .ok (.text t') ∧
      parse s t' = .ok q ∧ (t' = t ↔ p.keepsText true = true) := by
  obtain ⟨cs, ds, hcs, hds, hagain⟩ := h.respelled
  obtain ⟨cs', hcs', -, hread⟩ := run_text h hfits
  rw [hcs] at hcs'
  cases hcs'
  have hparse : parse s (String.ofList cs) = .ok (canonical p) := (hread s.trailing).1
  have hvalue := (settled_of_parse hparse).1.textValue hds
  obtain ⟨t', ht', hparse', -⟩ := parse_text_of_parse hparse
  rw [hvalue] at ht'
  cases ht'
  refine ⟨_, _, canonical p, h.textValue hcs, hparse, hvalue, hparse', ?_⟩
  rw [String.ofList_inj, hagain.eq_iff]

/-- **When a text comes back**: a meaningful pattern has a text unless one of its counts is too long. The text is read,
and what is read has a text again, which is the first one exactly if no sequence in the pattern hides a word. -/
theorem textValue_again {s : Settings} (h : MeaningfulRoot p) (hroom : 2 * (p.nesting : Int) ≤ s.maxDepth) :
    (¬ RegularRoot p ∧ ∃ f, p.textValue = .error f ∧ f.isRefusal = true) ∨
      ∃ (t t' : String) (q : Pattern), p.textValue = .ok (.text t) ∧ parse s t = .ok q ∧
        q.textValue = .ok (.text t') ∧ parse s t' = .ok q ∧ (t' = t ↔ p.keepsText true = true) := by
  by_cases hregular : RegularRoot p
  · exact .inr (hregular.legible.textValue_respelled (fits_canonical hroom))
  · exact .inl ⟨hregular, h.written.resolve_left hregular⟩

/-- A sequence of one letter in front of another letter: together they make a word. -/
def hiddenWord : Pattern :=
  .sequence [.sequence [.symbol "d" false .absent] .absent, .symbol "h" false .absent] .absent

theorem regular_hiddenWord : Regular hiddenWord := by
  have letter : ∀ char ∈ Stroke.alphabet, Regular (.symbol char false .absent) :=
    fun _ hchar => .symbol hchar (.inl rfl)
  have hinner : Regular (.sequence [.symbol "d" false .absent] .absent) :=
    .sequence (by simp) (by simpa using letter "d" (by decide)) (.inl rfl)
  exact .sequence (by simp) (by simpa using ⟨hinner, letter "h" (by decide)⟩) (.inl rfl)

theorem textValue_again_hiddenWord :
    ∃ (t t' : String) (q : Pattern), hiddenWord.textValue = .ok (.text t) ∧ parse ⟨64, true⟩ t = .ok q ∧
      q.textValue = .ok (.text t') ∧ t' ≠ t := by
  have hmeaning : MeaningfulRoot hiddenWord := .inl regular_hiddenWord.meaningful
  obtain ⟨hirregular, -⟩ | ⟨t, t', q, ht, hq, ht', -, hagain⟩ := textValue_again (s := ⟨64, true⟩) hmeaning (by decide)
  · exact absurd (.inl regular_hiddenWord) hirregular
  · exact ⟨t, t', q, ht, hq, ht', fun heq => absurd (hagain.1 heq) (by decide)⟩

/-- The text of a regular pattern is read as a pattern with another text. -/
theorem textValue_not_again :
    RegularRoot hiddenWord ∧ 2 * (hiddenWord.nesting : Int) ≤ 64 ∧ hiddenWord.textValue = .ok (.text "$d h") ∧
      ∃ q, parse ⟨64, true⟩ "$d h" = .ok q ∧ q.textValue = .ok (.text "dh") := by
  have hroom : 2 * (hiddenWord.nesting : Int) ≤ 64 := by decide
  have htext : hiddenWord.textValue = .ok (.text "$d h") := rfl
  obtain ⟨t, ht, hparse⟩ := LegibleRoot.parse_textValue (s := ⟨64, true⟩) (.inl regular_hiddenWord.legible)
    (fits_canonical hroom)
  rw [htext] at ht
  cases ht
  exact ⟨.inl regular_hiddenWord, hroom, htext, _, hparse, rfl⟩

end Rosette.Pattern
