import Rosette.Proofs.Pattern.Neighbours
import Rosette.Proofs.Pattern.Unrolling

/-!
# The mark of a solid ring inside a pattern

The mark `-` is written wherever it stands, but to the reader it is no token. A sequence of nothing but marks is written
as a `$` with nothing behind it, and a mark that is not the last argument of a call leaves a comma without its argument.
`stands` tells from the tree alone where that happens.

A text that is read derives a pattern; one that is not breaks a rule for neighbouring tokens (`Chained`), alone or with
the token behind it. `Judged` says which of the two holds of a text, and each way of putting texts together has one
lemma about it. Main result: what is written for a pattern in each of its places (`Notated.inPlace`).
-/

namespace Rosette.Pattern

open Token Writing

/-! ## Where the mark may stand -/

mutual

/-- Whether the text of a pattern has a token, as a member of a sequence. -/
def visible : Pattern → Bool
  | .symbol char _ _ => char ≠ Stroke.solidMark
  | .sequence ps n => !n.isAbsent || visibleAny ps
  | _ => true

/-- Whether the texts of members have a token. -/
def visibleAny : List Pattern → Bool
  | [] => false
  | p :: ps => visible p || visibleAny ps

end

mutual

/-- Whether the text of a pattern is read, as a member of a sequence or alone. -/
def stands (alone : Bool) : Pattern → Bool
  | .symbol char _ _ => !alone || char ≠ Stroke.solidMark
  | .sequence ps n => standsEach ps && (visibleAny ps || (!alone && n.isAbsent))
  | .command _ args _ => standsArguments args
  | .elementCount p n => !n.isAbsent && stands true p
  | _ => true

/-- Whether the texts of members are read. -/
def standsEach : List Pattern → Bool
  | [] => true
  | p :: ps => stands false p && standsEach ps

/-- Whether the texts of arguments are read. The last one may be a mark, for a comma may stand behind the last
argument. -/
def standsArguments : List Pattern → Bool
  | [] => true
  | [p] => p.isSolid || stands true p
  | p :: q :: ps => stands true p && standsArguments (q :: ps)

end

/-- A pattern in the letters of the notation and the mark: its counts are natural numbers, its commands keywords and
its references words. -/
inductive Notated : Pattern → Prop where
  | symbol {char : String} {rotated : Bool} {n : Count} (hchar : char ∈ Stroke.alphabet ∨ char = Stroke.solidMark)
      (hn : n.IsFrom 0) : Notated (.symbol char rotated n)
  | sequence {ps : List Pattern} {n : Count} (each : ∀ p ∈ ps, Notated p) (hn : n.IsFrom 0) : Notated (.sequence ps n)
  | command {name : String} {args : List Pattern} {n : Count} (hname : name ∈ Token.keywords)
      (each : ∀ p ∈ args, Notated p) (hn : n.IsFrom 0) : Notated (.command name args n)
  | elementCount {p : Pattern} {n : Count} (h : Notated p) (hn : n.IsFrom 0) : Notated (.elementCount p n)
  | reference {name : String} (h : Token.IsWord name.toList) : Notated (.reference name)

/-! ## Outcomes of writing -/

/-- Whether a fault says that a pattern cannot be written, and not that a value is of the wrong sort. -/
def Writing.Fault.isRefusal : Writing.Fault → Bool
  | .misfit _ => false
  | _ => true

/-- A refusal, or a result with a property. -/
def Writes {α : Type} (r : Except Writing.Fault α) (P : α → Prop) : Prop :=
  match r with
  | .error f => f.isRefusal = true
  | .ok a => P a

theorem Writes.bind {α β : Type} {r : Except Writing.Fault α} {f : α → Except Writing.Fault β} {P : α → Prop}
    {Q : β → Prop} (h : Writes r P) (hf : ∀ a, P a → Writes (f a) Q) : Writes (r >>= f) Q := by
  cases r with
  | error e => exact h
  | ok a => exact hf a h

theorem Writes.imp {α : Type} {r : Except Writing.Fault α} {P Q : α → Prop} (h : Writes r P) (hPQ : ∀ a, P a → Q a) :
    Writes r Q := by
  cases r with
  | error e => exact h
  | ok a => exact hPQ a h

variable {p : Pattern} {ps args : List Pattern} {n : Count} {cs ds body inner : List Char} {ts us : List Token}
  {t : Token} {ok ok' shown shown' : Bool} {Good Good' Bad Bad' : List Token → Prop}

/-! ## What a text is -/

/-- Some tokens derive a pattern. -/
def Means (m : Nonterminal) (ts : List Token) : Prop := ∃ p, Derives m ts [p]

/-- Some tokens derive patterns. -/
def MeansEach (m : Nonterminal) (ts : List Token) : Prop := ∃ ps, Derives m ts ps

/-- Tokens that break a rule for neighbours, at the latest with the token behind them. -/
def Broken (ts : List Token) : Prop := ¬ Chained ts ∨ ∃ t ∈ ts.getLast?, t.kind = .dollar

/-- Tokens that break a rule for neighbours, as arguments up to the end of a call. -/
def BrokenArguments (ts : List Token) : Prop :=
  ∀ before closing : Token, (before.kind = .lparen ∨ before.kind = .comma) → closing.kind = .rparen →
    ¬ Chained (before :: (ts ++ [closing]))

/-- A text without quotes whose tokens are good or bad, wherever it stands. -/
structure Judged (ok : Bool) (Good Bad : List Token → Prop) (cs : List Char) : Prop where
  unquoted : ∀ c ∈ cs, c ≠ '"' ∧ c ≠ '\''
  good : ok = true → ∀ l, Good (scan l cs).1
  bad : ok = false → ∀ l, Bad (scan l cs).1

/-- A text of members, with tokens or without. -/
structure JudgedMembers (ok shown : Bool) (cs : List Char) : Prop extends
    Judged ok (MeansEach .members) (¬ Chained ·) cs where
  hidden : ∀ l, (scan l cs).1 = [] ↔ shown = false

/-- A text of a pattern that stands alone: that of the mark has no tokens. -/
inductive JudgedAlone (m : Nonterminal) (p : Pattern) (cs : List Char) : Prop where
  | mark (solid : p.isSolid = true) (silent : p.stands true = false) (unquoted : ∀ c ∈ cs, c ≠ '"' ∧ c ≠ '\'')
      (hidden : ∀ l, (scan l cs).1 = []) : JudgedAlone m p cs
  | text (solid : p.isSolid = false) (judged : Judged (p.stands true) (Means m) Broken cs) : JudgedAlone m p cs

theorem JudgedAlone.unquoted {m : Nonterminal} (h : JudgedAlone m p cs) : ∀ c ∈ cs, c ≠ '"' ∧ c ≠ '\'' := by
  cases h with
  | mark _ _ unquoted _ => exact unquoted
  | text _ judged => exact judged.unquoted

theorem Judged.closed (h : Judged ok Good Bad cs) : openQuote none cs = none := openQuote_of_plain h.unquoted

theorem Judged.imp (h : Judged ok Good Bad cs) (hgood : ∀ ts, Good ts → Good' ts) (hbad : ∀ ts, Bad ts → Bad' ts) :
    Judged ok Good' Bad' cs :=
  ⟨h.unquoted, fun hok l => hgood _ (h.good hok l), fun hok l => hbad _ (h.bad hok l)⟩

theorem Means.imp {m m' : Nonterminal} (h : Means m ts) (himp : ∀ p, Derives m ts [p] → Derives m' ts [p]) :
    Means m' ts := by
  obtain ⟨p, hd⟩ := h
  exact ⟨p, himp p hd⟩

theorem Spells.judged {m : Nonterminal} (h : Spells m cs [p]) : Judged true (Means m) Bad cs :=
  ⟨fun c hc => (h.chars c hc).not_quote, fun _ l => ⟨p, h.derives l⟩, fun hok => nomatch hok⟩

theorem Judged.means {m : Nonterminal} (h : Judged ok (Means .command) (¬ Chained ·) cs)
    (himp : ∀ ts p, Derives .command ts [p] → Derives m ts [p]) : Judged ok (Means m) Broken cs :=
  h.imp (fun ts hts => hts.imp (himp ts)) (fun _ => .inl)

/-- Tokens that are broken alone are broken in front of a token that goes on with no sequence. -/
theorem Broken.not_chained (h : Broken ts) (ht : t.kind ≠ .symbol ∧ t.kind ≠ .identifier) :
    ¬ Chained (ts ++ t :: us) := by
  rw [chained_append]
  rintro ⟨hts, -, hnext⟩
  obtain h | ⟨dollar, hlast, hk⟩ := h
  · exact h hts
  · have hfollow := hnext dollar hlast t rfl
    rw [hk] at hfollow
    simp [mayFollow, ht] at hfollow

/-! ## Members of a sequence -/

theorem judgedMembers_nil : JudgedMembers true false [] where
  unquoted := by simp
  good _ l := ⟨[], by simpa using .noMembers⟩
  bad hok := nomatch hok
  hidden := by simp

theorem JudgedMembers.glue (h : JudgedMembers ok shown cs) (h' : JudgedMembers ok' shown' ds) :
    JudgedMembers (ok && ok') (shown || shown') (Writing.glue cs ds) where
  unquoted c hc := by
    obtain hc | rfl | hc := mem_glue hc
    · exact h.unquoted c hc
    · decide
    · exact h'.unquoted c hc
  good hok l := by
    rw [Bool.and_eq_true] at hok
    obtain ⟨l', hl'⟩ := scan_glue h.closed ds l
    obtain ⟨ps, hps⟩ := h.good hok.1 l
    obtain ⟨qs, hqs⟩ := h'.good hok.2 l'
    exact ⟨ps ++ qs, hl' ▸ hps.members_append hqs⟩
  bad hok l := by
    obtain ⟨l', hl'⟩ := scan_glue h.closed ds l
    rw [hl', chained_append]
    obtain hok | hok := Bool.and_eq_false_iff.1 hok
    · exact fun hc => h.bad hok l hc.1
    · exact fun hc => h'.bad hok l' hc.2.1
  hidden l := by
    obtain ⟨l', hl'⟩ := scan_glue h.closed ds l
    rw [hl', List.append_eq_nil_iff, h.hidden, h'.hidden, Bool.or_eq_false_iff]

/-- A symbol or a call is a member with tokens. -/
theorem Judged.member {m : Nonterminal} (h : Judged ok (Means m) (¬ Chained ·) cs)
    (hm : ∀ ts p, Derives m ts [p] → Derives .member ts [p]) : JudgedMembers ok true cs where
  unquoted := h.unquoted
  good hok l := by
    obtain ⟨p, hd⟩ := h.good hok l
    exact ⟨[p], (hm _ _ hd).oneMember⟩
  bad := h.bad
  hidden l := by
    simp only [Bool.true_eq_false, iff_false]
    intro hnil
    cases ok with
    | true =>
      obtain ⟨p, hd⟩ := h.good rfl l
      exact (hm _ _ hd).ne_nil (by simp) (by simp) hnil
    | false => exact h.bad rfl l (hnil ▸ chained_nil)

theorem Notated.bare?_eq_none (h : Notated p) : bare? p = none := by
  cases h <;> rfl

/-- Members side by side are read if each of them is, and are seen if one of them is. -/
theorem bodyText_judged (each : ∀ p ∈ ps, Notated p)
    (h : ∀ p ∈ ps, Writes (memberText p) (JudgedMembers (p.stands false) p.visible)) {before : List Char}
    (hbefore : JudgedMembers ok shown before) :
    Writes (bodyText before ps) (JudgedMembers (ok && standsEach ps) (shown || visibleAny ps)) := by
  induction ps generalizing before ok shown with
  | nil => simpa [bodyText, Writes, standsEach, visibleAny] using hbefore
  | cons p ps ih =>
    rw [List.forall_mem_cons] at each h
    rw [bodyText, standsEach, visibleAny, ← Bool.and_assoc, ← Bool.or_assoc]
    refine h.1.bind fun t ht => ?_
    have hbehind : behind before p t = .ok (Writing.glue before t) := by
      rw [behind, each.1.bare?_eq_none]
    rw [hbehind]
    exact ih each.2 h.2 (hbefore.glue ht)

/-- A sequence is read if its members are and one of them is seen. -/
theorem sequenceText_judged (h : JudgedMembers ok shown body) :
    Writes (sequenceText body) (Judged (ok && shown) (Means .sequence) Broken) := by
  unfold sequenceText
  split
  · rfl
  refine ⟨List.forall_mem_cons.2 ⟨by decide, h.unquoted⟩, fun hok l => ?_, fun hok l => ?_⟩
  · rw [Bool.and_eq_true] at hok
    obtain ⟨ps, hd⟩ := h.good hok.1 (l.advance '$')
    have hne : (scan (l.advance '$') body).1 ≠ [] := fun hnil => by simpa [hok.2] using (h.hidden _).1 hnil
    rw [scan_mark (k := .dollar) rfl]
    generalize (scan (l.advance '$') body).1 = ts at hd hne
    cases hd with
    | noMembers => exact absurd rfl hne
    | moreMembers d ds => exact ⟨_, .sequence rfl d ds⟩
  · rw [scan_mark (k := .dollar) rfl]
    obtain hok | hok := Bool.and_eq_false_iff.1 hok
    · exact .inl fun hc => h.bad hok _ (chained_cons.1 hc).2
    · rw [(h.hidden _).2 hok]
      exact .inr ⟨_, rfl, rfl⟩

/-! ## Calls -/

theorem argumentTexts_judged (h : ∀ p ∈ ps, Writes (argumentText p) (JudgedAlone .argument p)) :
    Writes (argumentTexts ps) (List.Forall₂ (JudgedAlone .argument) ps) := by
  induction ps with
  | nil => exact .nil
  | cons p ps ih =>
    rw [List.forall_mem_cons] at h
    rw [argumentTexts]
    exact h.1.bind fun t ht => (ih h.2).bind fun ts hts => .cons ht hts

/-- The last argument may be a mark. -/
theorem JudgedAlone.lastArgument (h : JudgedAlone .argument p cs) :
    Judged (p.isSolid || p.stands true) (MeansEach .arguments) BrokenArguments cs := by
  cases h with
  | mark solid silent unquoted hidden =>
    refine ⟨unquoted, fun _ l => ⟨[], ?_⟩, fun hok => ?_⟩
    · rw [hidden]
      exact .noArguments
    · simp [solid] at hok
  | text solid judged =>
    rw [solid, Bool.false_or]
    refine judged.imp (fun ts hts => ?_) (fun ts hts before closing _ hclosing hc => ?_)
    · obtain ⟨p, hd⟩ := hts
      exact ⟨[p], .lastArgument hd⟩
    · exact hts.not_chained (by simp [hclosing]) (chained_cons.1 hc).2

/-- An argument in front of others must not be a mark. -/
theorem JudgedAlone.moreArguments {parts : List (List Char)} (h : JudgedAlone .argument p cs)
    (hrest : Judged ok (MeansEach .arguments) BrokenArguments ([',', ' '].intercalate (ds :: parts))) :
    Judged (p.stands true && ok) (MeansEach .arguments) BrokenArguments
      ([',', ' '].intercalate (cs :: ds :: parts)) := by
  have hclosed := openQuote_of_plain h.unquoted
  refine ⟨?_, fun hok l => ?_, fun hok l before closing hbefore hclosing hc => ?_⟩
  · rw [arguments_cons]
    exact List.forall_mem_append.2 ⟨h.unquoted, by simpa using hrest.unquoted⟩
  · rw [Bool.and_eq_true] at hok
    obtain ⟨comma, l', hcomma, hscan⟩ := scan_arguments hclosed ds parts l
    obtain ⟨qs, hqs⟩ := hrest.good hok.2 l'
    cases h with
    | mark _ silent => simp [silent] at hok
    | text _ judged =>
      obtain ⟨q, hq⟩ := judged.good hok.1 l
      exact ⟨q :: qs, hscan ▸ .moreArguments hq hcomma hqs⟩
  · obtain ⟨comma, l', hcomma, hscan⟩ := scan_arguments hclosed ds parts l
    rw [hscan, List.append_assoc, List.cons_append] at hc
    obtain ⟨hfirst, hc⟩ := chained_cons.1 hc
    have hnext : Chained (comma :: ((scan l' ([',', ' '].intercalate (ds :: parts))).1 ++ [closing])) :=
      (chained_append.1 hc).2.1
    obtain hok | hok := Bool.and_eq_false_iff.1 hok
    · cases h with
      | mark _ _ _ hidden =>
        -- nothing stands between the comma and what opens the argument
        have hfollow := hfirst comma (by rw [hidden]; rfl)
        rw [hcomma] at hfollow
        obtain hk | hk := hbefore <;> simp [hk, mayFollow] at hfollow
      | text _ judged => exact (judged.bad hok l).not_chained (by simp [hcomma]) hc
    · exact hrest.bad hok l' comma closing (.inr hcomma) hclosing hnext

theorem arguments_judged {parts : List (List Char)} (h : List.Forall₂ (JudgedAlone .argument) args parts) :
    Judged (standsArguments args) (MeansEach .arguments) BrokenArguments ([',', ' '].intercalate parts) := by
  induction h with
  | nil => exact ⟨by simp, fun _ l => ⟨[], by simpa using .noArguments⟩, fun hok => nomatch hok⟩
  | @cons p cs args parts hp hrest ih =>
    cases hrest with
    | nil => simpa [standsArguments] using hp.lastArgument
    | cons => exact hp.moreArguments ih

/-- A call is read if its arguments are. -/
theorem call_judged {name : String} (hname : name ∈ keywords) {parts : List (List Char)}
    (h : List.Forall₂ (JudgedAlone .argument) args parts) :
    Judged (standsArguments args) (Means .command) (¬ Chained ·) (Text.call name.toList parts) := by
  have hargs := arguments_judged h
  obtain ⟨hw, -, hfold⟩ := isWord_keyword hname
  refine ⟨?_, fun hok l => ?_, fun hok l hc => ?_⟩
  · have hunquoted : ∀ c ∈ name.toList, c ≠ '"' ∧ c ≠ '\'' := fun c hc =>
      IsTextChar.not_quote (.inl (hw.2 c hc))
    rw [call_eq]
    exact List.forall_mem_append.2 ⟨hunquoted, List.forall_mem_cons.2 ⟨by decide,
      List.forall_mem_append.2 ⟨hargs.unquoted, by simp⟩⟩⟩
  · obtain ⟨opening, closing, l', ho, hcl, hscan⟩ := scan_call hname hargs.closed l
    obtain ⟨qs, hqs⟩ := hargs.good hok l'
    rw [hscan]
    exact ⟨_, .call rfl ho hcl hfold hqs⟩
  · obtain ⟨opening, closing, l', ho, hcl, hscan⟩ := scan_call hname hargs.closed l
    rw [hscan] at hc
    exact hargs.bad hok l' opening closing (.inl ho) hcl (chained_cons.1 hc).2

/-- A count that can be written is a bare number. -/
theorem countText_judged (hn : n.IsFrom 0) (habs : n.isAbsent = false) :
    Writes (countText n) (fun cs => ∃ k : Nat, n = .times k ∧ Numeral.fits k = true ∧ cs = Numeral.digits k) := by
  obtain rfl | ⟨k, rfl, -⟩ := hn
  · cases habs
  cases hk : Numeral.fits k with
  | true =>
    rw [countText_times hk]
    exact ⟨k, rfl, hk, rfl⟩
  | false =>
    rw [countText_tooLong hk]
    rfl

/-- A repeat count changes nothing about whether a text is read. -/
theorem repeatedText_judged (hn : n.IsFrom 0) (habs : n.isAbsent = false) (solid : p.isSolid = false)
    (h : Judged (p.stands true) (Means .argument) Broken inner) :
    Writes (repeatedText n inner) (Judged (p.stands true) (Means .command) (¬ Chained ·)) := by
  rw [repeatedText, if_neg (by simp [habs])]
  refine (countText_judged hn habs).bind fun t ht => ?_
  obtain ⟨k, rfl, hk, rfl⟩ := ht
  have hnumber : JudgedAlone .argument (.symbol Stroke.spacerLetter false (.times k)) (Numeral.digits k) :=
    .text rfl (spells_number hk).judged
  have hseq : CommandRule.seq.name ∈ keywords := by decide
  have hcall := call_judged hseq (.cons (.text solid h) (.cons hnumber .nil))
  have hargs : standsArguments [p, .symbol Stroke.spacerLetter false (.times k)] = p.stands true := by
    simp [standsArguments, stands, Stroke.spacerLetter, Stroke.solidMark]
  rwa [hargs] at hcall

/-! ## Letters and words -/

/-- A letter whose count can be written is read. -/
theorem symbolText_judged {char : String} {rotated : Bool} (hchar : char ∈ Stroke.alphabet) (hn : n.IsFrom 0) :
    Writes (symbolText char rotated n) (fun cs => n.IsWritten ∧ Spells .symbol cs [.symbol char rotated n]) := by
  have written (hn : n.IsWritten) :
      Writes (symbolText char rotated n) (fun cs => n.IsWritten ∧ Spells .symbol cs [.symbol char rotated n]) := by
    obtain ⟨cs, htext, hspells⟩ := spells_letter ⟨char, rotated, n, rfl, hchar, hn⟩
    rw [htext]
    exact ⟨hn, hspells⟩
  obtain rfl | ⟨k, rfl, -⟩ := hn
  · exact written (.inl rfl)
  cases hk : Numeral.fits k with
  | true => exact written (.inr ⟨k, rfl, hk⟩)
  | false =>
    have hmark := Stroke.ne_solidMark_of_mem hchar
    rw [symbolText, if_neg hmark, if_neg (by simp [Count.isAbsent]), countText_tooLong hk]
    rfl

/-- What counts as a letter is one, and not the mark. -/
theorem Notated.exists_letter (h : Notated p) (hl : isLetter p = true) :
    ∃ char rotated n, p = .symbol char rotated n ∧ char ∈ Stroke.alphabet ∧ n.IsFrom 0 := by
  cases h with
  | symbol hchar hn => exact ⟨_, _, _, rfl, List.contains_iff_mem.1 hl, hn⟩
  | sequence | command | elementCount | reference => cases hl

theorem wordText_written (each : ∀ p ∈ ps, Notated p) (hl : ∀ p ∈ ps, isLetter p = true) :
    Writes (wordText ps) (fun _ => ∀ p ∈ ps, p.IsWrittenLetter) := by
  induction ps with
  | nil => simp [wordText, Writes]
  | cons p ps ih =>
    rw [List.forall_mem_cons] at each hl
    obtain ⟨char, rotated, n, rfl, hchar, hn⟩ := each.1.exists_letter hl.1
    rw [wordText]
    simp only [symbol?]
    refine (symbolText_judged hchar hn).bind fun t ht => (ih each.2 hl.2).bind fun ts hts => ?_
    exact List.forall_mem_cons.2 ⟨⟨char, rotated, n, rfl, hchar, ht.1⟩, hts⟩

/-- A word of letters whose counts can be written is read. -/
theorem wordText_judged (each : ∀ p ∈ ps, Notated p) (hw : isWord ps = true) :
    Writes (wordText ps) (fun cs => Spells .symbol cs [.sequence ps .absent]) := by
  obtain ⟨⟨p, q, qs, rfl⟩, hl⟩ := letters_of_isWord hw
  have hwritten := wordText_written each hl
  cases hr : wordText (p :: q :: qs) with
  | error f => rwa [hr] at hwritten
  | ok cs =>
    rw [hr] at hwritten
    obtain ⟨cs', htext, hspells⟩ := spells_letters hwritten (by simp)
    rw [hr] at htext
    cases htext
    exact hspells _ fun _ => ofWord_of_wordSymbols

theorem standsEach_of_isLetter (each : ∀ p ∈ ps, Notated p) (hl : ∀ p ∈ ps, isLetter p = true) :
    standsEach ps = true := by
  induction ps with
  | nil => rfl
  | cons p ps ih =>
    rw [List.forall_mem_cons] at each hl
    obtain ⟨char, rotated, n, rfl, -⟩ := each.1.exists_letter hl.1
    rw [standsEach, ih each.2 hl.2]
    rfl

theorem visibleAny_of_isWord (each : ∀ p ∈ ps, Notated p) (hw : isWord ps = true) :
    standsEach ps = true ∧ visibleAny ps = true := by
  obtain ⟨⟨p, q, qs, rfl⟩, hl⟩ := letters_of_isWord hw
  refine ⟨standsEach_of_isLetter each hl, ?_⟩
  obtain ⟨char, rotated, n, rfl, hchar, -⟩ := (each p List.mem_cons_self).exists_letter (hl p List.mem_cons_self)
  have hmark := Stroke.ne_solidMark_of_mem hchar
  simp [visibleAny, visible, hmark]

/-! ## The places of a pattern -/

/-- What is written for a pattern in each place. -/
structure InPlace (p : Pattern) : Prop where
  alone : Writes (topText p) (JudgedAlone .pattern p)
  member : Writes (memberText p) (JudgedMembers (p.stands false) p.visible)
  argument : Writes (argumentText p) (JudgedAlone .argument p)

theorem scan_solidMark (l : Location) : (scan l Stroke.solidMark.toList).1 = [] := by
  have hskip : scan l ['-'] = scan (l.advance '-') [] := scan_skip rfl l
  rw [show Stroke.solidMark.toList = ['-'] from rfl, hskip, scan_nil]

theorem inPlace_mark (rotated : Bool) (n : Count) : InPlace (.symbol Stroke.solidMark rotated n) := by
  have hunquoted : ∀ c ∈ Stroke.solidMark.toList, c ≠ '"' ∧ c ≠ '\'' := by simp [Stroke.solidMark]
  have halone : ∀ m, JudgedAlone m (.symbol Stroke.solidMark rotated n) Stroke.solidMark.toList := fun m =>
    .mark (by simp [isSolid, symbol?]) (by simp [stands]) hunquoted scan_solidMark
  have hmember : JudgedMembers true false Stroke.solidMark.toList :=
    ⟨⟨hunquoted, fun _ l => ⟨[], scan_solidMark l ▸ .noMembers⟩, fun hfalse => absurd hfalse (by simp)⟩,
      fun l => by simp [scan_solidMark]⟩
  have htext : symbolText Stroke.solidMark rotated n = .ok Stroke.solidMark.toList := by simp [symbolText]
  refine ⟨?_, ?_, ?_⟩
  · rw [topText, htext]
    exact halone _
  · rw [memberText, htext]
    simpa [Writes, stands, visible] using hmember
  · rw [argumentText, if_neg (by simp [Stroke.solidMark, Stroke.spacerLetter]), htext]
    exact halone _

/-- What is read from one word in each place is the text of a pattern there. -/
theorem Spells.alone {m : Nonterminal} (h : Spells .symbol cs [p]) (solid : p.isSolid = false)
    (hp : p.stands true = true) (hm : ∀ ts q, Derives .symbol ts [q] → Derives m ts [q]) : JudgedAlone m p cs := by
  refine .text solid ?_
  rw [hp]
  exact (h.imp fun ts => hm ts p).judged

theorem Spells.member (h : Spells .symbol cs [p]) : JudgedMembers true true cs :=
  h.judged.member fun _ _ => .memberSymbol

theorem inPlace_letter {char : String} {rotated : Bool} (hchar : char ∈ Stroke.alphabet) (hn : n.IsFrom 0) :
    InPlace (.symbol char rotated n) := by
  have hmark := Stroke.ne_solidMark_of_mem hchar
  have hsolid : (Pattern.symbol char rotated n).isSolid = false := by simp [isSolid, symbol?, hmark]
  have hstands : ∀ alone, (Pattern.symbol char rotated n).stands alone = true := fun alone => by simp [stands, hmark]
  have hvisible : (Pattern.symbol char rotated n).visible = true := by simp [visible, hmark]
  have htext : Writes (symbolText char rotated n) _ := symbolText_judged hchar hn
  refine ⟨?_, ?_, ?_⟩
  · rw [topText]
    exact htext.imp fun cs hcs => hcs.2.alone hsolid (hstands true) fun _ _ => .patternSymbol
  · rw [memberText, hstands, hvisible]
    exact htext.imp fun cs hcs => hcs.2.member
  · rw [argumentText]
    split
    · rename_i hx
      -- an upright spacer with a count is a bare number
      simp only [Bool.and_eq_true, decide_eq_true_eq, Bool.not_eq_true'] at hx
      refine (countText_judged hn hx.2).imp fun cs hcs => .text hsolid ?_
      obtain ⟨k, -, hk, rfl⟩ := hcs
      rw [hstands]
      exact (spells_number hk).judged
    · exact htext.imp fun cs hcs => hcs.2.alone hsolid (hstands true) fun _ _ => .argumentSymbol

theorem stands_sequence (alone : Bool) (ps : List Pattern) (n : Count) : (Pattern.sequence ps n).stands alone =
    (standsEach ps && (visibleAny ps || (!alone && n.isAbsent))) := by rw [stands]

theorem inPlace_word (each : ∀ p ∈ ps, Notated p) (hw : isWord ps = true) : InPlace (.sequence ps .absent) := by
  obtain ⟨hps, hany⟩ := visibleAny_of_isWord each hw
  have hstands : ∀ alone, (Pattern.sequence ps .absent).stands alone = true := fun alone => by
    rw [stands_sequence, hps, hany]
    rfl
  have hvisible : (Pattern.sequence ps .absent).visible = true := by simp [visible, hany]
  have hword : (Count.absent.isAbsent && isWord ps) = true := by simp [Count.isAbsent, hw]
  have htext := wordText_judged each hw
  refine ⟨?_, ?_, ?_⟩
  · rw [topText, if_pos hword]
    exact htext.imp fun cs hcs => hcs.alone rfl (hstands true) fun _ _ => .patternSymbol
  · rw [memberText, if_pos hword, hstands, hvisible]
    exact htext.imp fun cs hcs => hcs.member
  · rw [argumentText, if_pos hword]
    exact htext.imp fun cs hcs => hcs.alone rfl (hstands true) fun _ _ => .argumentSymbol

/-- A sequence with a repeat count is a call. -/
theorem sequence_repeated (hn : n.IsFrom 0) (habs : n.isAbsent = false)
    (h : JudgedMembers (standsEach ps) (visibleAny ps) body) :
    Writes (sequenceText body >>= repeatedText n)
      (Judged (standsEach ps && visibleAny ps) (Means .command) (¬ Chained ·)) := by
  have honce : (Pattern.sequence ps .absent).stands true = (standsEach ps && visibleAny ps) := by simp [stands_sequence]
  refine (sequenceText_judged h).bind fun inner hinner => ?_
  rw [← honce] at hinner ⊢
  exact repeatedText_judged hn habs rfl (hinner.imp (fun ts hts => hts.imp fun _ => .argumentSequence) fun _ => id)

theorem sequence_alone {m : Nonterminal} (hn : n.IsFrom 0)
    (hsequence : ∀ ts q, Derives .sequence ts [q] → Derives m ts [q])
    (hcommand : ∀ ts q, Derives .command ts [q] → Derives m ts [q])
    (h : JudgedMembers (standsEach ps) (visibleAny ps) body) :
    Writes (sequenceText body >>= repeatedText n) (JudgedAlone m (.sequence ps n)) := by
  have hstands : (Pattern.sequence ps n).stands true = (standsEach ps && visibleAny ps) := by simp [stands_sequence]
  cases habs : n.isAbsent with
  | true =>
    refine (sequenceText_judged h).bind fun inner hinner => ?_
    rw [repeatedText, if_pos habs]
    exact .text rfl (hstands ▸ hinner.imp (fun ts hts => hts.imp (hsequence ts)) fun _ => id)
  | false => exact (sequence_repeated hn habs h).imp fun cs hcs => .text rfl (hstands ▸ hcs.means hcommand)

theorem inPlace_sequence (each : ∀ p ∈ ps, Notated p) (hn : n.IsFrom 0) (hw : ¬ (n.isAbsent && isWord ps) = true)
    (h : ∀ p ∈ ps, InPlace p) : InPlace (.sequence ps n) := by
  have hbody := bodyText_judged each (fun p hp => (h p hp).member) judgedMembers_nil
  rw [Bool.true_and, Bool.false_or] at hbody
  refine ⟨?_, ?_, ?_⟩
  · rw [topText, if_neg hw]
    exact hbody.bind fun body hb => sequence_alone hn (fun _ _ => .patternSequence) (fun _ _ => .patternCommand) hb
  · rw [memberText, if_neg hw, stands_sequence, visible]
    refine hbody.bind fun body hb => ?_
    cases habs : n.isAbsent with
    | true => simpa [Writes] using hb
    | false =>
      refine (sequence_repeated hn habs hb).imp fun cs hcs => ?_
      simpa using hcs.member fun _ _ => .memberCommand
  · rw [argumentText, if_neg hw]
    exact hbody.bind fun body hb => sequence_alone hn (fun _ _ => .argumentSequence) (fun _ _ => .argumentCommand) hb

/-- A command is a call, with its repeat count if it has one. -/
theorem command_judged {name : String} (hname : name ∈ keywords) (each : ∀ p ∈ args, Notated p) (hn : n.IsFrom 0)
    (h : ∀ p ∈ args, InPlace p) :
    Writes (argumentTexts args >>= fun parts => callText name args parts >>= repeatedText n)
      (Judged (standsArguments args) (Means .command) (¬ Chained ·)) := by
  refine (argumentTexts_judged fun p hp => (h p hp).argument).bind fun parts hparts => ?_
  have hcall := call_judged hname hparts
  have htext : callText name args parts = .ok (Text.call name.toList parts) := by
    rw [callText, argumentMisfit?_eq_none fun p hp => (each p hp).bare?_eq_none]
  rw [htext]
  cases habs : n.isAbsent with
  | true => simpa [Writes, Bind.bind, Except.bind, repeatedText, habs] using hcall
  | false =>
    have hargument : Judged ((Pattern.command name args .absent).stands true) (Means .argument) Broken
        (Text.call name.toList parts) := hcall.means fun _ _ => .argumentCommand
    exact repeatedText_judged hn habs rfl hargument

theorem inPlace_command {name : String} (hname : name ∈ keywords) (each : ∀ p ∈ args, Notated p) (hn : n.IsFrom 0)
    (h : ∀ p ∈ args, InPlace p) : InPlace (.command name args n) := by
  have htext := command_judged hname each hn h
  refine ⟨?_, ?_, ?_⟩
  · rw [topText]
    exact htext.imp fun cs hcs => .text rfl (hcs.means fun _ _ => .patternCommand)
  · rw [memberText]
    exact htext.imp fun cs hcs => hcs.member fun _ _ => .memberCommand
  · rw [argumentText]
    exact htext.imp fun cs hcs => .text rfl (hcs.means fun _ _ => .argumentCommand)

theorem Notated.inPlace (h : Notated p) : InPlace p := by
  induction h with
  | symbol hchar hn =>
    obtain hchar | rfl := hchar
    · exact inPlace_letter hchar hn
    · exact inPlace_mark _ _
  | @sequence ps n each hn ih =>
    by_cases hw : (n.isAbsent && isWord ps) = true
    · rw [Bool.and_eq_true] at hw
      obtain rfl := Count.eq_absent hw.1
      exact inPlace_word each hw.2
    · exact inPlace_sequence each hn hw ih
  | command hname each hn ih => exact inPlace_command hname each hn ih
  | elementCount => exact ⟨rfl, rfl, rfl⟩
  | reference h => exact ⟨rfl, rfl, .text rfl (spells_reference h).judged⟩

end Rosette.Pattern
