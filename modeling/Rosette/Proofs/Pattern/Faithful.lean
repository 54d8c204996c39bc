import Rosette.Proofs.Pattern.Depth
import Rosette.Proofs.Pattern.SolidMark

/-!
# Which written texts are read

The writer refuses what the grammar cannot express, but for the mark of a solid ring: it writes that everywhere, and
only where `stands` holds is the text read again. Main results: without the mark every text that is written is read
(`Notated.text_written`), with it exactly those are whose pattern stands (`parse_text_iff_stands`), and
`parse_text_of_hidden_sequence` is a sequence that has a text of the other sort.
-/

namespace Rosette.Pattern

open Token Writing

variable {p : Pattern} {ps args : List Pattern} {n : Count} {cs ds body inner : List Char} {ts us : List Token}

/-! ## Patterns without the mark -/

mutual

/-- Whether the mark stands nowhere in a pattern, and an element count has its number. -/
def unmarked : Pattern → Bool
  | .symbol char _ _ => char ≠ Stroke.solidMark
  | .sequence ps _ => unmarkedEach ps
  | .command _ args _ => unmarkedEach args
  | .elementCount p n => !n.isAbsent && unmarked p
  | _ => true

def unmarkedEach : List Pattern → Bool
  | [] => true
  | p :: ps => unmarked p && unmarkedEach ps

end

theorem unmarkedEach_iff : unmarkedEach ps = true ↔ ∀ p ∈ ps, p.unmarked = true := by
  induction ps with
  | nil => simp [unmarkedEach]
  | cons p ps ih => simp [unmarkedEach, ih]

/-- Whether a pattern stands wherever it has a text, and is not seen only where its text is empty. -/
structure StandsWritten (p : Pattern) : Prop where
  alone : Writes (topText p) (fun _ => p.stands true = true)
  member : Writes (memberText p) (fun cs => p.stands false = true ∧ (p.visible = false → cs = []))
  argument : Writes (argumentText p) (fun _ => p.stands true = true)

/-- What stands in any case. -/
theorem InPlace.standsWritten (h : InPlace p) (hstands : ∀ alone, p.stands alone = true) (hvisible : p.visible = true) :
    StandsWritten p :=
  ⟨h.alone.imp fun _ _ => hstands true, h.member.imp fun _ _ => ⟨hstands false, by simp [hvisible]⟩,
    h.argument.imp fun _ _ => hstands true⟩

theorem bodyText_written (each : ∀ p ∈ ps, Notated p) (h : ∀ p ∈ ps, StandsWritten p) (before : List Char) :
    Writes (bodyText before ps)
      (fun body => standsEach ps = true ∧ (before = [] → visibleAny ps = false → body = [])) := by
  induction ps generalizing before with
  | nil => exact ⟨rfl, fun hbefore _ => hbefore⟩
  | cons p ps ih =>
    rw [List.forall_mem_cons] at each h
    rw [bodyText, standsEach, visibleAny]
    refine h.1.member.bind fun t ht => ?_
    have hbehind : behind before p t = .ok (Writing.glue before t) := by
      rw [behind, each.1.bare?_eq_none]
    rw [hbehind]
    refine (ih each.2 h.2 _).imp fun body hbody => ⟨by rw [ht.1, hbody.1]; rfl, fun hbefore hhidden => ?_⟩
    rw [Bool.or_eq_false_iff] at hhidden
    exact hbody.2 (by rw [hbefore, ht.2 hhidden.1]; rfl) hhidden.2

theorem repeatedText_written (hn : n.IsFrom 0) (inner : List Char) : Writes (repeatedText n inner) (fun _ => True) := by
  unfold repeatedText
  split
  · trivial
  · rename_i habs
    exact (countText_judged hn (Bool.not_eq_true _ ▸ habs)).bind fun _ _ => trivial

/-- A sequence that has a text has members that are seen. -/
theorem sequence_written (hn : n.IsFrom 0)
    (hbody : standsEach ps = true ∧ (visibleAny ps = false → body = [])) (alone : Bool) :
    Writes (sequenceText body >>= repeatedText n) (fun _ => (Pattern.sequence ps n).stands alone = true) := by
  unfold sequenceText
  split
  · rfl
  · rename_i hne
    refine (repeatedText_written hn _).imp fun _ _ => ?_
    have hany : visibleAny ps = true := by
      by_contra hhidden
      exact hne (by rw [hbody.2 (Bool.not_eq_true _ ▸ hhidden)]; rfl)
    rw [stands_sequence, hbody.1, hany]
    rfl

theorem standsWritten_sequence (each : ∀ p ∈ ps, Notated p) (hn : n.IsFrom 0) (h : ∀ p ∈ ps, StandsWritten p) :
    StandsWritten (.sequence ps n) := by
  by_cases hw : (n.isAbsent && isWord ps) = true
  · rw [Bool.and_eq_true] at hw
    obtain rfl := Count.eq_absent hw.1
    obtain ⟨hps, hany⟩ := visibleAny_of_isWord each hw.2
    exact (inPlace_word each hw.2).standsWritten (fun alone => by rw [stands_sequence, hps, hany]; rfl)
      (by simp [visible, hany])
  have hbody := (bodyText_written each h []).imp fun body hb => And.imp_right (· rfl) hb
  refine ⟨?_, ?_, ?_⟩
  · rw [topText, if_neg hw]
    exact hbody.bind fun body hb => sequence_written hn hb true
  · rw [memberText, if_neg hw]
    refine hbody.bind fun body hb => ?_
    cases habs : n.isAbsent with
    | true => simpa [Writes, stands_sequence, visible, habs] using hb
    | false => exact (sequence_written hn hb false).imp fun _ hstands => ⟨hstands, by simp [visible, habs]⟩
  · rw [argumentText, if_neg hw]
    exact hbody.bind fun body hb => sequence_written hn hb true

theorem argumentTexts_written (h : ∀ p ∈ ps, StandsWritten p) :
    Writes (argumentTexts ps) (fun _ => standsArguments ps = true) := by
  induction ps with
  | nil => rfl
  | cons p ps ih =>
    rw [List.forall_mem_cons] at h
    rw [argumentTexts]
    refine h.1.argument.bind fun t ht => (ih h.2).bind fun ts hts => ?_
    cases ps with
    | nil => simp [Writes, standsArguments, ht]
    | cons => simp [Writes, standsArguments, ht, hts]

theorem standsWritten_command (name : String) (each : ∀ p ∈ args, Notated p) (hn : n.IsFrom 0)
    (h : ∀ p ∈ args, StandsWritten p) : StandsWritten (.command name args n) := by
  have htext : Writes (argumentTexts args >>= fun parts => callText name args parts >>= repeatedText n)
      (fun _ => standsArguments args = true) := by
    refine (argumentTexts_written h).bind fun parts hargs => ?_
    rw [callText, argumentMisfit?_eq_none fun p hp => (each p hp).bare?_eq_none]
    exact (repeatedText_written hn _).imp fun _ _ => hargs
  refine ⟨?_, ?_, ?_⟩
  · rw [topText, stands]
    exact htext
  · rw [memberText, stands]
    exact htext.imp fun _ hargs => ⟨hargs, by simp [visible]⟩
  · rw [argumentText, stands]
    exact htext

theorem Notated.standsWritten (h : Notated p) (hp : p.unmarked = true) : StandsWritten p := by
  induction h with
  | symbol hchar hn =>
    simp only [unmarked, decide_eq_true_eq] at hp
    exact (Notated.symbol hchar hn).inPlace.standsWritten (fun alone => by simp [stands, hp]) (by simp [visible, hp])
  | sequence each hn ih =>
    rw [unmarked, unmarkedEach_iff] at hp
    exact standsWritten_sequence each hn fun p hmem => ih p hmem (hp p hmem)
  | command _ each hn ih =>
    rw [unmarked, unmarkedEach_iff] at hp
    exact standsWritten_command _ each hn fun p hmem => ih p hmem (hp p hmem)
  | elementCount => exact ⟨rfl, rfl, rfl⟩
  | reference h => exact (Notated.reference h).inPlace.standsWritten (fun _ => rfl) rfl

/-! ## Whole patterns -/

theorem not_derives_of_broken {m : Nonterminal} (h : Broken ts) (hm : m ≠ .arguments) : ¬ Means m ts := by
  rintro ⟨q, hd⟩
  obtain h | ⟨t, ht, hk⟩ := h
  · exact h hd.linked.chained
  · have hend := hd.linked.ends t ht
    rw [hk] at hend
    cases m <;> cases hend

theorem JudgedAlone.plain (h : JudgedAlone .pattern p cs) :
    Judged (p.stands true) (Means .topLevel) (¬ Means .topLevel ·) cs := by
  cases h with
  | mark _ silent unquoted hidden =>
    refine ⟨unquoted, fun hok => ?_, fun _ l ⟨q, hd⟩ => ?_⟩
    · rw [silent] at hok
      cases hok
    · exact hd.ne_nil (by simp) (by simp) (hidden l)
  | text _ judged =>
    exact judged.imp (fun ts hts => hts.imp fun _ => .plain) fun ts hts => not_derives_of_broken hts (by simp)

theorem scan_counted (hq : openQuote none cs = none) (ds : List Char) (l : Location) :
    ∃ (colon : Token) (l' : Location), colon.kind = .colon ∧
      (scan l (cs ++ ':' :: ds)).1 = (scan l cs).1 ++ colon :: (scan l' ds).1 := by
  rw [scan_append hq (.of_head (by simp)), scan_mark (k := .colon) rfl]
  exact ⟨_, _, rfl, rfl⟩

/-- A pattern with an element count is read if the pattern is. -/
theorem JudgedAlone.counted {k : Nat} (h : JudgedAlone .pattern p cs) (hk : Numeral.fits k = true) :
    Judged (p.stands true) (Means .topLevel) (¬ Means .topLevel ·) (cs ++ ':' :: Numeral.digits k) := by
  have hdigits : ∀ c ∈ Numeral.digits k, c ≠ '"' ∧ c ≠ '\'' := fun c hc =>
    IsTextChar.not_quote (.inl ((Numeral.isRun_digits k).isAlphanum c hc))
  have hscan := scan_counted (openQuote_of_plain h.unquoted) (Numeral.digits k)
  refine ⟨List.forall_mem_append.2 ⟨h.unquoted, List.forall_mem_cons.2 ⟨by decide, hdigits⟩⟩, fun hok l => ?_,
    fun hok l => ?_⟩
  · obtain ⟨colon, l', hcolon, hl⟩ := hscan l
    rw [hl, scan_number (Numeral.isRun_digits k)]
    cases h with
    | mark _ silent =>
      rw [silent] at hok
      cases hok
    | text _ judged =>
      obtain ⟨q, hd⟩ := judged.good hok l
      exact ⟨_, .counted hd hcolon rfl (by rw [String.toList_ofList, Numeral.read_digits hk])⟩
  · obtain ⟨colon, l', hcolon, hl⟩ := hscan l
    rw [hl]
    rintro ⟨q, hd⟩
    cases h with
    | mark _ _ _ hidden =>
      have hbegin := hd.linked.begins colon (by rw [hidden]; rfl)
      rw [hcolon] at hbegin
      cases hbegin
    | text _ judged => exact (judged.bad hok l).not_chained (by simp [hcolon]) hd.linked.chained

/-- Where the number of an element count is missing, its place is taken by a word. -/
theorem JudgedAlone.uncounted (h : JudgedAlone .pattern p cs) :
    Judged false (Means .topLevel) (¬ Means .topLevel ·) (cs ++ ':' :: "None".toList) := by
  have hword : IsWord "None".toList := ⟨⟨'N', ['o', 'n', 'e'], rfl, rfl⟩, List.all_eq_true.1 (by decide)⟩
  refine ⟨List.forall_mem_append.2 ⟨h.unquoted, by simp⟩, nofun, fun _ l => ?_⟩
  obtain ⟨colon, l', hcolon, hl⟩ := scan_counted (openQuote_of_plain h.unquoted) "None".toList l
  rw [hl, scan_word hword]
  rintro ⟨q, hd⟩
  obtain ⟨hfollow, -⟩ := chained_cons.1 (chained_append.1 hd.linked.chained).2.1
  have hnumber := hfollow _ rfl
  rw [hcolon] at hnumber
  dsimp only at hnumber
  split at hnumber <;> cases hnumber

/-- The text of a whole pattern derives one if the pattern stands, and otherwise none. -/
theorem Notated.text_judged (h : Notated p) :
    Writes p.text (Judged (p.stands true) (Means .topLevel) (¬ Means .topLevel ·)) := by
  cases h with
  | @elementCount q n h hn =>
    rw [text, stands]
    refine h.inPlace.alone.bind fun cs hcs => ?_
    cases habs : n.isAbsent with
    | true =>
      obtain rfl := Count.eq_absent habs
      exact hcs.uncounted
    | false =>
      refine (countText_judged hn habs).bind fun ds hds => ?_
      obtain ⟨k, -, hk, rfl⟩ := hds
      exact hcs.counted hk
  | symbol hchar hn => exact (Notated.symbol hchar hn).inPlace.alone.imp fun _ => JudgedAlone.plain
  | sequence each hn => exact (Notated.sequence each hn).inPlace.alone.imp fun _ => JudgedAlone.plain
  | command hname each hn => exact (Notated.command hname each hn).inPlace.alone.imp fun _ => JudgedAlone.plain
  | reference h => exact (Notated.reference h).inPlace.alone.imp fun _ => JudgedAlone.plain

/-- **Without the mark every text that is written is read.** -/
theorem Notated.text_written (h : Notated p) (hp : p.unmarked = true) :
    Writes p.text (fun _ => p.stands true = true) := by
  cases h with
  | @elementCount q n h hn =>
    rw [unmarked, Bool.and_eq_true, Bool.not_eq_true'] at hp
    rw [text, stands, hp.1]
    exact (h.standsWritten hp.2).alone.bind fun cs hcs => (countText_judged hn hp.1).bind fun ds _ => hcs
  | symbol hchar hn => exact ((Notated.symbol hchar hn).standsWritten hp).alone
  | sequence each hn => exact ((Notated.sequence each hn).standsWritten hp).alone
  | command hname each hn => exact ((Notated.command hname each hn).standsWritten hp).alone
  | reference h => exact ((Notated.reference h).standsWritten hp).alone

theorem derives_of_parse {limit : Int} {source : String} (h : parse ⟨limit, false⟩ source = .ok p) :
    Derives .topLevel (scan .start source.toList).1 [p] := by
  obtain ⟨rest, hrun⟩ := parse_eq_ok.1 h
  obtain ⟨q, mid, -, -, htrailing | rfl⟩ := readTopLevel_eq_ok.1 hrun
  · cases htrailing
  obtain ⟨used, hused, hd, -⟩ := sound_topLevel hrun
  rwa [hused, List.append_nil]

/-- **Where the writer gives a text that is read.** A pattern in the letters of the notation and the mark is refused, or
has a text. The text is read to its end, under any limit not below its length, exactly if the pattern stands; and a
pattern with a text stands if the mark is not in it and no number is missing from an element count. -/
theorem parse_text_iff_stands (h : Notated p) :
    (∃ f, p.textValue = .error f ∧ f.isRefusal = true) ∨
      ∃ t : String, p.textValue = .ok (.text t) ∧
        (∀ limit : Int, t.length ≤ limit → ((∃ q, parse ⟨limit, false⟩ t = .ok q) ↔ p.stands true = true)) ∧
        (p.unmarked = true → p.stands true = true) := by
  have hjudged := h.text_judged
  have hvalue : p.textValue = p.text.map fun t => .text (.ofList t) := by
    rw [textValue, h.bare?_eq_none]
  rw [hvalue]
  cases hr : p.text with
  | error f =>
    rw [hr] at hjudged
    exact .inl ⟨f, rfl, hjudged⟩
  | ok cs =>
    rw [hr] at hjudged
    have hunmarked (hp : p.unmarked = true) : p.stands true = true := by
      have hwritten := h.text_written hp
      rwa [hr] at hwritten
    refine .inr ⟨String.ofList cs, rfl, fun limit hlimit => ⟨?_, fun hok => ?_⟩, hunmarked⟩
    · rintro ⟨q, hq⟩
      by_contra hnot
      exact hjudged.bad (Bool.not_eq_true _ ▸ hnot) .start ⟨q, by simpa using derives_of_parse hq⟩
    · obtain ⟨q, hd⟩ := hjudged.good hok .start
      have hle := hd.nestingEach_le
      have hscan := length_scan_le .start cs
      simp only [nestingEach, String.length_ofList] at hle hlimit
      have hroom : Fits limit 0 q.nesting := .inr (by omega)
      refine ⟨q, parse_eq_ok.2 ⟨[], ?_⟩⟩
      rw [String.toList_ofList]
      exact readTopLevel_of_derives hd hroom false

theorem parse_text_iff_stands_mark :
    (∃ q, parse ⟨3, false⟩ "$-d" = .ok q) ∧ ¬ ∃ q, parse ⟨9, false⟩ "mir(-, d)" = .ok q := by
  have hmark : Notated solid := .symbol (.inr rfl) (.inl rfl)
  have hd : Notated (.symbol "d" false .absent) := .symbol (.inl (by decide)) (.inl rfl)
  have hsequence : Notated (.sequence [solid, .symbol "d" false .absent] .absent) :=
    .sequence (by simp [hmark, hd]) (.inl rfl)
  have hcall : Notated (.command "mir" [solid, .symbol "d" false .absent] .absent) :=
    .command (by decide) (by simp [hmark, hd]) (.inl rfl)
  have hsequenceText : (Pattern.sequence [solid, .symbol "d" false .absent] .absent).textValue = .ok (.text "$-d") := by
    with_unfolding_all rfl
  have hcallText : (Pattern.command "mir" [solid, .symbol "d" false .absent] .absent).textValue =
      .ok (.text "mir(-, d)") := by with_unfolding_all rfl
  constructor
  · obtain ⟨f, hf, -⟩ | ⟨t, ht, hread, -⟩ := parse_text_iff_stands hsequence
    · rw [hsequenceText] at hf
      cases hf
    · rw [hsequenceText] at ht
      cases ht
      exact (hread 3 (by decide)).2 (by decide)
  · obtain ⟨f, hf, -⟩ | ⟨t, ht, hread, -⟩ := parse_text_iff_stands hcall
    · rw [hcallText] at hf
      cases hf
    · rw [hcallText] at ht
      cases ht
      rw [hread 9 (by decide)]
      decide

/-- A sequence of nothing but the mark has a text, and no limit on nesting makes it one that is read. -/
theorem parse_text_of_hidden_sequence :
    Notated (.sequence [solid] .absent) ∧ (Pattern.sequence [solid] .absent).textValue = .ok (.text "$-") ∧
      ∀ (limit : Int) (q : Pattern), parse ⟨limit, false⟩ "$-" ≠ .ok q := by
  have hmark : Notated solid := .symbol (.inr rfl) (.inl rfl)
  refine ⟨.sequence (by simp [hmark]) (.inl rfl), by with_unfolding_all rfl, fun limit q hq => ?_⟩
  have htokens : (scan .start "$-".toList).1 = [⟨.dollar, "$", ⟨1, 1, 0⟩⟩] := by decide +kernel
  have hd := derives_of_parse hq
  rw [htokens] at hd
  exact not_derives_of_broken (.inr ⟨_, rfl, rfl⟩) (by simp) ⟨q, hd⟩

end Rosette.Pattern
