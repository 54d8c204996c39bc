import Rosette.Proofs.Document.RoundTrip
import Rosette.Proofs.Document.Unread
import Rosette.Proofs.Pattern.Counts

/-!
# Every text has an answer

Whoever asks for the pattern of a text, for its row or for a document gets an answer: what was asked for, or one
diagnostic. A fault that is not reported escapes, and then there is no answer. Two things escape, and both are numbers:
one with too many digits to be read, and, on the way to a row, a count that does not fit into a word. Where the text has
no such number there is always an answer; with one there may be none, and the shortest texts with one have none.

A message shows one number of the settings, the limit on nesting, and is written only if that is not too long itself.

Main result: `answered_of_shortRuns`.
-/

namespace Rosette

open Text

variable {φ α : Type} {written : φ → Bool} {report? : φ → Option Diagnostic} {r : Except φ α} {s : Settings}
  {source : String} {ds : List Char}

/-- What comes of a run for whoever asked for it: the value, or the diagnostic of the fault, if its message can be
written and it is reported. Otherwise there is no answer. -/
def answerOf? (written : φ → Bool) (report? : φ → Option Diagnostic) : Except φ α → Option (Except Diagnostic α)
  | .ok a => some (.ok a)
  | .error f => if written f then (report? f).map .error else none

theorem isSome_answerOf? (h : ∀ f, r = .error f → written f = true ∧ (report? f).isSome = true) :
    (answerOf? written report? r).isSome = true := by
  cases r with
  | ok a => rfl
  | error f =>
    obtain ⟨hwritten, hreport⟩ := h f rfl
    simpa [answerOf?, hwritten] using hreport

/-! ## Answers about patterns -/

namespace Pattern

/-- Whether the numbers in the message of a cause can be written. -/
def Cause.isWritten : Cause → Bool
  | .tooDeep limit => Numeral.fits limit
  | _ => true

def Fault.isWritten : Fault → Bool
  | .problem p => p.cause.isWritten
  | .numeral _ => true

def RowFault.isWritten : RowFault → Bool
  | .reading f => f.isWritten
  | .expansion (.tooDeep limit) => Numeral.fits limit
  | .expansion _ => true

/-- The answer to a request for the pattern of a text. -/
def answer? (s : Settings) (source : String) : Option (Except Diagnostic Pattern) :=
  answerOf? Fault.isWritten Fault.diagnostic? (parse s source)

/-- The answer to a request for the pattern of a text and its row. -/
def rowAnswer? (s : Settings) (source : String) : Option (Except Diagnostic (Pattern × List Stroke)) :=
  answerOf? RowFault.isWritten RowFault.diagnostic? (parseRow s source)

theorem isWritten_of_parse {f : Fault} (hlimit : Numeral.fits s.maxDepth = true) (h : parse s source = .error f) :
    f.isWritten = true := by
  match f with
  | .problem ⟨.tooDeep m, l⟩ => exact tooDeep_of_parse h ▸ hlimit
  | .numeral _ => rfl
  | .problem ⟨.unexpected _, _⟩ | .problem ⟨.expected _ _, _⟩ | .problem ⟨.emptySequence, _⟩
  | .problem ⟨.missingComma, _⟩ | .problem ⟨.badName _, _⟩ | .problem ⟨.badArgument _, _⟩
  | .problem ⟨.trailing _, _⟩ => rfl

/-- What escapes from reading a text is a number that is not read. -/
theorem reported_of_parse {f : Fault} (hlimit : Numeral.fits s.maxDepth = true) (hruns : ShortRuns source.toList)
    (h : parse s source = .error f) : f.isWritten = true ∧ f.diagnostic?.isSome = true := by
  refine ⟨isWritten_of_parse hlimit h, ?_⟩
  cases f with
  | problem p => rfl
  | numeral f => exact absurd hruns (not_shortRuns_of_parse h)

theorem parseRow_eq_error {f : RowFault} (h : parseRow s source = .error f) :
    (∃ g, f = .reading g ∧ parse s source = .error g) ∨
      ∃ g p, f = .expansion g ∧ parse s source = .ok p ∧ expand s.maxDepth p = .error g := by
  unfold parseRow at h
  split at h
  · rename_i hp
    cases h
    exact .inl ⟨_, rfl, hp⟩
  · rename_i p hp
    split at h
    · rename_i hf
      cases h
      exact .inr ⟨_, p, rfl, hp, hf⟩
    · cases h

/-- What escapes on the way to a row is a number that is not read, or one that does not fit into a word. -/
theorem reported_of_parseRow {f : RowFault} (hlimit : Numeral.fits s.maxDepth = true)
    (hruns : ShortRuns source.toList) (hcounts : ∀ k, IsValueIn source.toList k → Repetition.fits k = true)
    (h : parseRow s source = .error f) : f.isWritten = true ∧ f.diagnostic?.isSome = true := by
  obtain ⟨g, rfl, hg⟩ | ⟨g, p, rfl, hp, hg⟩ := parseRow_eq_error h
  · exact reported_of_parse hlimit hruns hg
  · obtain hrefusal | ⟨rfl, k, hk, hover⟩ := fault_of_expand hp hg
    · cases g with
      | tooDeep | overflow | misfit => cases hrefusal
      | _ => exact ⟨rfl, rfl⟩
    · rw [hcounts k hk] at hover
      cases hover

/-- A stroke letter with digits behind it is read as their number. -/
theorem parse_letter (h : IsRun ds) : parse s (String.ofList ('d' :: ds)) =
    match Numeral.read ds with
    | .error f => .error (.numeral f)
    | .ok k => .ok (.symbol "d" false (.times k)) := by
  have hword : Token.IsWord ('d' :: ds) := ⟨⟨'d', ds, rfl, rfl⟩, List.forall_mem_cons.2 ⟨rfl, h.isAlphanum⟩⟩
  have hkeyword : Token.isKeyword ('d' :: ds) = false :=
    isKeyword_eq_false (List.forall_mem_cons.2 ⟨.inr rfl, fun c hc => .inl (h.digits c hc)⟩)
  have htokens := Token.scan_word hword .start
  rw [hkeyword] at htokens
  have hdigits : ∀ c ∈ ds, isDigit c = true := fun c hc => by simp [isDigit, h.decimal c hc]
  have hsymbols : wordSymbols ('d' :: ds) =
      match Numeral.read ds with
      | .error f => .error f
      | .ok k => .ok [.symbol "d" false (.times k)] := by
    have hletter : Stroke.ofChar? 'd' = some ⟨"d", false⟩ := rfl
    have hrest : ds.dropWhile isDigit = [] := List.dropWhile_eq_nil_iff.2 hdigits
    rw [wordSymbols, hletter, List.takeWhile_eq_self_iff.2 hdigits, hrest, wordSymbols, countOfDigits,
      if_neg (by simpa using h.ne_nil)]
    cases Numeral.read ds <;> rfl
  have hread : ofWord ('d' :: ds) =
      match Numeral.read ds with
      | .error f => .error f
      | .ok k => .ok (.symbol "d" false (.times k)) := by
    rw [ofWord, hsymbols]
    cases Numeral.read ds <;> rfl
  simp only [parse, Reader.run, Reader.ofSource, String.toList_ofList, htokens]
  cases hnumber : Numeral.read ds with
  | error f => simp [readTopLevel, readPattern, readWord, String.toList_ofList, hread, hnumber]
  | ok k => simp [readTopLevel, readPattern, readWord, readCount, String.toList_ofList, hread, hnumber, isSequence]

/-- A letter with too many digits behind it has no answer. -/
theorem answer?_letter (h : IsRun ds) (hlong : Numeral.digitLimit < ds.length) :
    answer? s (String.ofList ('d' :: ds)) = none ∧ rowAnswer? s (String.ofList ('d' :: ds)) = none := by
  have hparse : parse s (String.ofList ('d' :: ds)) = .error (.numeral .tooLong) := by
    rw [parse_letter h, Numeral.read_tooLong h.decimal hlong]
  rw [answer?, rowAnswer?, parseRow, hparse]
  exact ⟨rfl, rfl⟩

/-- A limit that cannot be written makes a message that cannot be written. -/
theorem answer?_of_limit (hlimit : Numeral.fits s.maxDepth = false) (hlow : s.maxDepth < 1) :
    answer? s "$d" = none ∧ rowAnswer? s "$d" = none := by
  have htokens : (Token.scan .start "$d".toList).1 =
      [⟨.dollar, "$", ⟨1, 1, 0⟩⟩, ⟨.symbol, "d", ⟨1, 2, 1⟩⟩] := by decide +kernel
  have hparse : parse s "$d" = .error (.problem ⟨.tooDeep s.maxDepth, ⟨1, 1, 0⟩⟩) := by
    simp only [parse, Reader.run, Reader.ofSource, htokens]
    simp [readTopLevel, readPattern, readSequence, Bounds.full, Bounds.haltDeep, hlow]
  rw [answer?, rowAnswer?, parseRow, hparse]
  simp [answerOf?, Fault.isWritten, RowFault.isWritten, Cause.isWritten, hlimit]

/-- A letter with a number that is read has a row if the number fits into a word. -/
theorem isSome_rowAnswer?_letter (h : IsRun ds) (hle : ds.length ≤ Numeral.digitLimit) :
    (rowAnswer? s (String.ofList ('d' :: ds))).isSome = Repetition.fits (decimalValue ds) := by
  have hparse : parse s (String.ofList ('d' :: ds)) = .ok (.symbol "d" false (.times (decimalValue ds))) := by
    rw [parse_letter h, Numeral.read_of_isDigit h.digits hle]
  have hexpand : expand s.maxDepth (.symbol "d" false (.times (decimalValue ds))) =
      Expansion.repeated (decimalValue ds) [⟨"d", false⟩] := rfl
  rw [rowAnswer?, parseRow, hparse]
  dsimp only
  rw [hexpand, Expansion.repeated, Repetition.copies?]
  cases Repetition.fits (decimalValue ds) <;> rfl

end Pattern

/-! ## Answers about documents -/

namespace Document

variable {l : Line} {sec? : Option Section} {p : Problem} {n : Note}

/-- Whether the numbers in the message of a cause can be written. -/
def Cause.isWritten : Cause → Bool
  | .pattern cause => cause.isWritten
  | _ => true

def Fault.isWritten : Fault → Bool
  | .problem p => p.cause.isWritten
  | .numeral _ => true

def Note.isWritten : Note → Bool
  | .droppedRing _ cause => cause.isWritten
  | _ => true

/-- The answer to a request for the document of a source. The messages about lines that are passed over have to be
written on the way. -/
def answer? (s : Settings) (source : String) : Option (Except Diagnostic Document) :=
  let (result, _, notes) := (Reader.ofSource source).run s
  if notes.all Note.isWritten then answerOf? Fault.isWritten Fault.diagnostic? result else none

theorem Refusal.isWritten (hlimit : Numeral.fits s.maxDepth = true) (h : Refusal s l sec? p) :
    p.cause.isWritten = true := by
  cases h with
  | ring | definition | colorLine | color => rfl
  | pattern ht hq => exact Pattern.isWritten_of_parse hlimit hq

/-- What escapes from reading a document is a number that is not read. -/
theorem reported_of_parse {f : Fault} (hlimit : Numeral.fits s.maxDepth = true)
    (hruns : Numeral.ShortDecimals source.toList) (h : parse s source = .error f) :
    f.isWritten = true ∧ f.diagnostic?.isSome = true := by
  cases f with
  | problem p =>
    obtain ⟨sec?, l, -, hfault⟩ := exists_fault_of_parse h
    exact ⟨(refusal_of_lineFault? hfault).isWritten hlimit, rfl⟩
  | numeral f => exact absurd h (parse_ne_numeral hruns f)

/-! ### Notes -/

theorem isWritten_of_mem_dotLine {dot : Dot} (h : n ∈ (dotLine dot l).2) : n.isWritten = true := by
  unfold dotLine at h
  split at h
  · cases List.mem_singleton.1 h
    rfl
  · dsimp only at h
    split at h
    · split at h
      · cases List.mem_singleton.1 h
        rfl
      · cases h
    · cases h
    · cases h
    · cases List.mem_singleton.1 h
      rfl

theorem isWritten_of_mem_looseLine {d : Document} (hlimit : Numeral.fits s.maxDepth = true)
    (h : n ∈ (looseLine s d l).notes) : n.isWritten = true := by
  unfold looseLine at h
  split at h
  · cases h
  · rename_i hring
    cases List.mem_singleton.1 h
    obtain ⟨t, ht, hpattern⟩ := problem_of_ringOf hring
    exact (Refusal.of_patternOf hpattern ht).isWritten hlimit
  · cases List.mem_singleton.1 h
    rfl
  · cases h

theorem isWritten_of_mem_passLine {d : Document} (hlimit : Numeral.fits s.maxDepth = true)
    (h : n ∈ (passLine s sec? d l).notes) : n.isWritten = true := by
  unfold passLine at h
  split at h
  · cases h
  · split at h
    · cases h
    · split at h
      · cases h
      · rcases sec? with - | _ | _ | _ | _ | _
        · exact isWritten_of_mem_looseLine hlimit h
        · unfold entryLine ringLine at h
          dsimp only at h
          split at h <;> cases h
        · exact isWritten_of_mem_dotLine h
        · cases h
        · unfold entryLine variableLine at h
          dsimp only at h
          split at h
          · cases h
          · split at h <;> cases h
        · unfold entryLine paletteLine at h
          dsimp only at h
          split at h
          · cases h
          · split at h <;> cases h

theorem isWritten_of_mem_pass {d : Document} {ls : List Line} (hlimit : Numeral.fits s.maxDepth = true)
    (h : n ∈ (pass s sec? d ls).notes) : n.isWritten = true := by
  induction ls generalizing sec? d with
  | nil => cases h
  | cons l ls ih =>
    rw [pass] at h
    cases hfault : (passLine s sec? d l).fault? with
    | some fault =>
      rw [andThen_of_some hfault] at h
      exact isWritten_of_mem_passLine hlimit h
    | none =>
      rw [andThen_of_none hfault] at h
      rcases List.mem_append.1 h with h | h
      · exact isWritten_of_mem_passLine hlimit h
      · exact ih h

theorem isWritten_of_mem_run (hlimit : Numeral.fits s.maxDepth = true)
    (h : n ∈ ((Reader.ofSource source).run s).2.2) : n.isWritten = true := by
  have hnotes := (readLines_agree s {} (Line.ofSource source.toList)).notes
  unfold Reader.run Reader.ofSource at h
  dsimp only at h
  rw [hnotes] at h
  split at h
  · exact isWritten_of_mem_pass hlimit h
  · rcases List.mem_append.1 h with h | h
    · exact isWritten_of_mem_pass hlimit h
    · cases List.mem_singleton.1 h
      rfl

theorem isSome_answer?_of_shortDecimals (hlimit : Numeral.fits s.maxDepth = true)
    (hruns : Numeral.ShortDecimals source.toList) : (answer? s source).isSome = true := by
  have hnotes : ((Reader.ofSource source).run s).2.2.all Note.isWritten = true :=
    List.all_eq_true.2 fun _ => isWritten_of_mem_run hlimit
  unfold answer?
  dsimp only
  rw [if_pos hnotes]
  exact isSome_answerOf? fun _ => reported_of_parse hlimit hruns

/-! ### A ring with too large a count -/

/-- A ring of one stroke whose count has these digits. -/
def ringText (ds : List Char) : List Char := 'O' :: call [] [['1'], ds] ++ [':', ' ', 'd']

theorem isEntry_ringText (h : IsRun ds) : IsEntry (ringText ds) := by
  have hfeed : '\n' ∉ [',', ' '].intercalate [['1'], ds] := by
    refine feed_not_mem_intercalate ?_
    simp [feed_not_mem_of_isAlphanum h.isAlphanum]
  have hcall : IsPhrase (call ['O'] [['1'], ds]) := isPhrase_call (by simp) (.of_check (by decide)) (by decide) hfeed
  have hpattern : IsPhrase ['d'] := isPhrase_singleton (by decide)
  have hentry := IsEntry.append (hcall.append (isPhrase_singleton (c := ':') (by decide))) (by simp [call]) hpattern
  simpa [ringText, call] using hentry

/-- A line by itself is read as a loose one. -/
theorem parse_of_isEntry {cs : List Char} {f : Fault} (h : IsEntry cs)
    (hloose : ∀ l, l.text = cs → (looseLine s {} l).fault? = some f) : parse s (String.ofList cs) = .error f := by
  have hlines : Line.ofSource cs = [Line.ofRaw 1 0 cs] := by
    have hsplit : splitAtChar '\n' (['\n'].intercalate [cs]) = [cs] :=
      splitAtChar_intercalate (by simp) (by simpa using h.phrase.unbroken)
    rw [List.intercalate_singleton] at hsplit
    rw [Line.ofSource, hsplit]
    rfl
  have htext : (Line.ofRaw 1 0 cs).text = cs := h.phrase.trimmed.trim_eq
  obtain ⟨he, hsec⟩ := continues_iff.1 (IsEntry.continues (l := Line.ofRaw 1 0 cs) (by rwa [htext]))
  have hc : (Line.ofRaw 1 0 cs).isComment = false := IsEntry.isComment (by rwa [htext])
  have hfault := hloose (Line.ofRaw 1 0 cs) htext
  rw [parse_eq_result, String.toList_ofList, hlines, pass_entry he hsec hc, entryLine, andThen_of_some hfault,
    Outcome.result, hfault]

theorem parse_ringText (h : IsRun ds) (hlong : Numeral.digitLimit < ds.length) :
    parse s (String.ofList (ringText ds)) = .error (.numeral .tooLong) := by
  refine parse_of_isEntry (isEntry_ringText h) fun l hl => ?_
  have hone : splitRadius? ['1'] = some (['1'], []) := rfl
  have hpattern : IsPhrase ['d'] := isPhrase_singleton (by decide)
  obtain ⟨form, hform, hradius, hcount, -⟩ := ringForm?_text hone h hpattern
  obtain ⟨x, hvalue⟩ : ∃ x, Binary64.ofNumeral? ['1'] = some x := ⟨_, rfl⟩
  have hring : ringOf s l = .error (.numeral .tooLong) := by
    unfold ringOf
    rw [hl, ringText, hform]
    dsimp only
    rw [hradius, hvalue, hcount, Numeral.read_tooLong h.decimal hlong]
  rw [looseLine, hring]
  rfl

/-- A ring whose count has too many digits has no answer, not even outside the sections. -/
theorem answer?_ringText (h : IsRun ds) (hlong : Numeral.digitLimit < ds.length) :
    answer? s (String.ofList (ringText ds)) = none := by
  have hparse : ((Reader.ofSource (String.ofList (ringText ds))).run s).1 = .error (.numeral .tooLong) :=
    parse_ringText h hlong
  unfold answer?
  dsimp only
  rw [hparse]
  exact ite_self none

end Document

/-! ## Texts with and without an answer -/

theorem letterText_eq (ds : List Char) : "d" ++ String.ofList ds = String.ofList ('d' :: ds) := by
  rw [← String.toList_inj]
  simp

theorem ringText_eq (ds : List Char) :
    "O(1, " ++ String.ofList ds ++ "): d" = String.ofList (Document.ringText ds) := by
  rw [← String.toList_inj]
  simp [Document.ringText, call, List.intercalate]

/-- **Where the numbers are short there is always an answer.** If the limit can be written, a text has an answer where
none of its runs of digits is too long, and an answer about its row where moreover the values of its digits fit into a
word; a source has one as a document where none of its runs of digits of any script is too long. With a longer run there
may be no answer, a count that does not fit into a word escapes on the way to a row, and so does a message with a limit
that cannot be written. -/
theorem answered_of_shortRuns (s : Settings) (source : String) :
    (Numeral.fits s.maxDepth = true →
      (Pattern.ShortRuns source.toList → (Pattern.answer? s source).isSome = true) ∧
        (Pattern.ShortRuns source.toList → (∀ k, Pattern.IsValueIn source.toList k → Repetition.fits k = true) →
          (Pattern.rowAnswer? s source).isSome = true) ∧
        (Numeral.ShortDecimals source.toList → (Document.answer? s source).isSome = true)) ∧
      (∀ ds, IsRun ds → Numeral.digitLimit < ds.length →
        Pattern.answer? s ("d" ++ String.ofList ds) = none ∧ Pattern.rowAnswer? s ("d" ++ String.ofList ds) = none ∧
          Document.answer? s ("O(1, " ++ String.ofList ds ++ "): d") = none) ∧
      (∀ ds, IsRun ds → ds.length ≤ Numeral.digitLimit →
        (Pattern.rowAnswer? s ("d" ++ String.ofList ds)).isSome = Repetition.fits (decimalValue ds)) ∧
      (Numeral.fits s.maxDepth = false → s.maxDepth < 1 →
        Pattern.answer? s "$d" = none ∧ Pattern.rowAnswer? s "$d" = none) := by
  refine ⟨?_, ?_, ?_, Pattern.answer?_of_limit⟩
  · intro hlimit
    refine ⟨?_, ?_, Document.isSome_answer?_of_shortDecimals hlimit⟩
    · intro hruns
      exact isSome_answerOf? fun _ => Pattern.reported_of_parse hlimit hruns
    · intro hruns hcounts
      exact isSome_answerOf? fun _ => Pattern.reported_of_parseRow hlimit hruns hcounts
  · intro ds hds hlong
    obtain ⟨hpattern, hrow⟩ := Pattern.answer?_letter (s := s) hds hlong
    rw [letterText_eq, ringText_eq]
    exact ⟨hpattern, hrow, Document.answer?_ringText hds hlong⟩
  · intro ds hds hle
    rw [letterText_eq]
    exact Pattern.isSome_rowAnswer?_letter hds hle

theorem answered_of_shortRuns_word :
    Numeral.fits ({} : Settings).maxDepth = true ∧ (Pattern.answer? {} "$d2h").isSome = true ∧
      (Pattern.rowAnswer? {} "$d2h").isSome = true ∧ (Document.answer? {} "$d2h").isSome = true := by
  have hlimit : Numeral.fits ({} : Settings).maxDepth = true := by decide
  have hruns : Pattern.ShortRuns "$d2h".toList := fun ds h _ => h.length_le.trans (by decide)
  have hcounts : ∀ k, Pattern.IsValueIn "$d2h".toList k → Repetition.fits k = true := by
    rintro k ⟨ds, hds, -, rfl⟩
    have hlength : ds.length ≤ 4 := hds.length_le
    have hlt := Nat.lt_of_lt_of_le (decimalValue_lt ds) (Nat.pow_le_pow_right (by decide) hlength)
    have hpow : Nat.pow 10 4 = 10000 := rfl
    simp only [Repetition.fits, Bool.and_eq_true, decide_eq_true_eq]
    omega
  obtain ⟨hpattern, hrow, hdocument⟩ := (answered_of_shortRuns {} "$d2h").1 hlimit
  exact ⟨hlimit, hpattern hruns, hrow hruns hcounts, hdocument fun ds h _ => h.length_le.trans (by decide)⟩

/-- Not every text has an answer. -/
theorem unanswered_of_long_numbers :
    Pattern.answer? {} ("d" ++ String.ofList (List.replicate 4301 '1')) = none ∧
      Pattern.rowAnswer? {} "d9223372036854775808" = none ∧
      Document.answer? {} ("O(1, " ++ String.ofList (List.replicate 4301 '1') ++ "): d") = none := by
  have hlong : Numeral.digitLimit < (List.replicate 4301 '1').length := by
    rw [List.length_replicate]
    decide
  have hones : IsRun (List.replicate 4301 '1') :=
    ⟨List.ne_nil_of_length_pos (Nat.zero_lt_of_lt hlong), fun c hc => by rw [List.eq_of_mem_replicate hc]; rfl⟩
  have hword : IsRun "9223372036854775808".toList := ⟨by simp, List.all_eq_true.1 (by decide)⟩
  have hnone := Pattern.isSome_rowAnswer?_letter (s := {}) hword (by decide)
  refine ⟨?_, ?_, ?_⟩
  · rw [letterText_eq]
    exact (Pattern.answer?_letter hones hlong).1
  · have hover : Repetition.fits (decimalValue "9223372036854775808".toList) = false := by decide
    rw [hover, Option.isSome_eq_false_iff, Option.isNone_iff_eq_none] at hnone
    exact hnone
  · rw [ringText_eq]
    exact Document.answer?_ringText hones hlong

end Rosette
