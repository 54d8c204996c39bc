import Mathlib.Data.List.TakeWhile
import Rosette.Document.Reading
import Rosette.Proofs.Table

/-!
# Documents line by line

A run looks ahead: it gathers the body of a section before it reads it. The same comes out of one pass over the lines
(`pass`) that knows of the lines before only which section they leave open: a blank line closes it, a header opens its
own, a comment changes nothing, and any other line is an entry of the section that is open, or a loose line.

Main result: a run and the pass agree on the document or the fault, and on the table of variables also behind a fault;
the fault is that of the first line that has one where it stands (`run_eq_pass`). Behind a fault they may differ in the
palette, which a run drops if it began with the section that failed; so they are compared by `Outcome.Agree`.
-/

namespace Rosette.Document

open Outcome

variable {s : Settings} {d : Document} {l : Line} {ls body : List Line} {sec : Section} {sec? : Option Section}
  {o o' : Outcome} {f g : Document → Outcome}

/-! ## The pass -/

/-- The section that is open behind a line, given the one open before it. -/
def Line.opens (l : Line) (sec? : Option Section) : Option Section :=
  if l.isEmpty then none else l.header?.or sec?

/-- The document at the start of a section. -/
def opened (d : Document) : Section → Document
  | .rings | .definitions => d
  | .dot => { d with dot := some {} }
  | .guides => { d with guides := true }
  | .palette => { d with palette := some (d.palette.getD []) }

/-- A line of the section that is open, or a loose one. -/
def entryLine (s : Settings) (d : Document) (l : Line) : Option Section → Outcome
  | none => looseLine s d l
  | some .rings => ringLine s d l
  | some .dot =>
    let (dot, notes) := dotLine (d.dot.getD {}) l
    ⟨{ d with dot := some dot }, notes, none⟩
  | some .guides => { document := d }
  | some .definitions => variableLine s d l
  | some .palette => paletteLine d l

/-- Any line, given the section that is open before it. -/
def passLine (s : Settings) (sec? : Option Section) (d : Document) (l : Line) : Outcome :=
  if l.isEmpty then { document := d }
  else
    match l.header? with
    | some sec => { document := opened d sec }
    | none => if l.isComment then { document := d } else entryLine s d l sec?

/-- All lines, one after the other. -/
def pass (s : Settings) (sec? : Option Section) (d : Document) : List Line → Outcome
  | [] => { document := d }
  | l :: ls => (passLine s sec? d l).andThen fun d => pass s (l.opens sec?) d ls

/-- The document, or the fault that ended the run. -/
def Outcome.result (o : Outcome) : Except Fault Document :=
  match o.fault? with
  | some f => .error f
  | none => .ok o.document

/-! ## Steps one after the other -/

theorem andThen_of_ok (d : Document) (f : Document → Outcome) : Outcome.andThen { document := d } f = f d := rfl

theorem andThen_of_some {fault : Fault} (h : o.fault? = some fault) (f : Document → Outcome) : o.andThen f = o := by
  rw [andThen, h]

theorem andThen_of_none (h : o.fault? = none) (f : Document → Outcome) :
    o.andThen f = ⟨(f o.document).document, o.notes ++ (f o.document).notes, (f o.document).fault?⟩ := by
  rw [andThen, h]

theorem andThen_assoc (o : Outcome) (f g : Document → Outcome) :
    (o.andThen f).andThen g = o.andThen fun d => (f d).andThen g := by
  cases ho : o.fault? with
  | some fault => rw [andThen_of_some ho, andThen_of_some ho, andThen_of_some ho]
  | none =>
    rw [andThen_of_none ho, andThen_of_none ho]
    cases hf : (f o.document).fault? with
    | some fault =>
      rw [andThen_of_some hf, andThen_of_some rfl, hf]
    | none =>
      rw [andThen_of_none hf, andThen_of_none rfl]
      dsimp only
      rw [List.append_assoc]

theorem eachLine_cons (step : Document → Line → Outcome) (d : Document) (l : Line) (ls : List Line) :
    eachLine step d (l :: ls) = (step d l).andThen fun d => eachLine step d ls := rfl

/-! ## The four kinds of lines -/

theorem header?_of_isComment (h : l.isComment = true) : l.header? = none := by
  have hheader : ∀ sec ∈ Section.all, [';', ';'].isPrefixOf sec.header.toList = false := by decide
  unfold Line.header?
  rw [List.find?_eq_none]
  intro sec hsec htext
  rw [Line.isComment, ← eq_of_beq htext, hheader sec hsec] at h
  cases h

theorem pass_blank (he : l.isEmpty = true) (sec? : Option Section) (d : Document) (ls : List Line) :
    pass s sec? d (l :: ls) = pass s none d ls := by
  rw [pass, passLine, Line.opens, if_pos he, if_pos he, andThen_of_ok]

theorem pass_header (he : l.isEmpty = false) (hsec : l.header? = some sec) (sec? : Option Section) (d : Document)
    (ls : List Line) : pass s sec? d (l :: ls) = pass s (some sec) (opened d sec) ls := by
  simp only [pass, passLine, Line.opens, he, hsec, Bool.false_eq_true, if_false, Option.some_or, andThen_of_ok]

theorem pass_comment (he : l.isEmpty = false) (hc : l.isComment = true) (sec? : Option Section) (d : Document)
    (ls : List Line) : pass s sec? d (l :: ls) = pass s sec? d ls := by
  simp only [pass, passLine, Line.opens, he, hc, header?_of_isComment hc, Bool.false_eq_true, if_false, if_true,
    Option.none_or, andThen_of_ok]

theorem pass_entry (he : l.isEmpty = false) (hsec : l.header? = none) (hc : l.isComment = false)
    (sec? : Option Section) (d : Document) (ls : List Line) :
    pass s sec? d (l :: ls) = (entryLine s d l sec?).andThen fun d => pass s sec? d ls := by
  simp only [pass, passLine, Line.opens, he, hsec, hc, Bool.false_eq_true, if_false, Option.none_or]

/-- A pass goes on behind some lines with the section that they leave open. -/
theorem pass_append (s : Settings) (sec? : Option Section) (d : Document) (as bs : List Line) :
    pass s sec? d (as ++ bs) =
      (pass s sec? d as).andThen fun d => pass s (as.foldl (fun sec? l => l.opens sec?) sec?) d bs := by
  induction as generalizing sec? d with
  | nil => rfl
  | cons l as ih =>
    rw [List.cons_append, pass, pass, andThen_assoc, List.foldl_cons]
    simp only [ih]

/-! ## Lines of a section -/

theorem continues_iff : l.continues = true ↔ l.isEmpty = false ∧ l.header? = none := by
  simp [Line.continues]

/-- Which section was open makes no difference to a line that ends it. -/
theorem pass_of_ends (h : ∀ l ∈ ls.head?, l.continues = false) (sec? : Option Section) (d : Document) :
    pass s sec? d ls = pass s none d ls := by
  cases ls with
  | nil => rfl
  | cons l ls =>
    cases he : l.isEmpty with
    | true => rw [pass_blank he, pass_blank he]
    | false =>
      cases hsec : l.header? with
      | some sec => rw [pass_header he hsec, pass_header he hsec]
      | none =>
        have hcontinues := h l rfl
        rw [continues_iff.2 ⟨he, hsec⟩] at hcontinues
        cases hcontinues

/-- The body of a section leaves it open, and each of its lines that is no comment is an entry. -/
theorem pass_body (h : ∀ l ∈ body, l.continues = true) (d : Document) (rest : List Line) :
    pass s sec? d (body ++ rest) =
      (eachLine (fun d l => entryLine s d l sec?) d (body.filter fun l => !l.isComment)).andThen
        fun d => pass s sec? d rest := by
  induction body generalizing d with
  | nil => rfl
  | cons l body ih =>
    obtain ⟨he, hsec⟩ := continues_iff.1 (h l List.mem_cons_self)
    have hrest := ih fun l' hl' => h l' (List.mem_cons_of_mem _ hl')
    rw [List.cons_append]
    cases hc : l.isComment with
    | true => rw [List.filter_cons_of_neg (by simp [hc]), pass_comment he hc, hrest]
    | false =>
      rw [List.filter_cons_of_pos (by simp [hc]), pass_entry he hsec hc, eachLine_cons, andThen_assoc]
      simp only [hrest]

/-! ## The run and the pass -/

/-- Two outcomes agree but for the palette of a document behind a fault. -/
structure Outcome.Agree (o o' : Outcome) : Prop where
  fault : o.fault? = o'.fault?
  notes : o.notes = o'.notes
  document : o.fault? = none → o.document = o'.document
  others : { o.document with palette := none } = { o'.document with palette := none }

theorem Outcome.Agree.refl (o : Outcome) : o.Agree o := ⟨rfl, rfl, fun _ => rfl, rfl⟩

theorem Outcome.Agree.andThen (h : o.Agree o') (hstep : ∀ d, (f d).Agree (g d)) :
    (o.andThen f).Agree (o'.andThen g) := by
  cases hf : o.fault? with
  | some fault =>
    rw [andThen_of_some hf, andThen_of_some (h.fault ▸ hf)]
    exact h
  | none =>
    have hd := hstep o'.document
    rw [andThen_of_none hf, andThen_of_none (h.fault ▸ hf), h.document hf, h.notes]
    exact ⟨hd.fault, congrArg (o'.notes ++ ·) hd.notes, hd.document, hd.others⟩

theorem eachLine_dot (dot : Dot) (d : Document) (body : List Line) :
    eachLine (fun d l => entryLine s d l (some .dot)) { d with dot := some dot } body =
      ⟨{ d with dot := some (readDot dot body).1 }, (readDot dot body).2, none⟩ := by
  induction body generalizing dot with
  | nil => rfl
  | cons l body ih =>
    rw [eachLine_cons, andThen_of_none rfl]
    exact congrArg (fun o : Outcome => (⟨o.document, _ ++ o.notes, o.fault?⟩ : Outcome)) (ih (dotLine dot l).1)

theorem eachLine_guides (d : Document) (body : List Line) :
    eachLine (fun d l => entryLine s d l (some .guides)) d body = { document := d } := by
  induction body with
  | nil => rfl
  | cons l body ih => exact ih

/-- Reading the body of a section agrees with reading its entries one by one behind the header. -/
theorem readSection_agree (s : Settings) (d : Document) (body : List Line) (sec : Section) :
    (readSection s d body sec).Agree (eachLine (fun d l => entryLine s d l (some sec)) (opened d sec) body) := by
  cases sec with
  | rings | definitions => exact .refl _
  | dot =>
    unfold readSection opened
    rw [eachLine_dot]
    exact .refl _
  | guides =>
    unfold readSection opened
    rw [eachLine_guides]
    exact .refl _
  | palette =>
    unfold readSection readPalette
    dsimp only
    split
    · rename_i hdropped
      rw [Bool.and_eq_true, Option.isSome_iff_exists] at hdropped
      obtain ⟨⟨fault, hfault⟩, -⟩ := hdropped
      refine ⟨rfl, rfl, fun hnone => ?_, rfl⟩
      rw [hfault] at hnone
      cases hnone
    · exact .refl _

/-- **A run agrees with one pass over its lines.** -/
theorem readLines_agree (s : Settings) (d : Document) (ls : List Line) : (readLines s d ls).Agree (pass s none d ls) := by
  fun_induction readLines s d ls with
  | case1 => exact .refl _
  | case2 d l ls hskip ih =>
    cases he : l.isEmpty with
    | true => rwa [pass_blank he]
    | false =>
      have hc : l.isComment = true := by simpa [he] using hskip
      rwa [pass_comment he hc]
  | case3 d l ls hskip hloose ih =>
    obtain ⟨he, hc⟩ : l.isEmpty = false ∧ l.isComment = false := by simpa using hskip
    rw [pass_entry he hloose hc]
    exact (Outcome.Agree.refl _).andThen ih
  | case4 d l ls hskip sec hsec body ih =>
    obtain ⟨he, -⟩ : l.isEmpty = false ∧ l.isComment = false := by simpa using hskip
    have hbody : ∀ l ∈ ls.takeWhile Line.continues, l.continues = true := fun _ hl => List.mem_takeWhile_imp hl
    have hends : ∀ l ∈ (ls.dropWhile Line.continues).head?, l.continues = false := by
      intro l' hl'
      have := List.head?_dropWhile_not Line.continues ls
      rw [Option.mem_def] at hl'
      simpa [hl'] using this
    have hpass : pass s none d (l :: ls) =
        (eachLine (fun d l => entryLine s d l (some sec)) (opened d sec) body).andThen
          fun d => pass s none d (ls.dropWhile Line.continues) := by
      rw [pass_header he hsec]
      conv_lhs => rw [← List.takeWhile_append_dropWhile (p := Line.continues) (l := ls)]
      rw [pass_body hbody]
      simp only [pass_of_ends hends]
      rfl
    rw [hpass]
    exact (readSection_agree s d body sec).andThen ih

/-! ## Results and faults -/

theorem result_andThen (o : Outcome) (f : Document → Outcome) :
    (o.andThen f).result = o.result.bind fun d => (f d).result := by
  unfold Outcome.result
  cases ho : o.fault? with
  | some fault =>
    rw [andThen_of_some ho, ho]
    rfl
  | none =>
    rw [andThen_of_none ho]
    rfl

theorem Outcome.Agree.result (h : o.Agree o') : o.result = o'.result := by
  unfold Outcome.result
  rw [← h.fault]
  cases hf : o.fault? with
  | some _ => rfl
  | none => rw [h.document hf]

theorem run_result (r : Reader) (s : Settings) : (r.run s).1 = (readLines s r.document r.lines).result := by
  unfold Reader.run Outcome.result
  dsimp only
  cases (readLines s r.document r.lines).fault? <;> rfl

theorem run_document (r : Reader) (s : Settings) :
    (r.run s).2.1.document = (readLines s r.document r.lines).document := by
  unfold Reader.run
  dsimp only
  cases (readLines s r.document r.lines).fault? <;> rfl

theorem parse_eq_result (s : Settings) (source : String) :
    parse s source = (pass s none {} (Line.ofSource source.toList)).result :=
  (run_result _ s).trans (readLines_agree s {} _).result

/-- The lines with the section that is open before each of them. -/
def inSections (sec? : Option Section) : List Line → List (Option Section × Line)
  | [] => []
  | l :: ls => (sec?, l) :: inSections (l.opens sec?) ls

/-- The fault of a line, given the section that is open before it. -/
def lineFault? (s : Settings) (sec? : Option Section) (l : Line) : Option Fault := (passLine s sec? {} l).fault?

theorem mem_of_mem_inSections {e : Option Section × Line} (h : e ∈ inSections sec? ls) : e.2 ∈ ls := by
  induction ls generalizing sec? with
  | nil => cases h
  | cons l ls ih =>
    rcases List.mem_cons.1 h with rfl | h
    · exact List.mem_cons_self
    · exact List.mem_cons_of_mem _ (ih h)

/-- What was read before makes no difference to the fault of a line. -/
theorem fault_passLine (d : Document) (l : Line) : (passLine s sec? d l).fault? = lineFault? s sec? l := by
  have hentry : (entryLine s d l sec?).fault? = (entryLine s {} l sec?).fault? := by
    rcases sec? with - | _ | _ | _ | _ | _
    · unfold entryLine looseLine
      dsimp only
      split <;> rfl
    · unfold entryLine ringLine
      dsimp only
      split <;> rfl
    · rfl
    · rfl
    · unfold entryLine variableLine
      dsimp only
      split
      · rfl
      · split <;> rfl
    · unfold entryLine paletteLine
      dsimp only
      split
      · rfl
      · split <;> rfl
  unfold lineFault? passLine
  split
  · rfl
  · split
    · rfl
    · split
      · rfl
      · exact hentry

/-- The fault of a pass is that of the first line that has one. -/
theorem fault_pass (s : Settings) (sec? : Option Section) (d : Document) (ls : List Line) :
    (pass s sec? d ls).fault? = (inSections sec? ls).findSome? fun e => lineFault? s e.1 e.2 := by
  induction ls generalizing sec? d with
  | nil => rfl
  | cons l ls ih =>
    rw [pass, inSections, List.findSome?_cons, ← fault_passLine d l]
    cases hl : (passLine s sec? d l).fault? with
    | some fault => rw [andThen_of_some hl, hl]
    | none =>
      rw [andThen_of_none hl]
      exact ih _ _

theorem lineFault?_dot (s : Settings) (l : Line) : lineFault? s (some .dot) l = none := by
  unfold lineFault? passLine
  split
  · rfl
  · split
    · rfl
    · split <;> rfl

theorem lineFault?_guides (s : Settings) (l : Line) : lineFault? s (some .guides) l = none := by
  unfold lineFault? passLine
  split
  · rfl
  · split
    · rfl
    · split <;> rfl

/-- A loose line is not refused, though a number in it may be too long to be read. -/
theorem lineFault?_loose (s : Settings) (l : Line) (p : Problem) : lineFault? s none l ≠ some (.problem p) := by
  unfold lineFault? passLine
  split
  · nofun
  · split
    · nofun
    · split
      · nofun
      · unfold entryLine looseLine
        dsimp only
        split <;> nofun

/-- A line that is refused stands in a section of rings, of variables or of colours. -/
theorem section_of_lineFault? {p : Problem} (h : lineFault? s sec? l = some (.problem p)) :
    sec? = some .rings ∨ sec? = some .definitions ∨ sec? = some .palette := by
  rcases sec? with - | _ | _ | _ | _ | _
  · exact absurd h (lineFault?_loose s l p)
  · exact .inl rfl
  · rw [lineFault?_dot] at h
    cases h
  · rw [lineFault?_guides] at h
    cases h
  · exact .inr (.inl rfl)
  · exact .inr (.inr rfl)

/-- The last definition of a name counts. -/
theorem lookup_variableTable (d : Document) (name : String) :
    d.variableTable.lookup name = (d.definitions.reverse.find? (·.name == name)).map (·.pattern) := by
  have hfind : ∀ vs : List Definition, (vs.map fun v => (v.name, v.pattern)).lookup name =
      (vs.find? (·.name == name)).map (·.pattern) := by
    intro vs
    induction vs with
    | nil => rfl
    | cons v vs ih =>
      rw [List.map_cons, List.lookup_cons, List.find?_cons, ih, Bool.beq_comm]
      cases v.name == name <;> rfl
  rw [variableTable, Table.lookup_ofList, ← List.map_reverse, hfind]

/-- **A run is one pass over the lines of the source.** They agree on the document or the fault, and on the table of
variables, in which the last definition of a name counts, also behind a fault. The fault is that of the first line
that has one in the section where it stands. Lines about the dot and the guides have none, and a loose line is never
refused: a line that is refused stands among rings, variables or colours. -/
theorem run_eq_pass (s : Settings) (source : String) :
    let lines := Line.ofSource source.toList
    let run := (Reader.ofSource source).run s
    run.1 = (pass s none {} lines).result ∧
      run.2.1.document.variableTable = (pass s none {} lines).document.variableTable ∧
      (∀ name, run.2.1.document.variableTable.lookup name =
        ((pass s none {} lines).document.definitions.reverse.find? (·.name == name)).map (·.pattern)) ∧
      (pass s none {} lines).fault? = (inSections none lines).findSome? (fun e => lineFault? s e.1 e.2) ∧
      (∀ l, lineFault? s (some .dot) l = none ∧ lineFault? s (some .guides) l = none) ∧
      (∀ l p, lineFault? s none l ≠ some (.problem p)) ∧
      ∀ sec? l p, lineFault? s sec? l = some (.problem p) →
        sec? = some .rings ∨ sec? = some .definitions ∨ sec? = some .palette := by
  have hothers := (readLines_agree s {} (Line.ofSource source.toList)).others
  have hdefinitions : ((Reader.ofSource source).run s).2.1.document.definitions =
      (pass s none {} (Line.ofSource source.toList)).document.definitions := by
    rw [run_document]
    exact (congrArg Document.definitions hothers :)
  have htable : ((Reader.ofSource source).run s).2.1.document.variableTable =
      (pass s none {} (Line.ofSource source.toList)).document.variableTable := by
    rw [variableTable, variableTable, hdefinitions]
  refine ⟨parse_eq_result s source, htable, fun name => ?_, fault_pass s none {} _,
    fun l => ⟨lineFault?_dot s l, lineFault?_guides s l⟩, lineFault?_loose s, fun _ _ _ => section_of_lineFault?⟩
  rw [htable, lookup_variableTable]

end Rosette.Document
