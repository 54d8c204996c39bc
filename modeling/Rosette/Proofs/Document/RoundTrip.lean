import Rosette.Proofs.Document.Lines

/-!
# Documents are read back from their texts

Main result: a document that was read is written without a fault, and the text is read as the same document under
the same settings, if the names of its generators are ASCII and its numbers are read back from their texts. The text
is cut into the lines it was put together from (`splitAtChar_blocksText`); each section is read from its lines alone
(`items_read`, `palette_read`, `dot_read`), and a run puts the sections together one after the other
(`readLines_blocks`).
-/

namespace Rosette.Document

open Text Outcome

variable {s : Settings} {d e f : Document} {l blank : Line} {body rest : List Line} {sec sec' : Section}

/-! ## Runs that succeed -/

theorem Yields.andThen {o : Outcome} {step : Document → Outcome} (h : Yields o d) (hstep : Yields (step d) e) :
    Yields (o.andThen step) e := by
  unfold Outcome.andThen
  rw [h.fault, h.document]
  exact ⟨hstep.fault, hstep.document⟩

/-- Lines that add one item each add all items in their order. -/
theorem eachLine_foldl {α : Type} {step : Document → Line → Outcome} {add : Document → α → Document} {as : List α}
    (h : List.Forall₂ (fun a l => ∀ d, Yields (step d l) (add d a)) as body) (d : Document) :
    Yields (eachLine step d body) (as.foldl add d) := by
  induction h generalizing d with
  | nil => exact ⟨rfl, rfl⟩
  | cons hstep _ ih => exact (hstep d).andThen (ih _)

/-- Items that are read back from their lines one by one are read back from all lines. -/
theorem eachLine_text {α : Type} {write : α → Except Writing.Fault (List Char)} {step : Document → Line → Outcome}
    {add : Document → α → Document} {as : List α}
    (h : ∀ a ∈ as, ∃ cs, write a = .ok cs ∧ IsEntry cs ∧ ∀ d l, l.text = cs → Yields (step d l) (add d a)) :
    ∃ lines, as.mapM write = .ok lines ∧ (∀ cs ∈ lines, IsEntry cs) ∧
      ∀ d body, body.map Line.text = lines → Yields (eachLine step d body) (as.foldl add d) := by
  obtain ⟨lines, hlines, hall⟩ := exists_mapM_eq_ok h
  refine ⟨lines, hlines, fun cs hcs => ?_, fun d body hbody => ?_⟩
  · obtain ⟨a, -, ha⟩ := exists_left_of_forall₂ hall hcs
    exact ha.1
  · rw [← hbody, List.forall₂_map_right_iff] at hall
    exact eachLine_foldl (hall.imp fun a l ha d => ha.2 d l rfl) d

/-! ## Sections -/

/-- The document with one section taken from another. -/
def graft (d e : Document) : Section → Document
  | .rings => { d with rings := e.rings }
  | .dot => { d with dot := e.dot }
  | .guides => { d with guides := e.guides }
  | .definitions => { d with definitions := e.definitions }
  | .palette => { d with palette := e.palette }

theorem graft_comm (h : sec ≠ sec') : (d.graft e sec).graft f sec' = (d.graft f sec').graft e sec := by
  cases sec <;> cases sec' <;> first | rfl | exact absurd rfl h

theorem foldl_graft_all (e : Document) : Section.all.foldl (fun d sec => d.graft e sec) {} = e := rfl

/-- What is written for a section is read as that section, by a run that has nothing of it yet. A section that is
not written is empty. -/
def IsImage (s : Settings) (e : Document) (sec : Section) : Option (List (List Char)) → Prop
  | none => ∀ d : Document, d.graft e sec = d.graft {} sec
  | some lines => (∀ cs ∈ lines, IsEntry cs) ∧
    ∀ (d : Document) (body : List Line), d.graft {} sec = d → body.map Line.text = lines →
      Yields (readSection s d body sec) (d.graft e sec)

theorem foldl_rings (rs : List Ring) (d : Document) :
    rs.foldl (fun d r => { d with rings := d.rings ++ [r] }) d = { d with rings := d.rings ++ rs } := by
  induction rs generalizing d with
  | nil => simp
  | cons r rs ih => simp [ih]

theorem foldl_definitions (vs : List Definition) (d : Document) :
    vs.foldl (fun d v => { d with definitions := d.definitions ++ [v] }) d =
      { d with definitions := d.definitions ++ vs } := by
  induction vs generalizing d with
  | nil => simp
  | cons v vs ih => simp [ih]

theorem foldl_palette (entries : List (String × Color)) (t : Table Color) (d : Document) :
    entries.foldl (fun d e => { d with palette := some ((d.palette.getD []).put e.1 e.2) })
      { d with palette := some t } =
      { d with palette := some (entries.foldl (fun t e => t.put e.1 e.2) t) } := by
  induction entries generalizing t with
  | nil => rfl
  | cons e entries ih => exact ih _

/-- A document's rings, dot numbers and colour parameters are read back from their texts, each number by the reader of
its place. -/
structure NumbersReadBack (d : Document) : Prop where
  radii : ∀ r ∈ d.rings, ∀ x, r.radius = .float x →
    splitRadius? x.plainText = some (x.plainText, []) ∧ Binary64.ofNumeral? x.plainText = some x
  size : ∀ dot ∈ d.dot, ∀ x, dot.size = some (.float x) → Binary64.leading? x.plainText = some x
  params : ∀ t ∈ d.palette, ∀ e ∈ t, ∀ name params, e.2 = .function name params →
    ∀ p ∈ params, ∀ x, p.2 = .float x → Binary64.leading? x.plainText = some x

/-- The names of all generators of colours are ASCII. -/
def HasAsciiNames (d : Document) : Prop :=
  ∀ t ∈ d.palette, ∀ e ∈ t, ∀ name params, e.2 = .function name params → ∀ c ∈ name.toList, c.toNat < 128

theorem survives_of_mem {t : Table Color} {entry : String × Color} (hnames : e.HasAsciiNames)
    (hnumbers : e.NumbersReadBack) (ht : t ∈ e.palette) (hentry : entry ∈ t) : entry.2.Survives := by
  unfold Color.Survives
  split
  · rename_i name params hcolor
    exact ⟨hnames t ht entry hentry name params hcolor, hnumbers.params t ht entry hentry name params hcolor⟩
  · trivial

/-- A section that is a list of items, one on a line, is read from its lines. -/
theorem items_read {α : Type} {write : α → Except Writing.Fault (List Char)} {step : Document → Line → Outcome}
    {add : Document → α → Document} {as : List α}
    (hwrite : e.sectionLines? sec = if as.isEmpty then .ok none else (as.mapM write).map some)
    (hstep : ∀ d body, readSection s d body sec = eachLine step d body)
    (hadd : ∀ d : Document, as.foldl add (d.graft {} sec) = d.graft e sec)
    (h : ∀ a ∈ as, ∃ cs, write a = .ok cs ∧ IsEntry cs ∧ ∀ d l, l.text = cs → Yields (step d l) (add d a)) :
    ∃ lines?, e.sectionLines? sec = .ok lines? ∧ IsImage s e sec lines? := by
  by_cases hnil : as = []
  · subst hnil
    exact ⟨none, hwrite, fun d => (hadd d).symm⟩
  · obtain ⟨lines, hlines, hentries, hread⟩ := eachLine_text h
    refine ⟨some lines, ?_, hentries, fun d body hd hbody => ?_⟩
    · rw [hwrite, if_neg (by simpa using hnil), hlines]
      rfl
    · rw [hstep, ← hadd, hd]
      exact hread d body hbody

theorem rings_read (h : e.IsRead s) (hnumbers : e.NumbersReadBack) :
    ∃ lines?, e.sectionLines? .rings = .ok lines? ∧ IsImage s e .rings lines? :=
  items_read rfl (fun _ _ => rfl) (fun _ => foldl_rings _ _) fun r hr => (h.rings r hr).read_text (hnumbers.radii r hr)

theorem definitions_read (h : e.IsRead s) :
    ∃ lines?, e.sectionLines? .definitions = .ok lines? ∧ IsImage s e .definitions lines? :=
  items_read rfl (fun _ _ => rfl) (fun _ => foldl_definitions _ _) fun v hv => (h.definitions v hv).read_text

theorem palette_read (h : e.IsRead s) (hnames : e.HasAsciiNames) (hnumbers : e.NumbersReadBack) :
    ∃ lines?, e.sectionLines? .palette = .ok lines? ∧ IsImage s e .palette lines? := by
  cases hp : e.palette with
  | none =>
    refine ⟨none, by rw [sectionLines?, hp], fun d => ?_⟩
    rw [graft, hp]
    rfl
  | some t =>
    have ht := h.palette t hp
    obtain ⟨lines, hlines, hentries, hread⟩ := eachLine_text fun entry hentry =>
      paletteLine_text (ht.colors entry hentry).1 (ht.colors entry hentry).2 (survives_of_mem hnames hnumbers hp hentry)
    refine ⟨some lines, ?_, hentries, fun d body hd hbody => ?_⟩
    · rw [sectionLines?, hp]
      dsimp only
      rw [hlines]
      rfl
    · have hnone : d.palette = none := by
        rw [← hd]
        rfl
      have hlast := hread { d with palette := some [] } body hbody
      rw [foldl_palette, Table.foldl_put_of_nodup (by simpa using ht.names), List.nil_append] at hlast
      unfold readSection readPalette
      rw [hnone, Option.getD_none]
      dsimp only
      rw [hlast.fault, graft, hp]
      exact hlast

theorem guides_read (e : Document) : ∃ lines?, e.sectionLines? .guides = .ok lines? ∧ IsImage s e .guides lines? := by
  cases hg : e.guides with
  | false =>
    refine ⟨none, by rw [sectionLines?, hg]; rfl, fun d => ?_⟩
    rw [graft, hg]
    rfl
  | true =>
    refine ⟨some [], by rw [sectionLines?, hg]; rfl, by simp, fun d body hd hbody => ?_⟩
    rw [graft, hg]
    exact ⟨rfl, rfl⟩

/-! ## The dot -/

theorem readDot_append (dot : Dot) (a b : List Line) : (readDot dot (a ++ b)).1 = (readDot (readDot dot a).1 b).1 := by
  induction a generalizing dot with
  | nil => rfl
  | cons l a ih => exact ih _

/-- A property that has its line is set from it; one that has none keeps what it is. -/
theorem readDot_property {α : Type} {v? : Option α} {line : α → List Char} (set : Dot → α → Dot)
    (hline : ∀ v ∈ v?, ∀ (dot : Dot) (l : Line), l.text = line v → (dotLine dot l).1 = set dot v)
    (hbody : body.map Line.text = (v?.map line).toList) (dot : Dot) : (readDot dot body).1 = v?.elim dot (set dot) := by
  cases v? with
  | none =>
    rw [List.map_eq_nil_iff.1 hbody]
    rfl
  | some v =>
    obtain ⟨l, ls, rfl, hl, hls⟩ := List.map_eq_cons_iff.1 hbody
    rw [List.map_eq_nil_iff.1 hls]
    exact hline v rfl dot l hl

theorem lines_dot {dot : Dot} {size : Option Binary64} (hsize : dot.size = size.map Measure.float) :
    dot.lines = .ok ((size.map fun x => propertyLine "size" x.plainText).toList ++
      (dot.color.map fun c => propertyLine "color" c.toList).toList ++
      (dot.visible.map fun b => propertyLine "visible" (if b then "true" else "false").toList).toList) := by
  unfold Dot.lines
  rw [hsize]
  cases size <;> rfl

theorem dot_read (h : e.IsRead s) (hnumbers : e.NumbersReadBack) :
    ∃ lines?, e.sectionLines? .dot = .ok lines? ∧ IsImage s e .dot lines? := by
  cases hdot : e.dot with
  | none =>
    refine ⟨none, by rw [sectionLines?, hdot]; rfl, fun d => ?_⟩
    rw [graft, hdot]
    rfl
  | some dot =>
    have hread := h.dot dot hdot
    obtain ⟨size, hsize⟩ : ∃ size : Option Binary64, dot.size = size.map Measure.float := by
      cases hm : dot.size with
      | none => exact ⟨none, rfl⟩
      | some m =>
        obtain ⟨x, rfl⟩ := hread.size m hm
        exact ⟨some x, rfl⟩
    have hback : ∀ x ∈ size, Binary64.leading? x.plainText = some x := by
      rintro x rfl
      exact hnumbers.size dot hdot x hsize
    refine ⟨some _, by rw [sectionLines?, hdot]; exact congrArg (Except.map some) (lines_dot hsize),
      fun cs hcs => ?_, fun d body hd hbody => ?_⟩
    · simp only [List.mem_append, Option.mem_toList, Option.map_eq_some_iff] at hcs
      rcases hcs with (⟨x, hx, rfl⟩ | ⟨c, hc, rfl⟩) | ⟨b, -, rfl⟩
      · exact isEntry_propertyLine (List.all_eq_true.1 (by decide)) (by simp) (isPhrase_plainText (hback x hx))
      · exact isEntry_propertyLine (List.all_eq_true.1 (by decide)) (by simp) (hread.color c hc)
      · exact isEntry_propertyLine (List.all_eq_true.1 (by decide)) (by simp) (isPhrase_boolText b)
    · obtain ⟨ab, c, rfl, hab, hc⟩ := List.map_eq_append_iff.1 hbody
      obtain ⟨a, b, rfl, ha, hb⟩ := List.map_eq_append_iff.1 hab
      have hsized := readDot_property (fun dot x => { dot with size := some (.float x) })
        (fun x hx _ _ hl => dotLine_size (hback x hx) hl) ha {}
      have hcolored := readDot_property (fun dot color => { dot with color := some color })
        (fun c hc _ _ hl => dotLine_color (hread.color c hc) hl) hb
      have hshown := readDot_property (fun dot b => { dot with visible := some b })
        (fun _ _ _ _ hl => dotLine_visible hl) hc
      have hall : (readDot {} (a ++ b ++ c)).1 = dot := by
        rw [readDot_append, readDot_append, hsized, hcolored, hshown]
        obtain ⟨_, color, visible⟩ := dot
        dsimp only at hsize ⊢
        rw [hsize]
        cases size <;> cases color <;> cases visible <;> rfl
      unfold readSection
      dsimp only
      rw [hall, graft, hdot]
      exact ⟨rfl, rfl⟩

/-! ## The lines of a text -/

theorem map_text_ofRaws (number offset : Nat) (raws : List (List Char)) :
    (Line.ofRaws number offset raws).map Line.text = raws.map trim := by
  induction raws generalizing number offset with
  | nil => rfl
  | cons raw raws ih => exact congrArg _ (ih _ _)

/-- The text of blocks of lines: a blank line between them, and a line feed at the end. -/
def blocksText (bs : List (List (List Char))) : List Char :=
  ['\n', '\n'].intercalate (bs.map ['\n'].intercalate) ++ ['\n']

theorem splitAtChar_blocksText {bs : List (List (List Char))} (hne : bs ≠ []) (hbs : ∀ b ∈ bs, b ≠ [])
    (hfeed : ∀ b ∈ bs, ∀ cs ∈ b, '\n' ∉ cs) : splitAtChar '\n' (blocksText bs) = bs.flatMap (· ++ [[]]) := by
  induction bs with
  | nil => exact absurd rfl hne
  | cons b bs ih =>
    have hb := splitAtChar_intercalate (hbs b List.mem_cons_self) (hfeed b List.mem_cons_self)
    by_cases hnil : bs = []
    · subst hnil
      rw [blocksText, List.map_singleton, List.intercalate_singleton, splitAtChar_append, hb]
      simp [splitAtChar]
    · have ih := ih hnil (fun b' hb' => hbs b' (List.mem_cons_of_mem _ hb'))
        fun b' hb' => hfeed b' (List.mem_cons_of_mem _ hb')
      have hjoin : blocksText (b :: bs) = ['\n'].intercalate b ++ '\n' :: ([] ++ '\n' :: blocksText bs) := by
        rw [blocksText, List.map_cons, List.intercalate_cons_of_ne_nil (by simpa using hnil)]
        simp [blocksText]
      rw [hjoin, splitAtChar_append, splitAtChar_append, hb, ih]
      simp [splitAtChar]

/-- The lines of a source that is put together from trimmed lines. -/
theorem map_text_ofSource {bs : List (List (List Char))} (hne : bs ≠ [])
    (hbs : ∀ b ∈ bs, b ≠ [] ∧ ∀ cs ∈ b, IsPhrase cs) :
    (Line.ofSource (blocksText bs)).map Line.text = bs.flatMap (· ++ [[]]) := by
  rw [Line.ofSource, map_text_ofRaws, splitAtChar_blocksText hne (fun b hb => (hbs b hb).1)
    fun b hb cs hcs => ((hbs b hb).2 cs hcs).unbroken]
  refine (List.map_congr_left fun cs hcs => ?_).trans (List.map_id _)
  obtain ⟨b, hb, hcs⟩ := List.mem_flatMap.1 hcs
  rcases List.mem_append.1 hcs with hcs | hcs
  · exact ((hbs b hb).2 cs hcs).trimmed.trim_eq
  · rw [List.mem_singleton.1 hcs]
    rfl

/-! ## Runs over sections -/

theorem readLines_blank (hblank : blank.text = []) (d : Document) (ls : List Line) :
    readLines s d (blank :: ls) = readLines s d ls := by
  rw [readLines, if_pos (by simp [Line.isEmpty, hblank])]

/-- A section is read from its lines, up to a blank one. -/
theorem readLines_section (hl : l.text = sec.header.toList) (hbody : ∀ b ∈ body, IsEntry b.text)
    (hblank : blank.text = []) (d : Document) (rest : List Line) :
    readLines s d (l :: (body ++ blank :: rest)) =
      (readSection s d body sec).andThen fun d => readLines s d rest := by
  have hread : ¬ (l.isEmpty || l.isComment) = true := by
    unfold Line.isEmpty Line.isComment
    rw [hl]
    cases sec <;> decide
  have hheader : l.header? = some sec := by
    unfold Line.header?
    rw [hl]
    cases sec <;> rfl
  have hends : ∀ b ∈ (blank :: rest).head?, b.continues = false := by
    rintro b ⟨⟩
    simp [Line.continues, Line.isEmpty, hblank]
  have hrun := run_append (fun b hb => (hbody b hb).continues) hends
  have hfilter : body.filter (fun b => !b.isComment) = body := by
    rw [List.filter_eq_self]
    intro b hb
    rw [(hbody b hb).isComment]
    rfl
  rw [readLines, if_neg hread, hheader]
  dsimp only
  rw [hrun.1, hrun.2, hfilter]
  simp only [readLines_blank hblank]

theorem isPhrase_header (sec : Section) : IsPhrase sec.header.toList := by
  cases sec <;> exact ⟨by simp [Section.header], .of_check (by decide), by decide⟩

theorem isPhrase_of_block {sec : Section} {lines : List (List Char)} (hlines : ∀ cs ∈ lines, IsEntry cs) :
    ∀ cs ∈ sec.header.toList :: lines, IsPhrase cs :=
  List.forall_mem_cons.2 ⟨isPhrase_header sec, fun cs hcs => (hlines cs hcs).phrase⟩

/-- Sections that are read from their lines are read one after the other, each from its block of lines. -/
theorem readLines_blocks {secs : List Section} (hnodup : secs.Nodup)
    (himage : ∀ sec ∈ secs, ∃ lines?, e.sectionLines? sec = .ok lines? ∧ IsImage s e sec lines?) :
    ∃ (texts : List (Option (List Char))) (blocks : List (List (List Char))),
      secs.mapM e.sectionText? = .ok texts ∧ texts.filterMap id = blocks.map ['\n'].intercalate ∧
      (∀ b ∈ blocks, b ≠ [] ∧ ∀ cs ∈ b, IsPhrase cs) ∧
      ∀ (d : Document) (ls : List Line), (∀ sec ∈ secs, d.graft {} sec = d) →
        ls.map Line.text = blocks.flatMap (· ++ [[]]) →
        Yields (readLines s d ls) (secs.foldl (fun d sec => d.graft e sec) d) := by
  induction secs with
  | nil =>
    refine ⟨[], [], rfl, rfl, by simp, fun d ls _ hls => ?_⟩
    rw [List.map_eq_nil_iff.1 hls, readLines]
    exact ⟨rfl, rfl⟩
  | cons sec secs ih =>
    obtain ⟨hnot, hnodup⟩ := List.nodup_cons.1 hnodup
    obtain ⟨lines?, hlines, himage'⟩ := himage sec List.mem_cons_self
    obtain ⟨texts, blocks, htexts, hblocks, hphrase, hread⟩ :=
      ih hnodup fun sec' hsec' => himage sec' (List.mem_cons_of_mem _ hsec')
    have htext : (sec :: secs).mapM e.sectionText? =
        .ok (lines?.map (fun lines => ['\n'].intercalate (sec.header.toList :: lines)) :: texts) := by
      rw [List.mapM_cons, sectionText?, hlines, htexts]
      rfl
    cases lines? with
    | none =>
      refine ⟨_, blocks, htext, hblocks, hphrase, fun d ls hd hls => ?_⟩
      rw [List.foldl_cons, himage' d, hd sec List.mem_cons_self]
      exact hread d ls (fun sec' hsec' => hd sec' (List.mem_cons_of_mem _ hsec')) hls
    | some lines =>
      obtain ⟨hentries, hsection⟩ := himage'
      refine ⟨_, (sec.header.toList :: lines) :: blocks, htext, ?_, ?_, fun d ls hd hls => ?_⟩
      · rw [List.map_cons, ← hblocks]
        rfl
      · exact List.forall_mem_cons.2 ⟨⟨by simp, isPhrase_of_block hentries⟩, hphrase⟩
      · rw [List.flatMap_cons, List.cons_append, List.cons_append, List.append_assoc] at hls
        obtain ⟨l, ls, rfl, hl, hls⟩ := List.map_eq_cons_iff.1 hls
        obtain ⟨body, ls, rfl, hbody, hls⟩ := List.map_eq_append_iff.1 hls
        obtain ⟨blank, ls, rfl, hblank, hls⟩ := List.map_eq_cons_iff.1 hls
        have hbody' : ∀ b ∈ body, IsEntry b.text := fun b hb => hentries _ (hbody ▸ List.mem_map_of_mem hb)
        rw [readLines_section hl hbody' hblank, List.foldl_cons]
        refine (hsection d body (hd sec List.mem_cons_self) hbody).andThen (hread _ ls (fun sec' hsec' => ?_) hls)
        have hne : sec ≠ sec' := by
          rintro rfl
          exact hnot hsec'
        rw [graft_comm hne, hd sec' (List.mem_cons_of_mem _ hsec')]

/-- What is written for a document as documents are read is read as that document. -/
theorem readLines_text (h : e.IsRead s) (hnames : e.HasAsciiNames) (hnumbers : e.NumbersReadBack) :
    ∃ t, e.text = .ok t ∧ Yields (readLines s {} (Line.ofSource t)) e := by
  have himage : ∀ sec ∈ Section.all, ∃ lines?, e.sectionLines? sec = .ok lines? ∧ IsImage s e sec lines? := by
    intro sec _
    cases sec with
    | rings => exact rings_read h hnumbers
    | dot => exact dot_read h hnumbers
    | guides => exact guides_read e
    | definitions => exact definitions_read h
    | palette => exact palette_read h hnames hnumbers
  obtain ⟨texts, blocks, htexts, hblocks, hphrase, hread⟩ := readLines_blocks (by decide) himage
  have hempty : ∀ sec ∈ Section.all, graft {} {} sec = {} := by
    intro sec _
    cases sec <;> rfl
  refine ⟨blocksText blocks, ?_, ?_⟩
  · rw [Document.text, htexts]
    exact congrArg (fun parts => Except.ok (['\n', '\n'].intercalate parts ++ ['\n'])) hblocks
  · rw [← foldl_graft_all e]
    by_cases hnil : blocks = []
    · -- a document without sections is written as a line feed, between two blank lines
      subst hnil
      have hlines : Line.ofSource (blocksText []) = [⟨[], 1, 0, 0⟩, ⟨[], 2, 1, 0⟩] := rfl
      rw [hlines, readLines_blank rfl, readLines_blank rfl]
      exact hread {} [] hempty rfl
    · exact hread {} _ hempty (map_text_ofSource hnil hphrase)

/-- **Documents are read back from their texts**: what was read is written without a fault, and what is written is
read as the same document under the same settings. -/
theorem parse_text_of_document {source : String} (h : parse s source = .ok d) (hnames : d.HasAsciiNames)
    (hnumbers : d.NumbersReadBack) : ∃ t, d.text = .ok t ∧ parse s (String.ofList t) = .ok d := by
  obtain ⟨t, htext, hread⟩ := readLines_text (isRead_of_parse h) hnames hnumbers
  refine ⟨t, htext, ?_⟩
  unfold parse Reader.run Reader.ofSource
  rw [String.toList_ofList]
  dsimp only
  rw [hread.fault, hread.document]

theorem parse_text_of_document_rings : ∃ (d : Document) (t : List Char),
    parse {} ("rings:\nO(2.5,3):d [B,A]\n\ndot:\nsize: 5e-1 mm\n\nvariables:\n@a=d\n@a=h\n\n" ++
      "palette:\nB=Warm(hue:180)\nA=rgb(1,2,3)") = .ok d ∧ d.text = .ok t ∧ parse {} (String.ofList t) = .ok d := by
  obtain ⟨d, h, hnames, hnumbers⟩ : ∃ d : Document, parse {}
      ("rings:\nO(2.5,3):d [B,A]\n\ndot:\nsize: 5e-1 mm\n\nvariables:\n@a=d\n@a=h\n\n" ++
        "palette:\nB=Warm(hue:180)\nA=rgb(1,2,3)") = .ok d ∧ d.HasAsciiNames ∧ d.NumbersReadBack := by
    refine ⟨{
        rings := [⟨.float (.finite false 5629499534213120 (-51)), .times 3, .symbol "d" false .absent, some ["B", "A"]⟩],
        dot := some { size := some (.float (.finite false 4503599627370496 (-53))) },
        definitions := [⟨"a", .symbol "d" false .absent⟩, ⟨"a", .symbol "h" false .absent⟩],
        palette := some [("B", .function "warm" [("hue", .float (.finite false 6333186975989760 (-45)))]),
          ("A", .rgb 1 2 3)] }, by with_unfolding_all rfl, ?_, ?_, ?_, ?_⟩
    · rintro t ⟨⟩ e he name params hc
      simp only [List.mem_cons, List.not_mem_nil, or_false] at he
      rcases he with rfl | rfl <;> cases hc
      simp
    · intro r hr x hx
      rw [List.mem_singleton.1 hr] at hx
      cases hx
      exact ⟨by decide +kernel, by decide +kernel⟩
    · rintro dot ⟨⟩ x ⟨⟩
      decide +kernel
    · rintro t ⟨⟩ e he name params hc p hp x hx
      simp only [List.mem_cons, List.not_mem_nil, or_false] at he
      rcases he with rfl | rfl <;> cases hc
      rw [List.mem_singleton.1 hp] at hx
      cases hx
      decide +kernel
  obtain ⟨t, htext, hread⟩ := parse_text_of_document h hnames hnumbers
  exact ⟨d, t, h, htext, hread⟩

end Rosette.Document
