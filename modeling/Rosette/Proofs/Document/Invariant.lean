import Rosette.Document.Reading
import Rosette.Proofs.Color.RoundTrip

/-!
# What documents that were read are like

Not every document that can be put together by hand can be written. One that was read can be: its counts come from
digits, its patterns from texts, its names from words and its colours from expressions, and none of its texts runs
over a line (`Document.IsRead`). Each line of each section keeps this (`ringLine_isRead` and the lemmas beside it),
so every run does, also one that fails (`readLines_isRead`).
-/

namespace Rosette

open Text

/-! ## The invariant -/

/-- The name of a colour of a palette: one capital letter. -/
def IsColorName (name : String) : Prop := ∃ c : Char, c.isUpper = true ∧ name = String.singleton c

theorem IsColorName.not_mem {name : String} (h : IsColorName name) {c : Char} (hc : c.isUpper = false) :
    c ∉ name.toList := by
  obtain ⟨d, hd, rfl⟩ := h
  rw [String.toList_singleton, List.mem_singleton]
  rintro rfl
  rw [hc] at hd
  cases hd

/-- A ring as it is read. -/
structure Ring.IsRead (s : Settings) (r : Ring) : Prop where
  radius : ∃ x, r.radius = .float x
  count : ∃ n : Nat, r.elementCount = .times n ∧ Numeral.fits n = true
  pattern : r.pattern = .solid ∨ ∃ source, Pattern.parse s source = .ok r.pattern
  colors : ∀ names ∈ r.colors, names ≠ [] ∧ ∀ name ∈ names, IsColorName name

/-- A dot as it is read. -/
structure Dot.IsRead (d : Dot) : Prop where
  size : ∀ m ∈ d.size, ∃ x, m = .float x
  color : ∀ c ∈ d.color, IsPhrase c.toList

/-- A definition as it is read. -/
structure Definition.IsRead (s : Settings) (v : Definition) : Prop where
  ne_nil : v.name.toList ≠ []
  chars : ∀ c ∈ v.name.toList, isWordChar c = true
  pattern : ∃ source, Pattern.parse s source = .ok v.pattern

namespace Document

/-- A palette as it is read. -/
structure IsPalette (t : Table Color) : Prop where
  names : (t.map Prod.fst).Nodup
  colors : ∀ e ∈ t, IsColorName e.1 ∧ e.2.IsRead

/-- A document as it is read under some settings. -/
structure IsRead (s : Settings) (d : Document) : Prop where
  rings : ∀ r ∈ d.rings, r.IsRead s
  dot : ∀ dot ∈ d.dot, dot.IsRead
  definitions : ∀ v ∈ d.definitions, v.IsRead s
  palette : ∀ t ∈ d.palette, IsPalette t

variable {s : Settings} {d : Document} {l : Line} {ls : List Line} {line rest : List Char} {t : Tail}

theorem isRead_empty (s : Settings) : IsRead s {} := ⟨by simp, by simp, by simp, by simp⟩

/-- A line as it comes from a source: trimmed, and without line feeds. -/
structure Line.IsCut (l : Line) : Prop where
  trimmed : Trimmed l.text
  unbroken : '\n' ∉ l.text

theorem isCut_of_mem_ofRaws {number offset : Nat} {raws : List (List Char)} (hraws : ∀ raw ∈ raws, '\n' ∉ raw)
    (h : l ∈ Line.ofRaws number offset raws) : l.IsCut := by
  induction raws generalizing number offset with
  | nil => cases h
  | cons raw raws ih =>
    rcases List.mem_cons.1 h with rfl | h
    · exact ⟨trimmed_trim raw, fun hmem => hraws raw List.mem_cons_self (mem_of_mem_trim hmem)⟩
    · exact ih (fun raw' hmem => hraws raw' (List.mem_cons_of_mem _ hmem)) h

theorem isCut_of_mem_ofSource {source : List Char} (h : l ∈ Line.ofSource source) : l.IsCut :=
  isCut_of_mem_ofRaws (fun _ hraw => not_mem_of_mem_splitAtChar hraw) h

/-! ## Forms of lines -/

theorem tailOf?_eq_some (h : tailOf? line rest = some t) : t.text = trimLeft rest ∧ t.text ≠ [] := by
  unfold tailOf? at h
  dsimp only at h
  split at h
  · cases h
  · rename_i hempty
    cases h
    exact ⟨rfl, by simpa using hempty⟩

theorem namedForm?_eq_some {name : List Char} {mark : Char} {form : NamedForm}
    (h : namedForm? line name mark rest = some form) : form.name = name ∧ name ≠ [] ∧
      ∃ value, rest = mark :: value ∧ tailOf? line value = some form.value := by
  unfold namedForm? at h
  split at h
  · cases h
  · rename_i hempty
    split at h
    · cases h
    · split at h
      · rename_i hmark
        obtain ⟨value, hvalue, rfl⟩ := Option.map_eq_some_iff.1 h
        exact ⟨rfl, by simpa using hempty, _, by rw [hmark], hvalue⟩
      · cases h

/-- The value that ends a line of the dot is a trimmed text. -/
theorem isPhrase_of_propertyForm? {form : NamedForm} (hl : l.IsCut) (h : propertyForm? l.text = some form) :
    IsPhrase form.value.text := by
  obtain ⟨-, -, value, hrest, htail⟩ := namedForm?_eq_some h
  obtain ⟨htext, hne⟩ := tailOf?_eq_some htail
  have hline : l.text = l.text.takeWhile isWordChar ++ ':' :: value := by
    rw [← hrest, List.takeWhile_append_dropWhile]
  rw [htext] at hne ⊢
  have hlast : ∀ c ∈ value.getLast?, isBlank c = false := by
    intro c hc
    refine hl.trimmed.last c ?_
    rw [hline, Option.mem_def, List.getLast?_append, List.getLast?_cons, Option.mem_def.1 hc]
    rfl
  refine ⟨hne, trimmed_trimLeft hlast, fun hmem => hl.unbroken ?_⟩
  rw [hline]
  exact List.mem_append_right _ (List.mem_cons_of_mem _ (mem_of_mem_trimLeft hmem))

theorem patternOf_eq_ok {p : Pattern} : patternOf s l t = .ok p ↔ Pattern.parse s (String.ofList t.text) = .ok p := by
  unfold patternOf
  split <;> simp_all

theorem isColorName_of_colorName? {cs : List Char} {name : String} (h : colorName? cs = some name) :
    IsColorName name := by
  unfold colorName? at h
  split at h
  · split at h
    · rename_i c _ hc
      cases h
      exact ⟨c, hc, rfl⟩
    · cases h
  · cases h

theorem colorNames?_eq_some {cs : List Char} {names : List String} (h : colorNames? cs = some names) :
    names ≠ [] ∧ ∀ name ∈ names, IsColorName name := by
  have hall := mapM_eq_some_iff_forall₂.1 h
  constructor
  · rintro rfl
    exact splitAtChar_ne_nil ',' cs (List.forall₂_nil_right_iff.1 hall)
  · intro name hname
    obtain ⟨part, -, hpart⟩ := exists_left_of_forall₂ hall hname
    exact isColorName_of_colorName? hpart

theorem splitColors_snd {cs : List Char} :
    ∀ names ∈ (splitColors cs).2, names ≠ [] ∧ ∀ name ∈ names, IsColorName name := by
  intro names h
  unfold splitColors at h
  dsimp only at h
  split at h
  · cases h
  · split at h
    · split at h
      · rename_i hnames
        cases h
        exact colorNames?_eq_some hnames
      · cases h
    · cases h

/-! ## Lines keep the invariant -/

/-- A ring that a line defines is a ring as rings are read. -/
theorem isRead_of_ringOf {r : Ring} (h : ringOf s l = .ok (some r)) : r.IsRead s := by
  unfold ringOf at h
  split at h
  · cases h
  · rename_i form _
    split at h
    · cases h
    · rename_i radius _
      split at h
      · cases h
      · rename_i count hcount
        dsimp only at h
        split at h
        · cases h
        · rename_i pattern hpattern
          cases h
          refine ⟨⟨radius, rfl⟩, ⟨count, rfl, Numeral.fits_of_read hcount⟩, ?_, splitColors_snd⟩
          unfold ringPatternOf at hpattern
          split at hpattern
          · cases hpattern
            exact .inl rfl
          · exact .inr ⟨_, patternOf_eq_ok.1 hpattern⟩

theorem IsRead.addRing {r : Ring} (h : d.IsRead s) (hr : r.IsRead s) :
    IsRead s { d with rings := d.rings ++ [r] } :=
  ⟨by simpa [List.forall_mem_append, or_imp, forall_and] using ⟨h.rings, hr⟩, h.dot, h.definitions, h.palette⟩

theorem ringLine_isRead (h : d.IsRead s) (l : Line) : (ringLine s d l).document.IsRead s := by
  unfold ringLine
  split
  · exact h
  · exact h
  · rename_i r hr
    exact h.addRing (isRead_of_ringOf hr)

theorem looseLine_isRead (h : d.IsRead s) (l : Line) : (looseLine s d l).document.IsRead s := by
  unfold looseLine
  split
  · exact h
  · exact h
  · exact h
  · rename_i r hr
    exact h.addRing (isRead_of_ringOf hr)

theorem dotLine_isRead {dot : Dot} (h : dot.IsRead) (hl : l.IsCut) : (dotLine dot l).1.IsRead := by
  unfold dotLine
  split
  · exact h
  · rename_i form hform
    have hvalue := isPhrase_of_propertyForm? hl hform
    dsimp only
    split
    · split
      · exact h
      · rename_i size _
        exact ⟨by simp, h.color⟩
    · refine ⟨h.size, ?_⟩
      simpa using hvalue
    · exact ⟨h.size, h.color⟩
    · exact h

theorem readDot_isRead {dot : Dot} (h : dot.IsRead) (hls : ∀ l ∈ ls, l.IsCut) : (readDot dot ls).1.IsRead := by
  induction ls generalizing dot with
  | nil => exact h
  | cons l ls ih =>
    exact ih (dotLine_isRead h (hls l List.mem_cons_self)) fun l' hl' => hls l' (List.mem_cons_of_mem _ hl')

theorem variableLine_isRead (h : d.IsRead s) (l : Line) : (variableLine s d l).document.IsRead s := by
  unfold variableLine
  split
  · exact h
  · rename_i form hform
    split
    · exact h
    · rename_i p hp
      have hv : Definition.IsRead s ⟨String.ofList form.name, p⟩ := by
        unfold variableForm? at hform
        split at hform
        · rename_i rest _
          obtain ⟨hname, hne, -, -⟩ := namedForm?_eq_some hform
          refine ⟨?_, ?_, _, patternOf_eq_ok.1 hp⟩
          · rw [String.toList_ofList, hname]
            exact hne
          · rw [String.toList_ofList, hname]
            exact fun c hc => List.mem_takeWhile_imp hc
        · cases hform
      exact ⟨h.rings, h.dot, by simpa [or_imp, forall_and] using ⟨h.definitions, hv⟩, h.palette⟩

theorem IsPalette.put {p : Table Color} {name : String} {c : Color} (h : IsPalette p) (hname : IsColorName name)
    (hc : c.IsRead) : IsPalette (p.put name c) := by
  refine ⟨Table.nodup_put h.names, fun e he => ?_⟩
  rcases Table.mem_put he with he | rfl
  · exact h.colors e he
  · exact ⟨hname, hc⟩

theorem isPalette_nil : IsPalette [] := ⟨by simp, by simp⟩

theorem IsRead.getPalette (h : d.IsRead s) : IsPalette (d.palette.getD []) := by
  cases hp : d.palette with
  | none => exact isPalette_nil
  | some p => exact h.palette p hp

theorem IsRead.withPalette {p : Option (Table Color)} (h : d.IsRead s) (hp : ∀ t ∈ p, IsPalette t) :
    IsRead s { d with palette := p } :=
  ⟨h.rings, h.dot, h.definitions, hp⟩

theorem paletteLine_isRead (h : d.IsRead s) (l : Line) : (paletteLine d l).document.IsRead s := by
  unfold paletteLine
  split
  · exact h
  · rename_i form hform
    split
    · exact h
    · exact h
    · rename_i c hc
      refine h.withPalette ?_
      have hname : IsColorName (String.ofList form.name) := by
        unfold paletteForm? at hform
        split at hform
        · split at hform
          · rename_i c _ _ hupper
            obtain ⟨hname, -, -, -⟩ := namedForm?_eq_some hform
            exact ⟨c, hupper, by rw [hname]; rfl⟩
          · cases hform
        · cases hform
      simpa using h.getPalette.put hname (Color.isRead_of_ofExpression hc)

/-! ## Runs keep the invariant -/

open Outcome

theorem document_andThen {P : Document → Prop} {o : Outcome} {step : Document → Outcome} (h : P o.document)
    (hstep : ∀ d, P d → P (step d).document) : P (o.andThen step).document := by
  unfold andThen
  split
  · exact h
  · exact hstep o.document h

theorem document_eachLine {P : Document → Prop} {step : Document → Line → Outcome}
    (hstep : ∀ d l, P d → P (step d l).document) (h : P d) : P (eachLine step d ls).document := by
  induction ls generalizing d with
  | nil => exact h
  | cons l ls ih => exact document_andThen (hstep d l h) fun _ => ih

theorem readPalette_isRead (h : d.IsRead s) : (readPalette d ls).document.IsRead s := by
  have hstart : IsRead s { d with palette := some (d.palette.getD []) } :=
    h.withPalette (by simpa using h.getPalette)
  have hlines : (eachLine paletteLine { d with palette := some (d.palette.getD []) } ls).document.IsRead s :=
    document_eachLine (fun _ l hd => paletteLine_isRead hd l) hstart
  unfold readPalette
  dsimp only
  split
  · exact hlines.withPalette (by simp)
  · exact hlines

theorem readSection_isRead (h : d.IsRead s) (hls : ∀ l ∈ ls, l.IsCut) (sec : Section) :
    (readSection s d ls sec).document.IsRead s := by
  cases sec with
  | rings => exact document_eachLine (fun _ l hd => ringLine_isRead hd l) h
  | dot =>
    have hdot : (readDot {} ls).1.IsRead := readDot_isRead ⟨by simp, by simp⟩ hls
    exact ⟨h.rings, by simpa [readSection] using hdot, h.definitions, h.palette⟩
  | guides => exact ⟨h.rings, h.dot, h.definitions, h.palette⟩
  | definitions => exact document_eachLine (fun _ l hd => variableLine_isRead hd l) h
  | palette => exact readPalette_isRead h

/-- **Every run keeps the invariant**, whether it fails or not. -/
theorem readLines_isRead (h : d.IsRead s) (hls : ∀ l ∈ ls, l.IsCut) : (readLines s d ls).document.IsRead s := by
  fun_induction readLines s d ls with
  | case1 => exact h
  | case2 d l ls hskip ih => exact ih h fun l' hl' => hls l' (List.mem_cons_of_mem _ hl')
  | case3 d l ls hskip hloose ih =>
    refine document_andThen (looseLine_isRead h l) fun d hd => ih d hd ?_
    exact fun l' hl' => hls l' (List.mem_cons_of_mem _ hl')
  | case4 d l ls hskip sec hsec body ih =>
    have hbody : ∀ l' ∈ body, l'.IsCut := fun l' hl' =>
      hls l' (List.mem_cons_of_mem _ ((List.takeWhile_prefix _).subset (List.mem_of_mem_filter hl')))
    refine document_andThen (readSection_isRead h hbody sec) fun d hd => ih d hd fun l' hl' => ?_
    exact hls l' (List.mem_cons_of_mem _ ((List.dropWhile_suffix _).subset hl'))

/-- A document that a source writes is one as documents are read. -/
theorem isRead_of_parse {source : String} (h : parse s source = .ok d) : d.IsRead s := by
  have hrun : (readLines s {} (Line.ofSource source.toList)).document.IsRead s :=
    readLines_isRead (isRead_empty s) fun l hl => isCut_of_mem_ofSource hl
  unfold parse Reader.run Reader.ofSource at h
  dsimp only at h
  split at h
  · cases h
  · cases h
    exact hrun

end Document

end Rosette
