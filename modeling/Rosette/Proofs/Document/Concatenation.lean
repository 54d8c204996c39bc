import Rosette.Proofs.Document.Invariant
import Rosette.Proofs.Document.Pass

/-!
# Documents one after the other

A blank line closes every section, so what stands behind it is read as if it stood alone, lower down in the source. Each
line commutes with the two things that tell the runs apart: the lines above, which move the places of problems
(`Fault.moved`), and the document before, to which the line adds (`followedBy`, `result_passLine_followedBy`).

Main result: `parse_append_blank`. The text of two documents with a blank line between them is read as the two documents
put together, and the places of the second are moved by the lines of the first.
-/

namespace Rosette.Document

open Text Outcome

variable {s : Settings} {d e : Document} {l : Line} {sec? : Option Section} {lines offset : Nat}

/-! ## Lower down in a source -/

/-- The line so many lines and characters further on. -/
def Line.moved (lines offset : Nat) (l : Line) : Line :=
  { l with number := l.number + lines, offset := l.offset + offset }

@[simp] theorem Line.text_moved (l : Line) : (l.moved lines offset).text = l.text := rfl

@[simp] theorem Line.isEmpty_moved (l : Line) : (l.moved lines offset).isEmpty = l.isEmpty := rfl

@[simp] theorem Line.isComment_moved (l : Line) : (l.moved lines offset).isComment = l.isComment := rfl

@[simp] theorem Line.header?_moved (l : Line) : (l.moved lines offset).header? = l.header? := rfl

/-- The problem so many lines and characters further on. -/
def Problem.moved (lines offset : Nat) (p : Problem) : Problem :=
  { p with location := ⟨p.location.line + lines, p.location.column, p.location.offset + offset⟩ }

/-- The fault so many lines and characters further on. -/
def Fault.moved (lines offset : Nat) : Fault → Fault
  | .problem p => .problem (p.moved lines offset)
  | .numeral f => .numeral f

theorem ofRaws_append (number offset : Nat) (as bs : List (List Char)) :
    Line.ofRaws number offset (as ++ bs) = Line.ofRaws number offset as ++
      Line.ofRaws (number + as.length) (offset + (as.flatMap (· ++ ['\n'])).length) bs := by
  induction as generalizing number offset with
  | nil => rfl
  | cons raw as ih =>
    rw [List.cons_append, Line.ofRaws, Line.ofRaws, ih, List.cons_append, List.length_cons, List.flatMap_cons,
      List.length_append, List.length_append, List.length_singleton]
    congr 3 <;> omega

theorem ofRaws_moved (number first : Nat) (raws : List (List Char)) :
    Line.ofRaws (number + lines) (first + offset) raws =
      (Line.ofRaws number first raws).map (Line.moved lines offset) := by
  induction raws generalizing number first with
  | nil => rfl
  | cons raw raws ih =>
    rw [Line.ofRaws, Line.ofRaws, List.map_cons, ← ih]
    congr 1
    · simp only [Line.ofRaw, Line.moved, Line.mk.injEq, true_and, and_true]
      omega
    · congr 1 <;> omega

/-- Behind a blank line the lines are those of the text there, further on. -/
theorem ofSource_append_blank (a b : List Char) :
    Line.ofSource (a ++ '\n' :: '\n' :: b) = Line.ofSource a ++ Line.ofRaw (a.count '\n' + 2) (a.length + 1) [] ::
      (Line.ofSource b).map (Line.moved (a.count '\n' + 2) (a.length + 2)) := by
  have hblank : splitAtChar '\n' ('\n' :: b) = [] :: splitAtChar '\n' b := by simp [splitAtChar]
  have hnumber : 1 + (a.count '\n' + 1) = a.count '\n' + 2 := by omega
  have hnext : 1 + (a.count '\n' + 2) = a.count '\n' + 2 + 1 := by omega
  rw [Line.ofSource, splitAtChar_append, hblank, ofRaws_append, length_splitAtChar, flatMap_splitAtChar,
    List.length_append, Line.ofRaws, Line.ofSource, Line.ofSource, ← ofRaws_moved, hnumber, hnext, Nat.zero_add,
    Nat.zero_add]
  rfl

/-! ## Below another document -/

/-- A document with another below it: what the second says is added, or counts if it can be said only once. -/
def followedBy (d e : Document) : Document where
  rings := d.rings ++ e.rings
  dot := e.dot.or d.dot
  guides := d.guides || e.guides
  definitions := d.definitions ++ e.definitions
  palette := Option.merge Table.merge d.palette e.palette

/-- What a run gives further on, below a document. -/
def Below (lines offset : Nat) (d : Document) (r : Except Fault Document) : Except Fault Document :=
  (r.mapError (Fault.moved lines offset)).map d.followedBy

theorem followedBy_empty (d : Document) : d.followedBy {} = d := by
  cases d with
  | mk rings dot guides definitions palette =>
    cases palette <;> simp [followedBy, Option.merge]

theorem location_moved (l : Line) (column : Nat) : (l.moved lines offset).location column =
    ⟨(l.location column).line + lines, (l.location column).column, (l.location column).offset + offset⟩ := by
  simp only [Line.location, Line.moved, Location.mk.injEq, true_and]
  omega

theorem patternOf_moved (s : Settings) (l : Line) (t : Tail) :
    patternOf s (l.moved lines offset) t = (patternOf s l t).mapError (Fault.moved lines offset) := by
  unfold patternOf
  split
  · rfl
  · rfl
  · simp only [Except.mapError, Fault.moved, Problem.moved, Location.shifted, Line.moved, Except.error.injEq,
      Fault.problem.injEq, Problem.mk.injEq, Location.mk.injEq, true_and]
    omega

theorem ringPatternOf_moved (s : Settings) (l : Line) (t : Tail) :
    ringPatternOf s (l.moved lines offset) t = (ringPatternOf s l t).mapError (Fault.moved lines offset) := by
  unfold ringPatternOf
  split
  · rfl
  · exact patternOf_moved s l t

theorem ringOf_moved (s : Settings) (l : Line) :
    ringOf s (l.moved lines offset) = (ringOf s l).mapError (Fault.moved lines offset) := by
  unfold ringOf
  rw [Line.text_moved]
  split
  · rfl
  · split
    · rfl
    · split
      · rfl
      · dsimp only
        rw [ringPatternOf_moved]
        cases ringPatternOf s l _ <;> rfl

/-! ## Each line -/

theorem result_refused_moved (d d' e : Document) (l : Line) (cause : Cause) (column : Nat) :
    (refused d' cause ((l.moved lines offset).location column)).result =
      Below lines offset d (refused e cause (l.location column)).result := by
  rw [location_moved]
  rfl

theorem result_ringLine_followedBy (s : Settings) (d e : Document) (l : Line) :
    (ringLine s (d.followedBy e) (l.moved lines offset)).result = Below lines offset d (ringLine s e l).result := by
  unfold ringLine
  rw [ringOf_moved]
  rcases ringOf s l with f | _ | r
  · rfl
  · exact result_refused_moved d _ e l _ 0
  · simp [Except.mapError, Outcome.result, Below, Except.map, followedBy]

theorem result_looseLine_followedBy (s : Settings) (d e : Document) (l : Line) :
    (looseLine s (d.followedBy e) (l.moved lines offset)).result = Below lines offset d (looseLine s e l).result := by
  unfold looseLine
  rw [ringOf_moved]
  rcases ringOf s l with (p | f) | _ | r
  · rfl
  · rfl
  · rfl
  · simp [Except.mapError, Outcome.result, Below, Except.map, followedBy]

theorem result_variableLine_followedBy (s : Settings) (d e : Document) (l : Line) :
    (variableLine s (d.followedBy e) (l.moved lines offset)).result =
      Below lines offset d (variableLine s e l).result := by
  unfold variableLine
  rw [Line.text_moved]
  split
  · exact result_refused_moved d _ e l _ 0
  · rw [patternOf_moved]
    rcases patternOf s l _ with f | p
    · rfl
    · simp [Except.mapError, Outcome.result, Below, Except.map, followedBy]

theorem dotLine_moved (dot : Dot) (l : Line) : (dotLine dot (l.moved lines offset)).1 = (dotLine dot l).1 := by
  unfold dotLine
  rw [Line.text_moved]
  split
  · rfl
  · dsimp only
    split
    · split <;> rfl
    · rfl
    · rfl
    · rfl

/-- Writing to the palette of the second document writes to the palette of both. -/
theorem put_palette_followedBy (hd : ∀ t ∈ d.palette, (t.map Prod.fst).Nodup) (e : Document) (name : String)
    (c : Color) : some (Table.put ((d.followedBy e).palette.getD []) name c) =
      Option.merge Table.merge d.palette (some (Table.put (e.palette.getD []) name c)) := by
  cases hp : d.palette with
  | none => cases he : e.palette <;> simp [followedBy, hp, he, Option.merge]
  | some t =>
    have hput := Table.put_merge (hd t hp)
    cases he : e.palette with
    | none =>
      have hnil := hput [] name c
      rw [Table.merge_nil] at hnil
      simp [followedBy, hp, he, Option.merge, hnil]
    | some u => simp [followedBy, hp, he, Option.merge, hput u name c]

theorem result_paletteLine_followedBy (hd : ∀ t ∈ d.palette, (t.map Prod.fst).Nodup) (e : Document) (l : Line) :
    (paletteLine (d.followedBy e) (l.moved lines offset)).result = Below lines offset d (paletteLine e l).result := by
  unfold paletteLine
  rw [Line.text_moved]
  split
  · exact result_refused_moved d _ e l _ 0
  · split
    · rfl
    · exact result_refused_moved d _ e l _ _
    · rw [put_palette_followedBy hd]
      rfl

theorem opened_followedBy (d e : Document) (sec : Section) :
    opened (d.followedBy e) sec = d.followedBy (opened e sec) := by
  cases sec with
  | rings | definitions | dot => rfl
  | guides => simp [opened, followedBy]
  | palette =>
    cases hp : d.palette <;> cases he : e.palette <;> simp [opened, followedBy, hp, he, Option.merge, Table.merge_nil]

/-- **Each line commutes** with standing further on and below another document. While a section about the dot is open
there is a dot, so that the one before makes no difference. -/
theorem result_passLine_followedBy (hd : ∀ t ∈ d.palette, (t.map Prod.fst).Nodup)
    (hdot : sec? = some .dot → e.dot.isSome = true) (s : Settings) (l : Line) :
    (passLine s sec? (d.followedBy e) (l.moved lines offset)).result =
      Below lines offset d (passLine s sec? e l).result := by
  unfold passLine
  rw [Line.isEmpty_moved, Line.header?_moved, Line.isComment_moved]
  split
  · rfl
  · split
    · rw [opened_followedBy]
      rfl
    · split
      · rfl
      · rcases sec? with - | _ | _ | _ | _ | _
        · exact result_looseLine_followedBy s d e l
        · exact result_ringLine_followedBy s d e l
        · obtain ⟨dot, hdot⟩ := Option.isSome_iff_exists.1 (hdot rfl)
          simp [entryLine, followedBy, hdot, dotLine_moved, Outcome.result, Below, Except.mapError, Except.map]
        · rfl
        · exact result_variableLine_followedBy s d e l
        · exact result_paletteLine_followedBy hd e l

/-! ## All lines -/

/-- While a section about the dot is open there is a dot. -/
theorem dot_of_passLine {e' : Document} (hdot : sec? = some .dot → e.dot.isSome = true)
    (h : (passLine s sec? e l).result = .ok e') (hopens : l.opens sec? = some .dot) : e'.dot.isSome = true := by
  unfold passLine at h
  unfold Line.opens at hopens
  split at h
  · rename_i he
    rw [if_pos he] at hopens
    cases hopens
  · rename_i he
    rw [if_neg he] at hopens
    split at h
    · rename_i sec hsec
      rw [hsec, Option.some_or] at hopens
      cases hopens
      cases h
      rfl
    · rename_i hsec
      rw [hsec, Option.none_or] at hopens
      subst hopens
      split at h
      · cases h
        exact hdot rfl
      · cases h
        rfl

theorem result_pass_followedBy (hd : ∀ t ∈ d.palette, (t.map Prod.fst).Nodup)
    (hdot : sec? = some .dot → e.dot.isSome = true) (s : Settings) (ls : List Line) :
    (pass s sec? (d.followedBy e) (ls.map (Line.moved lines offset))).result =
      Below lines offset d (pass s sec? e ls).result := by
  induction ls generalizing sec? e with
  | nil => rfl
  | cons l ls ih =>
    rw [List.map_cons, pass, pass, result_andThen, result_andThen, result_passLine_followedBy hd hdot]
    cases hl : (passLine s sec? e l).result with
    | error f => rfl
    | ok e' =>
      have hnext : l.opens sec? = some .dot → e'.dot.isSome = true := dot_of_passLine hdot hl
      exact ih hnext

/-- **Documents with a blank line between them are put together.** The first fault counts, and one in the second text is
placed behind the lines of the first; without one the second document is added to the first. -/
theorem parse_append_blank (s : Settings) (a b : String) :
    parse s (a ++ "\n\n" ++ b) = (parse s a).bind fun d =>
      ((parse s b).mapError (Fault.moved (a.toList.count '\n' + 2) (a.length + 2))).map d.followedBy := by
  have hlist : (a ++ "\n\n" ++ b).toList = a.toList ++ '\n' :: '\n' :: b.toList := by simp
  rw [parse_eq_result s (a ++ "\n\n" ++ b), hlist, ofSource_append_blank, pass_append, result_andThen,
    ← parse_eq_result, ← String.length_toList]
  cases ha : parse s a with
  | error f => rfl
  | ok d =>
    have hnames : ∀ t ∈ d.palette, (t.map Prod.fst).Nodup := fun t ht => ((isRead_of_parse ha).palette t ht).names
    have hblank : (Line.ofRaw (a.toList.count '\n' + 2) (a.toList.length + 1) []).isEmpty = true := rfl
    have hstart : none = some Section.dot → (dot {}).isSome = true := nofun
    have hpass : (pass s none d ((Line.ofSource b.toList).map
        (Line.moved (a.toList.count '\n' + 2) (a.toList.length + 2)))).result =
          Below (a.toList.count '\n' + 2) (a.toList.length + 2) d (parse s b) := by
      rw [parse_eq_result, ← result_pass_followedBy hnames hstart, followedBy_empty]
    dsimp only [Except.bind]
    rw [pass_blank hblank, hpass]
    rfl

end Rosette.Document
