import Rosette.Proofs.Document.Invariant
import Rosette.Proofs.Document.Pass
import Rosette.Proofs.Location
import Rosette.Proofs.Pattern.Failure

/-!
# The places of problems

A problem of a document is one of a single line: the line is no entry of its section, what it gives as a colour is none,
or the pattern in it is refused (`Refusal`). Its place is counted out in three steps: the line stands in the source at
its location (`Line.StandsIn`), the piece with the pattern or the colour stands in the line at its column
(`Tail.StandsIn`), and the problem of a pattern stands in its text.

Main result: `location_of_parse`. The place that is reported is one of the source, and what stands there is what the
problem is about.
-/

namespace Rosette.Document

open Text

variable {s : Settings} {l : Line} {sec? : Option Section} {t : Tail} {p : Problem} {line rest source : List Char}

/-! ## Lines in the source -/

/-- The line stands in the source where it says. -/
def Line.StandsIn (l : Line) (source : List Char) : Prop :=
  ∃ before behind, source = before ++ l.text ++ behind ∧ Location.start.after before = l.location

/-- A raw line is the blanks in front of its text, its text, and the blanks behind. -/
theorem exists_eq_ofRaw (number offset : Nat) (raw : List Char) :
    ∃ front back, raw = front ++ (Line.ofRaw number offset raw).text ++ back ∧
      (Line.ofRaw number offset raw).location = ⟨number, 1 + front.length, offset + front.length⟩ := by
  obtain ⟨back, hback⟩ := prefix_trimRight (trimLeft raw)
  refine ⟨raw.takeWhile isBlank, back, ?_, ?_⟩
  · rw [Line.ofRaw, trim, List.append_assoc, hback, trimLeft, List.takeWhile_append_dropWhile]
  · simp only [Line.ofRaw, Line.location, Location.mk.injEq, true_and]
    omega

theorem standsIn_of_mem_ofRaws {number offset : Nat} {raws : List (List Char)} (hraws : ∀ raw ∈ raws, '\n' ∉ raw)
    (h : l ∈ Line.ofRaws number offset raws) :
    ∃ before behind, ['\n'].intercalate raws = before ++ l.text ++ behind ∧
      (⟨number, 1, offset⟩ : Location).after before = l.location := by
  induction raws generalizing number offset with
  | nil => cases h
  | cons raw raws ih =>
    rw [List.forall_mem_cons] at hraws
    rcases List.mem_cons.1 h with rfl | h
    · obtain ⟨front, back, hraw, hlocation⟩ := exists_eq_ofRaw number offset raw
      have hfront : '\n' ∉ front := fun hmem => hraws.1 (by rw [hraw]; simp [hmem])
      obtain ⟨more, hmore⟩ : raw <+: ['\n'].intercalate (raw :: raws) := by
        cases raws with
        | nil => simp
        | cons raw' raws => simp [List.intercalate_cons_cons]
      refine ⟨front, back ++ more, ?_, ?_⟩
      · rw [← hmore]
        simpa using congrArg (· ++ more) hraw
      · rw [Location.after_of_not_mem hfront, hlocation]
    · obtain ⟨before, behind, hrest, hlocation⟩ := ih hraws.2 h
      have hne : raws ≠ [] := by
        rintro rfl
        cases h
      refine ⟨raw ++ '\n' :: before, behind, ?_, ?_⟩
      · rw [List.intercalate_cons_of_ne_nil hne, hrest]
        simp
      · rw [Location.after_append, Location.after_of_not_mem hraws.1, Location.after_cons, ← hlocation]
        rfl

theorem standsIn_of_mem_ofSource (h : l ∈ Line.ofSource source) : l.StandsIn source := by
  have hraws := standsIn_of_mem_ofRaws (fun _ hraw => not_mem_of_mem_splitAtChar hraw) h
  rwa [intercalate_splitAtChar] at hraws

/-! ## Pieces of a line -/

/-- The piece stands in the line at its column. -/
def Tail.StandsIn (t : Tail) (line : List Char) : Prop :=
  ∃ front back, line = front ++ t.text ++ back ∧ front.length = t.column

theorem standsIn_whole (line : List Char) : Tail.StandsIn ⟨line, 0⟩ line := ⟨[], [], by simp, rfl⟩

theorem Tail.StandsIn.cut {cs : List Char} (h : t.StandsIn line) (hcs : cs <+: t.text) :
    Tail.StandsIn ⟨cs, t.column⟩ line := by
  obtain ⟨front, back, hline, hcolumn⟩ := h
  obtain ⟨more, hmore⟩ := hcs
  exact ⟨front, more ++ back, by rw [hline, ← hmore]; simp, hcolumn⟩

theorem standsIn_of_tailOf? (h : tailOf? line rest = some t) (hrest : rest <:+ line) : t.StandsIn line := by
  have hsuffix : trimLeft rest <:+ line := (List.dropWhile_suffix _).trans hrest
  obtain ⟨front, hfront⟩ := hsuffix
  unfold tailOf? at h
  dsimp only at h
  split at h
  · cases h
  · cases h
    refine ⟨front, [], by simp [hfront], ?_⟩
    have hlength := congrArg List.length hfront
    rw [List.length_append] at hlength
    dsimp only
    omega

theorem standsIn_of_namedForm? {name : List Char} {mark : Char} {form : NamedForm}
    (h : namedForm? line name mark rest = some form) (hrest : rest <:+ line) : form.value.StandsIn line := by
  obtain ⟨-, -, value, rfl, htail⟩ := namedForm?_eq_some h
  exact standsIn_of_tailOf? htail ((List.suffix_cons _ _).trans hrest)

theorem standsIn_of_variableForm? {form : NamedForm} (h : variableForm? line = some form) :
    form.value.StandsIn line := by
  unfold variableForm? at h
  split at h
  · rename_i rest
    exact standsIn_of_namedForm? h
      ((List.dropWhile_suffix _).trans ((List.dropWhile_suffix _).trans (List.suffix_cons _ _)))
  · cases h

theorem standsIn_of_paletteForm? {form : NamedForm} (h : paletteForm? line = some form) :
    form.value.StandsIn line := by
  unfold paletteForm? at h
  split at h
  · split at h
    · exact standsIn_of_namedForm? h ((List.dropWhile_suffix _).trans (List.suffix_cons _ _))
    · cases h
  · cases h

theorem suffix_of_isPrefixOf? {mark : List Char} (h : mark.isPrefixOf? line = some rest) : rest <:+ line :=
  ⟨mark, List.isPrefixOf?_eq_some_iff_append_eq.1 h⟩

theorem suffix_of_splitRadius? {radius : List Char} (h : splitRadius? line = some (radius, rest)) : rest <:+ line := by
  have hline := List.dropWhile_suffix isDecimal (l := line)
  unfold splitRadius? at h
  split at h
  · cases h
  · rename_i hpoint _
    rw [hpoint] at hline
    split at h
    · cases h
    · cases h
      exact (List.dropWhile_suffix _).trans ((List.suffix_cons _ _).trans hline)
  · cases h
    exact hline

theorem standsIn_of_ringForm? {form : RingForm} (h : ringForm? line = some form) : form.pattern.StandsIn line := by
  simp only [ringForm?, Option.bind_eq_bind, Option.bind_eq_some_iff] at h
  obtain ⟨r1, h1, ⟨radius, r2⟩, h2, r3, h3, h⟩ := h
  split at h
  · cases h
  · simp only [Option.bind_eq_some_iff] at h
    obtain ⟨r4, h4, pattern, htail, h⟩ := h
    cases h
    refine standsIn_of_tailOf? htail ?_
    have hcount : r4 <:+ r3 :=
      (suffix_of_isPrefixOf? h4).trans ((List.dropWhile_suffix _).trans (List.dropWhile_suffix _))
    exact hcount.trans ((suffix_of_isPrefixOf? h3).trans ((suffix_of_splitRadius? h2).trans (suffix_of_isPrefixOf? h1)))

theorem prefix_splitColors (cs : List Char) : (splitColors cs).1 <+: cs := by
  unfold splitColors
  dsimp only
  split
  · exact List.prefix_refl _
  · rename_i before hbefore
    have hprefix : before.reverse <+: cs := by
      rw [← List.reverse_suffix, List.reverse_reverse]
      have := List.dropWhile_suffix (· != '[') (l := cs.reverse)
      rw [hbefore] at this
      exact (List.suffix_cons _ _).trans this
    split
    · split
      · exact (prefix_trimRight _).trans hprefix
      · exact List.prefix_refl _
    · exact List.prefix_refl _

/-! ## Refusals -/

/-- The pattern that a line of the section may hold. Behind that of a ring there may be its colours. -/
def pattern? (line : List Char) : Option Section → Option Tail
  | some .rings => (ringForm? line).map fun form => ⟨(splitColors form.pattern.text).1, form.pattern.column⟩
  | some .definitions => (variableForm? line).map (·.value)
  | _ => none

theorem standsIn_of_pattern? (h : pattern? line sec? = some t) : t.StandsIn line := by
  unfold pattern? at h
  split at h
  · obtain ⟨form, hform, rfl⟩ := Option.map_eq_some_iff.1 h
    exact (standsIn_of_ringForm? hform).cut (prefix_splitColors _)
  · obtain ⟨form, hform, rfl⟩ := Option.map_eq_some_iff.1 h
    exact standsIn_of_variableForm? hform
  · cases h

/-- What is reported of a line that is refused, in the section where it stands. -/
inductive Refusal (s : Settings) (l : Line) : Option Section → Problem → Prop where
  | ring : Refusal s l (some .rings) ⟨.badRing (String.ofList l.text), l.location⟩
  | definition : Refusal s l (some .definitions) ⟨.badVariable (String.ofList l.text), l.location⟩
  | colorLine : Refusal s l (some .palette) ⟨.badColorLine (String.ofList l.text), l.location⟩
  | color {form : NamedForm} (h : paletteForm? l.text = some form) :
      Refusal s l (some .palette) ⟨.badColor (String.ofList form.value.text), l.location form.value.column⟩
  | pattern {sec? : Option Section} {t : Tail} {q : Pattern.Problem} (h : pattern? l.text sec? = some t)
      (hq : Pattern.parse s (String.ofList t.text) = .error (.problem q)) :
      Refusal s l sec? ⟨.pattern q.cause, q.location.shifted (l.number - 1) (l.indent + t.column) (l.offset + t.column)⟩

theorem Refusal.of_patternOf (h : patternOf s l t = .error (.problem p)) (ht : pattern? l.text sec? = some t) :
    Refusal s l sec? p := by
  unfold patternOf at h
  split at h
  · cases h
  · cases h
  · rename_i q hq
    cases h
    exact .pattern ht hq

theorem problem_of_ringOf (h : ringOf s l = .error (.problem p)) :
    ∃ t, pattern? l.text (some .rings) = some t ∧ patternOf s l t = .error (.problem p) := by
  unfold ringOf at h
  split at h
  · cases h
  · rename_i form hform
    split at h
    · cases h
    · split at h
      · cases h
      · dsimp only at h
        split at h
        · rename_i hpattern
          cases h
          unfold ringPatternOf at hpattern
          split at hpattern
          · cases hpattern
          · exact ⟨_, by rw [pattern?, hform, Option.map_some], hpattern⟩
        · cases h

theorem Refusal.of_ringLine {d : Document} (h : (ringLine s d l).fault? = some (.problem p)) :
    Refusal s l (some .rings) p := by
  unfold ringLine at h
  split at h
  · rename_i hring
    cases h
    obtain ⟨t, ht, hpattern⟩ := problem_of_ringOf hring
    exact .of_patternOf hpattern ht
  · cases h
    exact .ring
  · cases h

theorem Refusal.of_variableLine {d : Document} (h : (variableLine s d l).fault? = some (.problem p)) :
    Refusal s l (some .definitions) p := by
  unfold variableLine at h
  split at h
  · cases h
    exact .definition
  · rename_i form hform
    split at h
    · rename_i hpattern
      cases h
      exact .of_patternOf hpattern (by rw [pattern?, hform, Option.map_some])
    · cases h

theorem Refusal.of_paletteLine {d : Document} (h : (paletteLine d l).fault? = some (.problem p)) :
    Refusal s l (some .palette) p := by
  unfold paletteLine at h
  split at h
  · cases h
    exact .colorLine
  · rename_i form hform
    split at h
    · cases h
    · cases h
      exact .color hform
    · cases h

/-- A line whose fault is a problem is refused. -/
theorem refusal_of_lineFault? (h : lineFault? s sec? l = some (.problem p)) : Refusal s l sec? p := by
  have hsection := section_of_lineFault? h
  unfold lineFault? passLine at h
  split at h
  · cases h
  · split at h
    · cases h
    · split at h
      · cases h
      · rcases hsection with rfl | rfl | rfl
        · exact .of_ringLine h
        · exact .of_variableLine h
        · exact .of_paletteLine h

/-! ## Places counted out -/

/-- A place within a piece of a line of the source. -/
theorem exists_place {a b : List Char} (hl : l.StandsIn source) (hcut : l.IsCut) (ht : t.StandsIn l.text)
    (htext : t.text = a ++ b) :
    ∃ before behind, source = before ++ (b ++ behind) ∧
      Location.start.after before = l.location (t.column + a.length) := by
  obtain ⟨before, behind, hsource, hlocation⟩ := hl
  obtain ⟨front, back, hline, hcolumn⟩ := ht
  have hfeed : '\n' ∉ front ++ a := fun hmem => hcut.unbroken (by
    rw [hline, htext]
    simp only [List.mem_append] at hmem ⊢
    tauto)
  refine ⟨before ++ (front ++ a), back ++ behind, by rw [hsource, hline, htext]; simp, ?_⟩
  rw [Location.after_append, hlocation, Location.after_of_not_mem hfeed, List.length_append, hcolumn]
  simp only [Line.location, Location.mk.injEq, true_and]
  omega

/-- What a refusal is about stands in the source where it says: a piece of the line, which is the rest of a pattern text
from the problem in it on if it is that of a pattern. -/
theorem Refusal.exists_place (h : Refusal s l sec? p) (hl : l.StandsIn source) (hcut : l.IsCut) :
    ∃ before behind, source = before ++ behind ∧ p.location = Location.start.after before ∧
      ∀ cause, p.cause = .pattern cause → ∃ t q, pattern? l.text sec? = some t ∧
        Pattern.parse s (String.ofList t.text) = .error (.problem q) ∧ q.cause = cause ∧
        t.text.drop q.location.offset.toNat <+: behind := by
  cases h with
  | ring | definition | colorLine =>
    obtain ⟨before, behind, hsource, hlocation⟩ := exists_place hl hcut (standsIn_whole l.text) (List.nil_append _).symm
    exact ⟨before, l.text ++ behind, hsource, hlocation.symm, fun _ hcause => by cases hcause⟩
  | color hform =>
    obtain ⟨before, behind, hsource, hlocation⟩ :=
      exists_place hl hcut (standsIn_of_paletteForm? hform) (List.nil_append _).symm
    exact ⟨before, _ ++ behind, hsource, hlocation.symm, fun _ hcause => by cases hcause⟩
  | @pattern _ t q ht hq =>
    obtain ⟨a, b, htext, hplace⟩ := Pattern.place_of_parse hq
    rw [String.toList_ofList] at htext
    have hstands : t.StandsIn l.text := standsIn_of_pattern? ht
    have hfeed : '\n' ∉ a := by
      obtain ⟨front, back, hline, -⟩ := hstands
      exact fun hmem => hcut.unbroken (by rw [hline, htext]; simp [hmem])
    obtain ⟨before, behind, hsource, hlocation⟩ := exists_place hl hcut hstands htext
    refine ⟨before, b ++ behind, hsource, ?_, fun cause hcause => ⟨t, q, ht, hq, ?_, ?_⟩⟩
    · rw [hlocation, hplace, Location.after_of_not_mem hfeed]
      simp only [Location.shifted, Location.start, Line.location, if_true, Location.mk.injEq]
      omega
    · cases hcause
      rfl
    · rw [hplace, htext, Location.drop_offset_after]
      exact List.prefix_append b behind

/-- **The place of a problem is one of the source.** If it is the problem of a pattern, then the pattern text of the line
that is at fault has the same problem, and from there on the text stands in the source at the place. -/
theorem location_of_parse {source : String} (h : parse s source = .error (.problem p)) :
    p.diagnostic.location.IsPlaceIn source.toList ∧
      ∀ cause, p.cause = .pattern cause → ∃ sec? l, (sec?, l) ∈ inSections none (Line.ofSource source.toList) ∧
        lineFault? s sec? l = some (.problem p) ∧ ∃ t q, pattern? l.text sec? = some t ∧
          Pattern.parse s (String.ofList t.text) = .error (.problem q) ∧
          p.diagnostic.message = q.diagnostic.message ∧ p.diagnostic.suggestion = q.diagnostic.suggestion ∧
          t.text.drop q.diagnostic.location.offset.toNat <+: source.toList.drop p.diagnostic.location.offset.toNat := by
  have hfault : (pass s none {} (Line.ofSource source.toList)).fault? = some (.problem p) := by
    rw [parse_eq_result, Outcome.result] at h
    split at h
    · rename_i hfault
      rw [hfault, Except.error.inj h]
    · cases h
  rw [fault_pass] at hfault
  obtain ⟨⟨sec?, l⟩, hmem, hline⟩ := List.exists_of_findSome?_eq_some hfault
  have hl : l ∈ Line.ofSource source.toList := mem_of_mem_inSections hmem
  obtain ⟨before, behind, hsource, hlocation, hpattern⟩ :=
    (refusal_of_lineFault? hline).exists_place (standsIn_of_mem_ofSource hl) (isCut_of_mem_ofSource hl)
  have hplace : p.diagnostic.location = Location.start.after before := hlocation
  rw [hplace]
  refine ⟨hsource ▸ Location.isPlaceIn_after before behind, fun cause hcause => ?_⟩
  obtain ⟨t, q, ht, hq, rfl, hrest⟩ := hpattern cause hcause
  have hmessage : p.cause.message = q.cause.message := congrArg Cause.message hcause
  have hsuggestion : p.cause.suggestion? = q.cause.suggestion? := congrArg Cause.suggestion? hcause
  refine ⟨sec?, l, hmem, hline, t, q, ht, hq, hmessage, hsuggestion, ?_⟩
  rw [hsource, Location.drop_offset_after]
  exact hrest

theorem location_of_parse_indented :
    parse ⟨64, false⟩ "rings:\n  O(1,2): d) [A]" =
        .error (.problem ⟨.pattern (.trailing ⟨.rparen, ")", ⟨1, 2, 1⟩⟩), ⟨2, 12, 18⟩⟩) ∧
      Location.IsPlaceIn ⟨2, 12, 18⟩ "rings:\n  O(1,2): d) [A]".toList ∧
      ∃ t q, Pattern.parse ⟨64, false⟩ (String.ofList t) = .error (.problem q) ∧
        t.drop q.location.offset.toNat <+: [')', ' ', '[', 'A', ']'] := by
  have h : parse ⟨64, false⟩ "rings:\n  O(1,2): d) [A]" =
      .error (.problem ⟨.pattern (.trailing ⟨.rparen, ")", ⟨1, 2, 1⟩⟩), ⟨2, 12, 18⟩⟩) := by
    with_unfolding_all rfl
  obtain ⟨hplace, hpattern⟩ := location_of_parse h
  obtain ⟨-, -, -, -, t, q, -, hq, -, -, hrest⟩ := hpattern _ rfl
  exact ⟨h, hplace, t.text, q, hq, hrest⟩

end Rosette.Document
