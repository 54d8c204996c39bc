import Rosette.Document.Writing
import Rosette.Proofs.Document.Invariant
import Rosette.Proofs.Pattern.RoundTrip

/-!
# Lines are read back from their texts

A line that is written for a ring, a property of the dot, a definition or a colour is an entry of its section: it is
not blank, no comment and no header (`IsEntry`). Read on its own, it gives back what it was written for
(`Ring.IsRead.read_text` and the lemmas beside it).
-/

namespace Rosette

open Text

namespace Document

variable {s : Settings} {d : Document} {l : Line} {cs front value line name : List Char}

/-! ## Entries -/

/-- A line that may stand in a section: it does not end the section, and it is read. -/
structure IsEntry (cs : List Char) : Prop where
  phrase : IsPhrase cs
  /-- There are no spaces in headers. -/
  spaced : ' ' ∈ cs
  uncommented : cs.head? ≠ some ';'

theorem IsEntry.append (hfront : IsPhrase front) (hhead : front.head? ≠ some ';') (hvalue : IsPhrase value) :
    IsEntry (front ++ ' ' :: value) := by
  obtain ⟨c, front, rfl⟩ := List.exists_cons_of_ne_nil hfront.ne_nil
  refine ⟨⟨by simp, ?_, ?_⟩, by simp, by simpa using hhead⟩
  · have := hfront.trimmed.around hvalue.trimmed hfront.ne_nil hvalue.ne_nil [' ']
    rwa [List.append_assoc] at this
  · simp only [List.mem_append, List.mem_cons, not_or]
    exact ⟨by simpa using hfront.unbroken, by decide, hvalue.unbroken⟩

theorem IsEntry.continues (h : IsEntry l.text) : l.continues = true := by
  have hspace : ∀ sec : Section, ' ' ∉ sec.header.toList := by
    intro sec
    cases sec <;> decide
  have hheader : l.header? = none := by
    refine List.find?_eq_none.2 fun sec _ heq => hspace sec ?_
    rw [beq_iff_eq.1 heq]
    exact h.spaced
  unfold Line.continues Line.isEmpty
  rw [hheader]
  simpa using h.phrase.ne_nil

theorem IsEntry.isComment (h : IsEntry l.text) : l.isComment = false := by
  obtain ⟨c, cs, hcs⟩ := List.exists_cons_of_ne_nil h.phrase.ne_nil
  have hc : c ≠ ';' := by
    rintro rfl
    exact h.uncommented (by rw [hcs]; rfl)
  unfold Line.isComment
  rw [hcs, List.isPrefixOf_cons_cons]
  simp [Ne.symm hc]

/-! ## Forms -/

theorem tailOf?_cons_space (h : IsPhrase value) (line : List Char) :
    ∃ t, tailOf? line (' ' :: value) = some t ∧ t.text = value := by
  unfold tailOf?
  rw [trimLeft_cons_space, trimLeft_eq_self h.trimmed.head]
  dsimp only
  rw [if_neg (by simpa using h.ne_nil)]
  exact ⟨_, rfl, rfl⟩

theorem namedForm?_mark {mark : Char} (hname : name ≠ []) (h : IsPhrase value) (line : List Char) :
    ∃ form, namedForm? line name mark (mark :: ' ' :: value) = some form ∧ form.name = name ∧
      form.value.text = value := by
  obtain ⟨t, ht, htext⟩ := tailOf?_cons_space h line
  unfold namedForm?
  rw [if_neg (by simpa using hname)]
  dsimp only
  rw [if_pos rfl, ht]
  exact ⟨_, rfl, rfl, htext⟩

/-- The line of a property of the dot. -/
def propertyLine (name : String) (value : List Char) : List Char := name.toList ++ ':' :: ' ' :: value

theorem propertyForm?_text (name : String) (hname : name.toList ≠ []) (hchars : ∀ c ∈ name.toList, isWordChar c = true)
    (h : IsPhrase value) : ∃ form, propertyForm? (propertyLine name value) = some form ∧ form.name = name.toList ∧
      form.value.text = value := by
  have hrun := run_append hchars (head?_cons_of_not (a := ':') (by decide) (' ' :: value))
  unfold propertyForm? propertyLine
  rw [hrun.1, hrun.2]
  exact namedForm?_mark hname h _

theorem variableForm?_text (hname : name ≠ []) (hchars : ∀ c ∈ name, isWordChar c = true) (h : IsPhrase value) :
    ∃ form, variableForm? ('@' :: name ++ ' ' :: '=' :: ' ' :: value) = some form ∧ form.name = name ∧
      form.value.text = value := by
  have hrun := run_append hchars (head?_cons_of_not (a := ' ') (by decide) ('=' :: ' ' :: value))
  have hmark : trimLeft (' ' :: '=' :: ' ' :: value) = '=' :: ' ' :: value := by
    rw [trimLeft_cons_space, trimLeft_eq_self (head?_cons_of_not (by decide) _)]
  unfold variableForm?
  simp only [List.cons_append, hrun.1, hrun.2, hmark]
  exact namedForm?_mark hname h _

theorem paletteForm?_text {c : Char} (hc : c.isUpper = true) (h : IsPhrase value) :
    ∃ form, paletteForm? (c :: ' ' :: '=' :: ' ' :: value) = some form ∧ form.name = [c] ∧ form.value.text = value := by
  have hmark : trimLeft (' ' :: '=' :: ' ' :: value) = '=' :: ' ' :: value := by
    rw [trimLeft_cons_space, trimLeft_eq_self (head?_cons_of_not (by decide) _)]
  unfold paletteForm?
  dsimp only
  rw [if_pos hc, hmark]
  exact namedForm?_mark (by simp) h _

/-- A number that is all there is of a text is a run of digits, or two with a point between them. -/
theorem splitRadius?_eq_self (h : splitRadius? cs = some (cs, [])) : ∃ whole, whole ≠ [] ∧
    (∀ c ∈ whole, isDecimal c = true) ∧ (cs = whole ∨ ∃ frac, frac ≠ [] ∧ (∀ c ∈ frac, isDecimal c = true) ∧
      cs = whole ++ '.' :: frac) := by
  have hrun : ∀ (cs : List Char), ∀ c ∈ cs.takeWhile isDecimal, isDecimal c = true :=
    fun _ _ hc => List.mem_takeWhile_imp hc
  unfold splitRadius? at h
  split at h
  · cases h
  · rename_i hne
    split at h
    · cases h
    · rename_i hfrac
      have hcs := congrArg Prod.fst (Option.some.inj h)
      exact ⟨_, hne, hrun _, .inr ⟨_, hfrac, hrun _, hcs.symm⟩⟩
  · rename_i hne _
    have hcs := congrArg Prod.fst (Option.some.inj h)
    exact ⟨_, hne, hrun _, .inl hcs.symm⟩

theorem splitRadius?_append (h : splitRadius? cs = some (cs, [])) (rest : List Char) :
    splitRadius? (cs ++ ',' :: rest) = some (cs, ',' :: rest) := by
  have hcomma := head?_cons_of_not (p := isDecimal) (a := ',') (by decide) rest
  obtain ⟨whole, hne, hwhole, rfl | ⟨frac, hfrac, hfrac', rfl⟩⟩ := splitRadius?_eq_self h
  · unfold splitRadius?
    rw [(run_append hwhole hcomma).1, (run_append hwhole hcomma).2]
    obtain ⟨c, whole, rfl⟩ := List.exists_cons_of_ne_nil hne
    rfl
  · have hcs : whole ++ '.' :: frac ++ ',' :: rest = whole ++ '.' :: (frac ++ ',' :: rest) := by simp
    have hpoint := head?_cons_of_not (p := isDecimal) (a := '.') (by decide) (frac ++ ',' :: rest)
    unfold splitRadius?
    rw [hcs, (run_append hwhole hpoint).1, (run_append hwhole hpoint).2]
    obtain ⟨c, whole, rfl⟩ := List.exists_cons_of_ne_nil hne
    obtain ⟨d, frac, rfl⟩ := List.exists_cons_of_ne_nil hfrac
    simp only [(run_append hfrac' hcomma).1, (run_append hfrac' hcomma).2]

/-! ## Rings -/

theorem ringForm?_text {radius count : List Char} (hradius : splitRadius? radius = some (radius, []))
    (hcount : IsRun count) (h : IsPhrase value) :
    ∃ form, ringForm? ('O' :: call [] [radius, count] ++ ':' :: ' ' :: value) = some form ∧ form.radius = radius ∧
      form.count = count ∧ form.pattern.text = value := by
  have hblank : ∀ c ∈ (count ++ ')' :: ':' :: ' ' :: value).head?, isBlank c = false := by
    obtain ⟨c, count, rfl⟩ := List.exists_cons_of_ne_nil hcount.ne_nil
    rintro b ⟨⟩
    exact isBlank_of_isAlphanum (hcount.isAlphanum _ List.mem_cons_self)
  have hrun := run_append hcount.decimal (head?_cons_of_not (a := ')') (by decide) (':' :: ' ' :: value))
  -- the pieces of the line from the left, as the form takes them off
  have hopen : ['O', '('].isPrefixOf? ('O' :: call [] [radius, count] ++ ':' :: ' ' :: value) =
      some (radius ++ ',' :: ' ' :: (count ++ ')' :: ':' :: ' ' :: value)) := by
    have hline : 'O' :: call [] [radius, count] ++ ':' :: ' ' :: value =
        'O' :: '(' :: (radius ++ ',' :: ' ' :: (count ++ ')' :: ':' :: ' ' :: value)) := by
      simp [call, List.intercalate]
    rw [hline]
    rfl
  have hcomma : ∀ cs : List Char, [','].isPrefixOf? (',' :: cs) = some cs := fun _ => rfl
  have hclose : ∀ cs : List Char, [')', ':'].isPrefixOf? (')' :: ':' :: cs) = some cs := fun _ => rfl
  obtain ⟨t, ht, htext⟩ := tailOf?_cons_space h ('O' :: call [] [radius, count] ++ ':' :: ' ' :: value)
  refine ⟨⟨radius, count, t⟩, ?_, rfl, rfl, htext⟩
  unfold ringForm?
  simp only [hopen, splitRadius?_append hradius, hcomma, Option.bind_eq_bind, Option.bind_some, trimLeft_cons_space,
    trimLeft_eq_self hblank, hrun.1, hrun.2, hclose, ht]
  rw [if_neg (by simpa using hcount.ne_nil)]

theorem splitColors_of_not_mem (h : '[' ∉ cs) : splitColors cs = (cs, none) := by
  have hdrop : cs.reverse.dropWhile (· != '[') = [] := by
    rw [List.dropWhile_eq_nil_iff]
    intro c hc
    rw [bne_iff_ne]
    rintro rfl
    exact h (List.mem_reverse.1 hc)
  unfold splitColors
  rw [hdrop]

theorem colorName?_text {name : String} (h : IsColorName name) : colorName? name.toList = some name := by
  obtain ⟨c, hc, rfl⟩ := h
  have htrim : Trimmed [c] := .of_all fun d hd => by
    rw [List.mem_singleton.1 hd]
    exact isBlank_of_isAlphanum (isAlphanum_of_isUpper hc)
  unfold colorName?
  rw [String.toList_singleton, htrim.trim_eq]
  dsimp only
  rw [if_pos hc]

theorem colorName?_cons_space (cs : List Char) : colorName? (' ' :: cs) = colorName? cs := by
  unfold colorName?
  rw [trim_cons_space]

theorem colorNames?_text {names : List String} (hne : names ≠ []) (h : ∀ name ∈ names, IsColorName name) :
    colorNames? ([',', ' '].intercalate (names.map String.toList)) = some names := by
  have hcomma : ∀ p ∈ names.map String.toList, ',' ∉ p := by
    intro p hp
    obtain ⟨name, hname, rfl⟩ := List.mem_map.1 hp
    exact (h name hname).not_mem (by decide)
  have hnames := map_splitAtChar_list (by simpa using hne) hcomma fun p _ => colorName?_cons_space p
  have hmap : ∀ ps : List (List Char), ps.mapM colorName? = (ps.map colorName?).mapM id := by simp [List.mapM_map]
  unfold colorNames?
  rw [hmap, hnames, ← hmap, mapM_eq_some_iff_forall₂, List.forall₂_map_left_iff, List.forall₂_same]
  exact fun name hname => colorName?_text (h name hname)

/-- The colours of a ring are cut off at the last bracket that opens. -/
theorem splitColors_text {names : List String} (hcs : Trimmed cs) (hne : names ≠ [])
    (h : ∀ name ∈ names, IsColorName name) :
    splitColors (cs ++ ' ' :: '[' :: [',', ' '].intercalate (names.map String.toList) ++ [']']) = (cs, some names) := by
  obtain ⟨inner, hinner⟩ : ∃ inner, inner = [',', ' '].intercalate (names.map String.toList) := ⟨_, rfl⟩
  have hbracket : ∀ c ∈ ']' :: inner.reverse, (c != '[') = true := by
    intro c hc
    rw [bne_iff_ne]
    rintro rfl
    rw [List.mem_cons, List.mem_reverse, hinner] at hc
    rcases hc with hc | hc
    · cases hc
    · rcases mem_intercalate hc with hc | ⟨p, hp, hc⟩
      · exact absurd hc (by decide)
      · obtain ⟨name, hname, rfl⟩ := List.mem_map.1 hp
        exact (h name hname).not_mem (by decide) hc
  have hreverse : (cs ++ ' ' :: '[' :: inner ++ [']']).reverse =
      ']' :: inner.reverse ++ '[' :: (cs ++ [' ']).reverse := by simp
  have hrun := run_append hbracket (head?_cons_of_not (a := '[') (by decide) (cs ++ [' ']).reverse)
  have hnames : colorNames? inner = some names := by rw [hinner, colorNames?_text hne h]
  have hbehind : (']' :: inner.reverse).reverse = inner ++ [']'] := by simp
  have hends : trimRight (inner ++ [']']) = inner ++ [']'] := trimRight_eq_self (by simp; decide)
  have hback : (inner ++ [']']).reverse = ']' :: inner.reverse := by simp
  rw [← hinner]
  unfold splitColors
  rw [hreverse, hrun.1, hrun.2]
  simp only [hbehind, hends, hback, List.reverse_reverse, hnames, trimRight_space hcs.last]

/-! ## Lines of the sections -/

/-- The step succeeded, and the document came out. -/
structure Yields (o : Outcome) (d : Document) : Prop where
  fault : o.fault? = none
  document : o.document = d

/-- The text of the pattern of a ring or a definition. -/
theorem patternText_of_parse {p : Pattern} {source : String} (h : Pattern.parse s source = .ok p) :
    ∃ cs, Writing.patternText p = .ok cs ∧ IsPhrase cs ∧ (∀ c ∈ cs, Pattern.IsTextChar c) ∧
      Pattern.parse s (String.ofList cs) = .ok p := by
  obtain ⟨cs, htext, hspells, hread⟩ := Pattern.text_of_parse h
  refine ⟨cs, ?_, ⟨hspells.ne_nil (by simp) (by simp), hspells.trimmed, fun hmem => ?_⟩, hspells.chars, (hread _).1⟩
  · rw [Writing.patternText, htext]
    rfl
  · rcases hspells.chars _ hmem with hc | hc
    · exact absurd hc (by decide)
    · exact absurd hc (by decide)

end Document

open Document

variable {s : Settings} {d : Document} {l : Line}

/-- The text of the pattern of a ring, which may be the mark of a solid one. -/
theorem Ring.IsRead.patternText {r : Ring} (h : r.IsRead s) :
    ∃ cs, Writing.patternText r.pattern = .ok cs ∧ IsPhrase cs ∧ '[' ∉ cs ∧
      ∀ l t, t.text = cs → ringPatternOf s l t = .ok r.pattern := by
  obtain hsolid | ⟨source, hparse⟩ := h.pattern
  · refine ⟨['-'], by rw [hsolid]; rfl, ⟨by decide, .of_check (by decide), by decide⟩, by decide, fun l t ht => ?_⟩
    unfold ringPatternOf
    rw [ht, hsolid, if_pos (by decide)]
  · obtain ⟨cs, htext, hphrase, hchars, hread⟩ := patternText_of_parse hparse
    have hnot : ∀ c ∈ cs, c ≠ '[' ∧ c ≠ '-' := by
      intro c hc
      rcases hchars c hc with hc | hc
      · constructor <;> (rintro rfl; revert hc; decide)
      · constructor <;> (rintro rfl; revert hc; decide)
    refine ⟨cs, htext, hphrase, fun hmem => (hnot _ hmem).1 rfl, fun l t ht => ?_⟩
    unfold ringPatternOf
    rw [ht, hphrase.trimmed.trim_eq, if_neg, patternOf_eq_ok, ht, hread]
    rintro rfl
    exact (hnot '-' List.mem_cons_self).2 rfl

/-- The names of the colours of a ring, behind its pattern. -/
def colorsText : Option (List String) → List Char
  | none | some [] => []
  | some names => ' ' :: '[' :: [',', ' '].intercalate (names.map String.toList) ++ [']']

/-- The colours behind a pattern do not change it, and are found again. -/
theorem splitColors_colorsText {cs : List Char} {colors : Option (List String)} (hcs : IsPhrase cs)
    (hbracket : '[' ∉ cs) (hcolors : ∀ names ∈ colors, names ≠ [] ∧ ∀ name ∈ names, IsColorName name) :
    IsPhrase (cs ++ colorsText colors) ∧ splitColors (cs ++ colorsText colors) = (cs, colors) := by
  cases colors with
  | none => exact ⟨by simpa [colorsText] using hcs, by simpa [colorsText] using splitColors_of_not_mem hbracket⟩
  | some names =>
    obtain ⟨hne, hnames⟩ := hcolors names rfl
    have htext : cs ++ colorsText (some names) =
        cs ++ ' ' :: '[' :: [',', ' '].intercalate (names.map String.toList) ++ [']'] := by
      obtain ⟨name, names, rfl⟩ := List.exists_cons_of_ne_nil hne
      rw [colorsText, List.append_assoc]
      simp
    have hfeed : '\n' ∉ [',', ' '].intercalate (names.map String.toList) := by
      refine feed_not_mem_intercalate fun p hp => ?_
      obtain ⟨name, hname, rfl⟩ := List.mem_map.1 hp
      exact (hnames name hname).not_mem (by decide)
    rw [htext]
    refine ⟨⟨by simp, ?_, ?_⟩, splitColors_text hcs.trimmed hne hnames⟩
    · exact hcs.trimmed.around (.of_check (by decide)) hcs.ne_nil (by simp) _
    · simp [hcs.unbroken, hfeed]

theorem Ring.text_of_parts {r : Ring} {radius count pattern : List Char}
    (hradius : Writing.measureText r.radius = .ok radius)
    (hcount : r.elementCount.text.mapError Writing.Fault.numeral = .ok count)
    (hpattern : Writing.patternText r.pattern = .ok pattern) :
    r.text = .ok ('O' :: call [] [radius, count] ++ ':' :: ' ' :: (pattern ++ colorsText r.colors)) := by
  unfold Ring.text
  rw [hradius, hcount, hpattern]
  match r.colors with
  | none | some [] | some (name :: names) => simp [Bind.bind, Except.bind, colorsText]

/-- A ring is read back from its line. -/
theorem Ring.IsRead.read_text {r : Ring} (h : r.IsRead s)
    (hback : ∀ x, r.radius = .float x → splitRadius? x.plainText = some (x.plainText, []) ∧
      Binary64.ofNumeral? x.plainText = some x) :
    ∃ cs, r.text = .ok cs ∧ IsEntry cs ∧
      ∀ d l, l.text = cs → Yields (ringLine s d l) { d with rings := d.rings ++ [r] } := by
  obtain ⟨x, hx⟩ := h.radius
  obtain ⟨n, hn, hfits⟩ := h.count
  obtain ⟨pattern, hpattern, hphrase, hbracket, hread⟩ := h.patternText
  obtain ⟨hsplit, hvalue⟩ := hback x hx
  obtain ⟨htail, hcolors⟩ := splitColors_colorsText hphrase hbracket h.colors
  have hradius : Writing.measureText r.radius = .ok x.plainText := by
    rw [hx]
    rfl
  have hcount : r.elementCount.text.mapError Writing.Fault.numeral = .ok (Numeral.digits n) := by
    rw [hn, Count.text, Count.toValue, Value.written, Numeral.write_natCast hfits]
    rfl
  refine ⟨_, Ring.text_of_parts hradius hcount hpattern, ?_, fun d l hl => ?_⟩
  · have hfeed : '\n' ∉ [',', ' '].intercalate [x.plainText, Numeral.digits n] := by
      refine feed_not_mem_intercalate ?_
      simp [Binary64.feed_not_mem_plainText x, feed_not_mem_of_isAlphanum (Numeral.isRun_digits n).isAlphanum]
    have hcall : IsPhrase (call ['O'] [x.plainText, Numeral.digits n]) :=
      isPhrase_call (by simp) (.of_check (by decide)) (by decide) hfeed
    have hentry := IsEntry.append (hcall.append (isPhrase_singleton (c := ':') (by decide))) (by simp [call]) htail
    simpa [call] using hentry
  · obtain ⟨form, hform, hformRadius, hformCount, hformPattern⟩ := ringForm?_text hsplit (Numeral.isRun_digits n) htail
    have hring : ringOf s l = .ok (some r) := by
      unfold ringOf
      rw [hl, hform]
      dsimp only
      rw [hformRadius, hvalue, hformCount, Numeral.read_digits hfits, hformPattern, hcolors]
      dsimp only
      rw [hread l _ rfl, ← hx, ← hn]
    unfold ringLine
    rw [hring]
    exact ⟨rfl, rfl⟩

/-- A definition is read back from its line. -/
theorem Definition.IsRead.read_text {v : Definition} (h : v.IsRead s) :
    ∃ cs, v.text = .ok cs ∧ IsEntry cs ∧
      ∀ d l, l.text = cs → Yields (variableLine s d l) { d with definitions := d.definitions ++ [v] } := by
  obtain ⟨source, hparse⟩ := h.pattern
  obtain ⟨pattern, hpattern, hphrase, -, hread⟩ := patternText_of_parse hparse
  refine ⟨'@' :: v.name.toList ++ ' ' :: '=' :: ' ' :: pattern, ?_, ?_, fun d l hl => ?_⟩
  · rw [Definition.text, hpattern]
    rfl
  · have hfeed : '\n' ∉ v.name.toList := fun hmem => absurd (h.chars _ hmem) (by decide)
    have hfront : IsPhrase (['@'] ++ (v.name.toList ++ [' ']) ++ ['=']) := by
      refine ⟨by simp, .around (.of_check (by decide)) (.of_check (by decide)) (by simp) (by simp) _, ?_⟩
      simp [hfeed]
    simpa using IsEntry.append hfront (by simp) hphrase
  · obtain ⟨form, hform, hname, hvalue⟩ := variableForm?_text h.ne_nil h.chars hphrase
    have hp : patternOf s l form.value = .ok v.pattern := by rw [patternOf_eq_ok, hvalue, hread]
    unfold variableLine
    rw [hl, hform]
    dsimp only
    rw [hp, hname, String.ofList_toList]
    exact ⟨rfl, rfl⟩

/-- A colour of a palette is read back from its line. -/
theorem paletteLine_text {e : String × Color} (hname : IsColorName e.1) (hread : e.2.IsRead) (hs : e.2.Survives) :
    ∃ cs, colorLineText e = .ok cs ∧ IsEntry cs ∧
      ∀ d l, l.text = cs → Yields (paletteLine d l)
        { d with palette := some ((d.palette.getD []).put e.1 e.2) } := by
  obtain ⟨_, color⟩ := e
  obtain ⟨c, hc, rfl⟩ := hname
  obtain ⟨t, htext, hphrase, hexpression⟩ := hread.read_text hs
  refine ⟨c :: ' ' :: '=' :: ' ' :: t, ?_, ?_, fun d l hl => ?_⟩
  · rw [colorLineText, htext, String.toList_singleton]
    rfl
  · have hletter := isAlphanum_of_isUpper hc
    have hfront : IsPhrase ([c] ++ [' '] ++ ['=']) := by
      refine ⟨by simp, .around (.of_all ?_) (.of_check (by decide)) (by simp) (by simp) _, ?_⟩
      · simpa using isBlank_of_isAlphanum hletter
      · simpa using @feed_not_mem_of_isAlphanum [c] (by simpa using hletter)
    simpa using IsEntry.append hfront (by rintro ⟨⟩; cases hc) hphrase
  · obtain ⟨form, hform, hname, hvalue⟩ := paletteForm?_text hc hphrase
    unfold paletteLine
    rw [hl, hform]
    dsimp only
    rw [hvalue, hexpression, hname]
    exact ⟨rfl, rfl⟩

/-! ## The dot -/

theorem isEntry_propertyLine {name : String} {value : List Char} (hname : ∀ c ∈ name.toList, c.isAlphanum = true)
    (hne : name.toList ≠ []) (h : IsPhrase value) : IsEntry (propertyLine name value) := by
  obtain ⟨c, cs, hcs⟩ := List.exists_cons_of_ne_nil hne
  have hphrase : IsPhrase name.toList :=
    ⟨hne, .of_all fun c hc => isBlank_of_isAlphanum (hname c hc), feed_not_mem_of_isAlphanum hname⟩
  have hhead : (name.toList ++ [':']).head? ≠ some ';' := by
    rw [hcs]
    rintro ⟨⟩
    exact absurd (hname ';' (by rw [hcs]; exact List.mem_cons_self)) (by decide)
  have := IsEntry.append (hphrase.append (isPhrase_singleton (c := ':') (by decide))) hhead h
  unfold propertyLine
  simpa using this

theorem isPhrase_plainText {x : Binary64} (hback : Binary64.leading? x.plainText = some x) : IsPhrase x.plainText := by
  refine ⟨fun hnil => ?_, Binary64.trimmed_plainText x, Binary64.feed_not_mem_plainText x⟩
  rw [hnil] at hback
  exact absurd hback (by rw [show Binary64.leading? [] = none from rfl]; simp)

theorem isPhrase_boolText (b : Bool) : IsPhrase (if b then "true" else "false").toList := by
  cases b <;> exact ⟨by simp, .of_check (by decide), by decide⟩

theorem dotLine_size {x : Binary64} {dot : Dot} (hback : Binary64.leading? x.plainText = some x)
    (hl : l.text = propertyLine "size" x.plainText) :
    (dotLine dot l).1 = { dot with size := some (.float x) } := by
  obtain ⟨form, hform, hname, hvalue⟩ :=
    propertyForm?_text "size" (by simp) (List.all_eq_true.1 (by decide)) (isPhrase_plainText hback)
  unfold dotLine
  rw [hl, hform]
  dsimp only
  rw [hvalue, hback, hname]
  rfl

theorem dotLine_color {color : String} {dot : Dot} (hphrase : IsPhrase color.toList)
    (hl : l.text = propertyLine "color" color.toList) :
    (dotLine dot l).1 = { dot with color := some color } := by
  obtain ⟨form, hform, hname, hvalue⟩ := propertyForm?_text "color" (by simp) (List.all_eq_true.1 (by decide)) hphrase
  unfold dotLine
  rw [hl, hform]
  dsimp only
  rw [hvalue, hname]
  simp

theorem dotLine_visible {visible : Bool} {dot : Dot}
    (hl : l.text = propertyLine "visible" (if visible then "true" else "false").toList) :
    (dotLine dot l).1 = { dot with visible := some visible } := by
  obtain ⟨form, hform, hname, hvalue⟩ :=
    propertyForm?_text "visible" (by simp) (List.all_eq_true.1 (by decide)) (isPhrase_boolText visible)
  have hlower : (lower (if visible then "true" else "false").toList == ['t', 'r', 'u', 'e']) = visible := by
    cases visible <;> decide +kernel
  unfold dotLine
  rw [hl, hform]
  dsimp only
  rw [hvalue, hname, hlower]
  rfl

end Rosette
