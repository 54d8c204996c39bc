import Rosette.Proofs.Json.RoundTrip
import Rosette.Proofs.Record.Typed

/-!
# Records are read back

Main result: a well-typed record has a document, and every document that differs from it in the order of members only
is read as a record equal to it; so is what the text of the document holds (`read_write`). Members are found by their
names, so what an object says of its record does not depend on their order; and the members of a table are never asked
for a kind, so their names may be any texts.
-/

namespace Rosette.Record

open Json (Rearranged IsWritable)

/-! ## Fields of an object -/

/-- What a member of an object holds as a field. -/
def fieldOf (keyed : Bool) : Json → Except Fault Value
  | .object members => if keyed then (ofJsonEntries members).map .table else ofJson (.object members)
  | .keyed members => if keyed then (ofJsonPairs members).map .ofPairs else .error .noKind
  | j => ofJson j

theorem ofJsonFields_eq_map (kind : Kind) (ms : List (String × Json)) :
    ofJsonFields kind ms = ms.map fun m => (m.1, fieldOf (kind.isKeyed m.1) m.2) := by
  induction ms with
  | nil => rw [ofJsonFields]; rfl
  | cons m ms ih =>
    obtain ⟨k, j⟩ := m
    cases j <;> rw [ofJsonFields, ih] <;> cases hk : kind.isKeyed k <;> simp [fieldOf, hk, ofJson]

/-- What a record is made of: what was read under the name of each field, once settled, is like the value that the
field is to have. -/
def Fills (found : List (String × Except Fault Value)) (f : Field) (v : Value) : Prop :=
  ∃ w u, found.lookup f.name = some (.ok w) ∧ settle f w = .ok u ∧ u.same v = true

theorem build_of_fills {kind : Kind} {found : List (String × Except Fault Value)} {vs : List Value}
    (h : List.Forall₂ (Fills found) kind.fields vs) :
    ∃ us, build kind found = .ok (.record kind us) ∧ Value.sameItems us vs = true := by
  have hall : ∀ fs, List.Forall₂ (Fills found) fs vs →
      ∃ ws us : List Value, fs.mapM (fieldValue found) = .ok (ws.map some) ∧
      ((fs.zip (ws.map some)).filterMap fun e => if e.2.isNone then some e.1.name else none) = [] ∧
      ((fs.zip (ws.map some)).mapM fun e => settle e.1 (e.2.getD .null)) = .ok us ∧
      Value.sameItems us vs = true := by
    intro fs hfs
    clear h
    induction hfs with
    | nil => exact ⟨[], [], rfl, rfl, rfl, by rw [Value.sameItems]⟩
    | @cons f v fs vs hf _ ih =>
      obtain ⟨w, u, hlookup, hsettle, hsame⟩ := hf
      obtain ⟨ws, us, hvalues, habsent, hsettled, hsames⟩ := ih
      have hvalue : fieldValue found f = .ok (some w) := by rw [fieldValue, hlookup]
      refine ⟨w :: ws, u :: us, ?_, ?_, ?_, ?_⟩
      · rw [List.mapM_cons, hvalue, hvalues]
        rfl
      · simpa using habsent
      · rw [List.map_cons, List.zip_cons_cons, List.mapM_cons, hsettled]
        simp only [Option.getD_some, hsettle]
        rfl
      · rw [Value.sameItems, hsame, hsames]
        rfl
  obtain ⟨ws, us, hvalues, habsent, hsettled, hsames⟩ := hall _ h
  refine ⟨us, ?_, hsames⟩
  rw [build, hvalues]
  refine (if_pos (List.isEmpty_iff.2 habsent)).trans ?_
  exact congrArg (fun r : Except Fault (List Value) => r.bind fun us => .ok (Value.record kind us)) hsettled

/-! ## Values of a type -/

theorem toJsonItems_eq_map (vs : List Value) : toJsonItems vs = vs.map toJson := by
  induction vs with
  | nil => rw [toJsonItems]; rfl
  | cons v vs ih => rw [toJsonItems, ih]; rfl

theorem toJsonEntries_eq_map (entries : List (String × Value)) :
    toJsonEntries entries = entries.map fun e => (e.1, toJson e.2) := by
  induction entries with
  | nil => rw [toJsonEntries]; rfl
  | cons e entries ih => rw [toJsonEntries, ih]; rfl

theorem ofJsonEntries_eq_mapM (ms : List (String × Json)) :
    ofJsonEntries ms = ms.mapM fun m => (ofJson m.2).map fun v => (m.1, v) := by
  induction ms with
  | nil => rw [ofJsonEntries]; rfl
  | cons m ms ih =>
    rw [ofJsonEntries, ih, List.mapM_cons]
    cases ofJson m.2 <;> rfl

/-- A value that is read from every rearrangement of its document. -/
def IsReadBack (v : Value) : Prop := ∀ j, Rearranged (toJson v) j → ∃ w, ofJson j = .ok w ∧ w.same v = true

theorem isReadBack_list {items : List Value} (h : ∀ v ∈ items, IsReadBack v) : IsReadBack (.list items) := by
  intro j hj
  rw [toJson, toJsonItems_eq_map] at hj
  obtain _ | _ | _ | _ | _ | @⟨_, js, each⟩ := hj
  rw [List.forall₂_map_left_iff] at each
  have hitems : ∃ ws, ofJsonItems js = .ok ws ∧ Value.sameItems ws items = true := by
    induction each with
    | nil => exact ⟨[], by rw [ofJsonItems], by rw [Value.sameItems]⟩
    | @cons v j items js hvj _ ih =>
      obtain ⟨w, hw, hsame⟩ := h v List.mem_cons_self j hvj
      obtain ⟨ws, hws, hsames⟩ := ih fun v hv => h v (List.mem_cons_of_mem _ hv)
      refine ⟨w :: ws, ?_, ?_⟩
      · rw [ofJsonItems, hw, hws]
        rfl
      · rw [Value.sameItems, hsame, hsames]
        rfl
  obtain ⟨ws, hws, hsames⟩ := hitems
  exact ⟨.list ws, by rw [ofJson, hws]; rfl, by rw [Value.same]; exact hsames⟩

/-- A table is read from every rearrangement of its members. -/
theorem ofJsonEntries_of_isReadBack {entries : List (String × Value)} {j : Json}
    (nodup : (entries.map Prod.fst).Nodup) (h : ∀ e ∈ entries, IsReadBack e.2)
    (hj : Rearranged (toJson (.table entries)) j) :
    ∃ ms es, j = .object ms ∧ ofJsonEntries ms = .ok es ∧ (Value.table es).same (.table entries) = true := by
  rw [toJson, toJsonEntries_eq_map] at hj
  obtain ⟨ms, rfl, hlength, -, -, hback⟩ := hj.members
  have hread : ∀ m ∈ ms, ∃ e, ((ofJson m.2).map fun v => (m.1, v)) = .ok e ∧
      ∃ v, entries.lookup e.1 = some v ∧ e.2.same v = true := by
    rintro ⟨k, d'⟩ hm
    obtain ⟨d, hd, hrel⟩ := hback k d' hm
    obtain ⟨⟨k', v⟩, he, heq⟩ := List.mem_map.1 hd
    cases heq
    obtain ⟨w, hw, hsame⟩ := h _ he _ hrel
    exact ⟨(k', w), by rw [hw]; rfl, v, Table.lookup_eq_some_of_mem nodup he, hsame⟩
  obtain ⟨es, hes, hall⟩ := exists_mapM_eq_ok hread
  refine ⟨ms, es, rfl, by rw [ofJsonEntries_eq_mapM, hes], ?_⟩
  have hsame : Value.sameEntries es entries = true := by
    clear hes hread hback hlength hj
    induction hall with
    | nil => rw [Value.sameEntries]
    | @cons m e ms es hme _ ih =>
      obtain ⟨v, hv, hsame⟩ := hme
      rw [Value.sameEntries, hv, ih]
      simpa using hsame
  rw [Value.same, hsame, ← hall.length_eq, hlength, List.length_map]
  simp

/-! ## Records of a kind -/

/-- The field has what a value of the type needs: room for a table, or for none. -/
def FieldTy.Fits : FieldTy → Field → Prop
  | .value _, f => f.keyed = false
  | .table _, f => f.keyed = true
  | .optionalTable _, f => f.keyed = true ∧ f.default? = some .null

theorem Kind.fits_types (kind : Kind) : List.Forall₂ FieldTy.Fits kind.types kind.fields := by
  cases kind <;> repeat' constructor

theorem Kind.ofName?_name (kind : Kind) : ofName? kind.name = some kind := by
  cases kind <;> decide

theorem Kind.nodup_names (kind : Kind) : ("_type" :: kind.fields.map (·.name)).Nodup := by
  cases kind <;> decide

theorem Kind.isKeyed_name {kind : Kind} : ∀ f ∈ kind.fields, kind.isKeyed f.name = f.keyed := by
  cases kind <;> decide

theorem settle_of_not_keyed {f : Field} (hf : f.keyed = false) (v : Value) : settle f v = .ok v := by
  unfold settle
  rw [if_neg (by simp [hf])]

theorem settle_table (f : Field) (entries : List (String × Value)) :
    settle f (.table entries) = .ok (.table entries) := by
  unfold settle
  split
  · split
    · rename_i hnull
      cases hnull
    · rfl
  · rfl

theorem settle_null {f : Field} (hf : f.default? = some .null) : settle f .null = .ok .null := by
  unfold settle
  rw [hf]
  split <;> rfl

/-- A value that a field gets back from every rearrangement of its document. -/
def IsFieldReadBack (f : Field) (v : Value) : Prop :=
  ∀ j, Rearranged (toJson v) j → ∃ w u, fieldOf f.keyed j = .ok w ∧ settle f w = .ok u ∧ u.same v = true

theorem isFieldReadBack_of_isReadBack {f : Field} {v : Value} (hf : f.keyed = false) (h : IsReadBack v) :
    IsFieldReadBack f v := by
  intro j hj
  obtain ⟨w, hw, hsame⟩ := h j hj
  have hfield : fieldOf f.keyed j = .ok w := by
    rw [hf, ← hw]
    cases j <;> rfl
  exact ⟨w, w, hfield, settle_of_not_keyed hf w, hsame⟩

theorem isFieldReadBack_table {f : Field} {entries : List (String × Value)} (hf : f.keyed = true)
    (nodup : (entries.map Prod.fst).Nodup) (h : ∀ e ∈ entries, IsReadBack e.2) : IsFieldReadBack f (.table entries) := by
  intro j hj
  obtain ⟨ms, es, rfl, hes, hsame⟩ := ofJsonEntries_of_isReadBack nodup h hj
  refine ⟨.table es, .table es, ?_, settle_table f es, hsame⟩
  rw [fieldOf, if_pos hf, hes]
  rfl

theorem isFieldReadBack_null {f : Field} (hf : f.default? = some .null) : IsFieldReadBack f .null := by
  intro j hj
  rw [toJson] at hj
  obtain _ | _ := hj
  exact ⟨.null, .null, by rw [fieldOf, ofJson] <;> nofun, settle_null hf, by rw [Value.same]⟩

theorem names_toJsonFields {fs : List Field} {vs : List Value} (h : fs.length = vs.length) :
    (toJsonFields (fs.map (·.name)) vs).map Prod.fst = fs.map (·.name) := by
  induction fs generalizing vs with
  | nil => cases vs <;> rfl
  | cons f fs ih =>
    cases vs with
    | nil => cases h
    | cons v vs =>
      rw [List.map_cons, toJsonFields, List.map_cons, ih (Nat.succ.inj h)]

theorem mem_toJsonFields {fs : List Field} {vs : List Value} {f : Field} {v : Value} (h : (f, v) ∈ fs.zip vs) :
    (f.name, toJson v) ∈ toJsonFields (fs.map (·.name)) vs := by
  induction fs generalizing vs with
  | nil => simp at h
  | cons f' fs ih =>
    cases vs with
    | nil => simp at h
    | cons v' vs =>
      rw [List.map_cons, toJsonFields]
      rcases List.mem_cons.1 h with heq | h
      · cases heq
        exact List.mem_cons_self
      · exact List.mem_cons_of_mem _ (ih h)

theorem lookup_ofJsonFields (kind : Kind) (ms : List (String × Json)) (k : String) :
    (ofJsonFields kind ms).lookup k = (ms.lookup k).map (fieldOf (kind.isKeyed k)) := by
  rw [ofJsonFields_eq_map]
  induction ms with
  | nil => rfl
  | cons m ms ih =>
    rw [List.map_cons, List.lookup_cons, List.lookup_cons]
    by_cases hk : k = m.1
    · simp [hk]
    · rw [beq_false_of_ne hk]
      exact ih

/-- **A record is found in every rearrangement of its document**: the kind and the fields are looked up by name. -/
theorem isReadBack_record {kind : Kind} {vs : List Value} (h : List.Forall₂ IsFieldReadBack kind.fields vs) :
    IsReadBack (.record kind vs) := by
  intro j hj
  rw [toJson] at hj
  obtain ⟨ms, rfl, -, hnodup, hfound, -⟩ := hj.members
  have hdistinct : (ms.map Prod.fst).Nodup := by
    refine hnodup ?_
    rw [List.map_cons, names_toJsonFields h.length_eq]
    exact kind.nodup_names
  have hkind : kindOf ms = .ok kind := by
    obtain ⟨d, hd, hrel⟩ := hfound "_type" _ List.mem_cons_self
    cases hrel
    rw [kindOf, Table.lookup_eq_some_of_mem hdistinct hd]
    simp [kind.ofName?_name]
  have hfills : List.Forall₂ (Fills (ofJsonFields kind ms)) kind.fields vs := by
    refine List.forall₂_iff_zip.2 ⟨h.length_eq, fun {f v} hmem => ?_⟩
    obtain ⟨d, hd, hrel⟩ := hfound _ _ (List.mem_cons_of_mem _ (mem_toJsonFields hmem))
    obtain ⟨w, u, hw, hu, hsame⟩ := List.forall₂_zip h hmem d hrel
    refine ⟨w, u, ?_, hu, hsame⟩
    rw [lookup_ofJsonFields, Table.lookup_eq_some_of_mem hdistinct hd, Kind.isKeyed_name f (List.of_mem_zip hmem).1,
      ← hw]
    rfl
  obtain ⟨us, hbuild, hsames⟩ := build_of_fills hfills
  refine ⟨.record kind us, ?_, ?_⟩
  · rw [ofJson, hkind]
    exact hbuild
  · rw [Value.same, hsames]
    simp

/-! ## Typed values -/

theorem isReadBack_of_ofJson {v : Value} (hread : ∀ j, Rearranged (toJson v) j → ofJson j = .ok v)
    (hsame : v.same v = true) : IsReadBack v :=
  fun j hj => ⟨v, hread j hj, hsame⟩

mutual

theorem HasType.isReadBack {v : Value} {t : Ty} : HasType v t → IsReadBack v
  | .text s => isReadBack_of_ofJson (fun j hj => by rw [toJson] at hj; cases hj; rw [ofJson]) (by simp [Value.same])
  | .bool b | .boolInt b => isReadBack_of_ofJson (fun j hj => by rw [toJson] at hj; cases hj; rw [ofJson])
    (by simp [Value.same, Value.number?, Value.sameNumber])
  | .int h => isReadBack_of_ofJson (fun j hj => by rw [toJson] at hj; cases hj; rw [ofJson])
    (by simp [Value.same, Value.number?, Value.sameNumber])
  | .intFloat h => h.isReadBack
  | .float ne _ => isReadBack_of_ofJson (fun j hj => by rw [toJson] at hj; cases hj; rw [ofJson])
    (by simp [Value.same, Value.number?, Value.sameNumber, Binary64.equal_self ne])
  | .node _ fields => isReadBack_record (fields.isFieldReadBack (Kind.fits_types _))
  | .list each => isReadBack_list fun v hv => (each v hv).isReadBack
  | .nothing t => isReadBack_of_ofJson (fun j hj => by rw [toJson] at hj; cases hj; rw [ofJson]) (by simp [Value.same])
  | .something h => h.isReadBack

theorem HasFields.isFieldReadBack {vs : List Value} {ts : List FieldTy} :
    HasFields vs ts → ∀ {fs : List Field}, List.Forall₂ FieldTy.Fits ts fs → List.Forall₂ IsFieldReadBack fs vs
  | .nil, _, .nil => .nil
  | .value h rest, _, .cons hf hfs => .cons (isFieldReadBack_of_isReadBack hf h.isReadBack) (rest.isFieldReadBack hfs)
  | .table ft_eq nodup each rest, _, .cons hf hfs =>
    .cons (isFieldReadBack_table (by obtain rfl | rfl := ft_eq; exacts [hf, hf.1]) nodup
      fun e he => (each e he).isReadBack) (rest.isFieldReadBack hfs)
  | .noTable rest, _, .cons hf hfs => .cons (isFieldReadBack_null hf.2) (rest.isFieldReadBack hfs)

end

/-! ## Texts of records -/

theorem exists_of_mem_toJsonFields {names : List String} {vs : List Value} {m : String × Json}
    (h : m ∈ toJsonFields names vs) : ∃ v ∈ vs, m.2 = toJson v := by
  induction names generalizing vs with
  | nil => simp [toJsonFields] at h
  | cons name names ih =>
    cases vs with
    | nil => simp [toJsonFields] at h
    | cons v vs =>
      rw [toJsonFields] at h
      rcases List.mem_cons.1 h with rfl | h
      · exact ⟨v, List.mem_cons_self, rfl⟩
      · obtain ⟨w, hw, hm⟩ := ih h
        exact ⟨w, List.mem_cons_of_mem _ hw, hm⟩

theorem HasFields.length_eq {vs : List Value} {ts : List FieldTy} : HasFields vs ts → vs.length = ts.length
  | .nil => rfl
  | .value _ rest | .table _ _ _ rest | .noTable rest => congrArg Nat.succ rest.length_eq

theorem isWritable_table {entries : List (String × Value)} (nodup : (entries.map Prod.fst).Nodup)
    (h : ∀ e ∈ entries, IsWritable (toJson e.2)) : IsWritable (toJson (.table entries)) := by
  rw [toJson, toJsonEntries_eq_map]
  refine .object (by simpa [Function.comp_def] using nodup) fun m hm => ?_
  obtain ⟨e, he, rfl⟩ := List.mem_map.1 hm
  exact h e he

theorem isWritable_record {kind : Kind} {vs : List Value} (hlength : vs.length = kind.types.length)
    (h : ∀ v ∈ vs, IsWritable (toJson v)) : IsWritable (toJson (.record kind vs)) := by
  rw [toJson]
  refine .object ?_ fun m hm => ?_
  · rw [List.map_cons, names_toJsonFields (kind.fits_types.length_eq.symm.trans hlength.symm)]
    exact kind.nodup_names
  · rcases List.mem_cons.1 hm with rfl | hm
    · exact .text _
    · obtain ⟨v, hv, hjson⟩ := exists_of_mem_toJsonFields hm
      rw [hjson]
      exact h v hv

mutual

theorem HasType.isWritable {v : Value} {t : Ty} : HasType v t → IsWritable (toJson v)
  | .text s => by rw [toJson]; exact .text s
  | .bool b | .boolInt b => by rw [toJson]; exact .bool b
  | .int h => by rw [toJson]; exact .int h
  | .intFloat h => h.isWritable
  | .float _ canonical => by rw [toJson]; exact .float canonical
  | .node _ fields => isWritable_record fields.length_eq fields.isWritable
  | .list each => by
    rw [toJson, toJsonItems_eq_map]
    exact .list (List.forall_mem_map.2 fun v hv => (each v hv).isWritable)
  | .nothing t => by rw [toJson]; exact .null
  | .something h => h.isWritable

theorem HasFields.isWritable {vs : List Value} {ts : List FieldTy} :
    HasFields vs ts → ∀ v ∈ vs, IsWritable (toJson v)
  | .nil => nofun
  | .value h rest => List.forall_mem_cons.2 ⟨h.isWritable, rest.isWritable⟩
  | .table _ nodup each rest =>
    List.forall_mem_cons.2 ⟨isWritable_table nodup fun e he => (each e he).isWritable, rest.isWritable⟩
  | .noTable rest => List.forall_mem_cons.2 ⟨by rw [toJson]; exact .null, rest.isWritable⟩

end

theorem isGap_of_mem_spaces {n : Int} {c : Char} (h : c ∈ Json.spaces n) : Json.isGap c = true := by
  rw [List.eq_of_mem_replicate h]
  rfl

/-- **Records are read back.** A well-typed record has a document, and from every rearrangement of that a record is read
that is equal to it. With any indent the document has a text, from which such a record is read, too. -/
theorem read_write {n : Value} (h : IsNode n) :
    ∃ d, write n = .ok d ∧ (∀ d', Rearranged d d' → ∃ m, ofJson d' = .ok m ∧ m.same n = true) ∧
      ∀ indent : Option Int, ∃ text d' m, Json.render (indent.map Json.spaces) d = .ok text ∧
        Json.read text = .ok d' ∧ read d' = .ok m ∧ m.same n = true := by
  have hback : IsReadBack n := HasType.isReadBack h
  have hwritable : IsWritable (toJson n) := HasType.isWritable h
  obtain ⟨kind, vs, rfl⟩ : ∃ kind vs, n = .record kind vs := by
    unfold IsNode at h
    cases h with
    | node mem fields => exact ⟨_, _, rfl⟩
  refine ⟨toJson (.record kind vs), rfl, hback, fun indent => ?_⟩
  have hindent : ∀ unit ∈ indent.map Json.spaces, ∀ c ∈ unit, Json.isGap c = true := by
    intro unit hunit c hc
    obtain ⟨i, -, rfl⟩ := Option.map_eq_some_iff.1 hunit
    exact isGap_of_mem_spaces hc
  obtain ⟨text, d', htext, hread, hrel⟩ := hwritable.read_render hindent
  obtain ⟨m, hm, hsame⟩ := hback d' hrel
  refine ⟨text, d', m, htext, hread, ?_, hsame⟩
  rw [toJson] at hrel
  obtain ⟨ms, rfl, -⟩ := hrel.members
  exact hm

/-- A colour function with parameters that look like a stored record. -/
def mimic : Value :=
  .record .colorFunction [.text "noise",
    .table [("_type", .int 2), ("name", .float (.finite false 6755399441055744 (-52)))]]

theorem read_write_mimic :
    IsNode mimic ∧ ∃ d, write mimic = .ok d ∧
      (∀ d', Rearranged d d' → ∃ m, ofJson d' = .ok m ∧ m.same mimic = true) ∧
      ∀ indent : Option Int, ∃ text d' m, Json.render (indent.map Json.spaces) d = .ok text ∧
        Json.read text = .ok d' ∧ read d' = .ok m ∧ m.same mimic = true := by
  have hname : HasType (.float (.finite false 6755399441055744 (-52))) .float :=
    .float nofun ⟨by decide, by decide, by decide, .inl (by decide)⟩
  have hparams : HasFields [.table [("_type", .int 2), ("name", .float (.finite false 6755399441055744 (-52)))]]
      [.table .float] :=
    .table (.inl rfl) (by decide)
      (List.forall_mem_cons.2 ⟨.intFloat (.int (by decide)), List.forall_mem_singleton.2 hname⟩) .nil
  have hnode : IsNode mimic := .node (by decide) (.value (.text _) hparams)
  exact ⟨hnode, read_write hnode⟩

end Rosette.Record
