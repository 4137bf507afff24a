import TypedIR.Proofs.TypeGrowth

/-
  The type table is hash-consed.

  Requests are made of a table one after the other, from the table of the
  builtins on, and nobody checks that the types they mention are there
  (`Registry.after`). What is shown (`Registry.hash_consing`):

  1. a type that is there stays as it is, whatever is requested later;
  2. a type that is no struct is known by its form, the constructor it was made
     by and the components it was given, and no two types have one form;
  3. a request for a form gives the type that has it, and changes nothing, or
     adds one type that has it;
  4. a request for a struct gives a type that was not given before, with the
     fields it was asked for; their names change by requests to name the fields
     of that struct, and by no others.

  The table finds a type in three ways: by its descriptor, for which a scan does what
  asking an index would (`TypeTable.intern_eq`), and by walks through the side tables of
  signatures and of decorations. `Keyed` holds of all of them
  together, and `Keyed.append` is the one place where a type is added to it.
-/

namespace TypedIR

namespace TypeTable

/-! ## Forms -/

/-- A type that its descriptor tells everything about. -/
inductive Plain where
  | void
  | int (width : UInt8)
  | uint (width : UInt8)
  | float (width : UInt8)
  | pointer (target : TypeId)
  deriving DecidableEq, Repr

namespace Plain

def descriptor : Plain → Descriptor
  | .void => { kind := .void }
  | .int w => .int w
  | .uint w => .uint w
  | .float w => .float w
  | .pointer target => .pointer target

def ofDescriptor? (d : Descriptor) : Option Plain :=
  match d.kind with
  | .void => some .void
  | .int => some (.int d.width)
  | .uint => some (.uint d.width)
  | .float => some (.float d.width)
  | .pointer => some (.pointer d.elem)
  | _ => none

end Plain

/-- What makes a type that is no struct: its constructor and the components. -/
inductive Form where
  | plain (p : Plain)
  | signature (s : Signature)
  | tagged (base : TypeId) (deco : Decoration)
  deriving DecidableEq, Repr

def formOf (t : TypeTable) (d : Descriptor) : Option Form :=
  match d.kind with
  | .signature => (t.signatures[d.slot]?).map .signature
  | .tagged => (t.decorations[d.slot]?).map (.tagged d.elem)
  | _ => (Plain.ofDescriptor? d).map .plain

def form? (t : TypeTable) (id : TypeId) : Option Form :=
  (t.find? id).bind t.formOf

variable {t t' : TypeTable} {d : Descriptor} {id : TypeId}

theorem formOf_plain (t : TypeTable) (p : Plain) : t.formOf p.descriptor = some (.plain p) := by
  cases p <;> rfl

theorem formOf_eq_signature (s : Signature) :
    t.formOf d = some (.signature s) ↔ t.isSignature s d = true := by
  unfold formOf isSignature
  rcases d with ⟨kind, elem, width, slot⟩
  cases kind <;> simp [Plain.ofDescriptor?]

theorem formOf_eq_tagged (base : TypeId) (deco : Decoration) :
    t.formOf d = some (.tagged base deco) ↔ t.isDecorated base deco d = true := by
  unfold formOf isDecorated
  rcases d with ⟨kind, elem, width, slot⟩
  cases kind with
  | tagged =>
    simp only [Option.map_eq_some_iff, Form.tagged.injEq, beq_self_eq_true, Bool.true_and,
      Bool.and_eq_true, beq_iff_eq]
    constructor
    · intro ⟨_, hs, hbase, hdeco⟩
      exact ⟨hbase, hdeco ▸ hs⟩
    · intro ⟨hbase, hs⟩
      exact ⟨deco, hs, hbase, rfl⟩
  | _ => simp [Plain.ofDescriptor?]

theorem form?_of_find? (hd : t.find? id = some d) : t.form? id = t.formOf d := by
  unfold form?
  rw [hd]
  rfl

theorem find?_of_form? {f : Form} (h : t.form? id = some f) :
    ∃ d, t.find? id = some d ∧ t.formOf d = some f :=
  Option.bind_eq_some_iff.mp h

/-! ## Tables in which types are found -/

/-- A descriptor as requests make them: what its kind does not use is left out,
and the slot it names is there. -/
inductive WellMade (t : TypeTable) : Descriptor → Prop
  | plain (p : Plain) : WellMade t p.descriptor
  | struct {s : Nat} (h0 : 0 < s) (h : s < t.structs.size) : WellMade t { kind := .struct, slot := s }
  | signature {s : Nat} (h : s < t.signatures.size) : WellMade t { kind := .signature, slot := s }
  | tagged (base : TypeId) {s : Nat} (h : s < t.decorations.size) :
      WellMade t { kind := .tagged, elem := base, slot := s }

theorem WellMade.formOf_eq_plain (h : t.WellMade d) (p : Plain) :
    t.formOf d = some (.plain p) ↔ d = p.descriptor := by
  constructor
  · intro hf
    cases h with
    | plain q =>
      rw [formOf_plain] at hf
      cases hf
      rfl
    | struct h0 h => cases hf
    | signature h => simp [formOf] at hf
    | tagged base h => simp [formOf] at hf
  · intro hd
    rw [hd]
    exact formOf_plain t p

theorem WellMade.formOf_isSome (h : t.WellMade d) (hk : d.kind ≠ .struct) :
    ∃ f, t.formOf d = some f := by
  cases h with
  | plain p => exact ⟨_, formOf_plain t p⟩
  | struct h0 h => exact absurd rfl hk
  | signature h => exact ⟨_, congrArg (Option.map _) (Array.getElem?_eq_getElem h)⟩
  | tagged base h => exact ⟨_, congrArg (Option.map _) (Array.getElem?_eq_getElem h)⟩

theorem WellMade.of_struct (h : t.WellMade d) (hk : d.kind = .struct) :
    d = { kind := .struct, slot := d.slot } ∧ 0 < d.slot ∧ d.slot < t.structs.size := by
  cases h with
  | struct h0 h => exact ⟨rfl, h0, h⟩
  | plain p => cases p <;> exact absurd hk nofun
  | signature h => cases hk
  | tagged base h => cases hk

theorem WellMade.grow (h : t.WellMade d) (hg : t.Grows t') : t'.WellMade d := by
  cases h with
  | plain p => exact .plain p
  | struct h0 h =>
    obtain ⟨fs, hfs, -⟩ := hg.structs (Array.getElem?_eq_getElem h)
    exact .struct h0 (lt_of_getElem? hfs)
  | signature h =>
    exact .signature (lt_of_getElem? (hg.signatures (Array.getElem?_eq_getElem h)))
  | tagged base h =>
    have hdeco := hg.decorations (Array.getElem?_eq_getElem h)
    exact .tagged base (lt_of_getElem? hdeco)

theorem WellMade.formOf_grow (h : t.WellMade d) (hg : t.Grows t') : t'.formOf d = t.formOf d := by
  cases h with
  | plain p => rw [formOf_plain, formOf_plain]
  | struct h0 h => rfl
  | signature h =>
    have hs := Array.getElem?_eq_getElem h
    exact congrArg (Option.map _) ((hg.signatures hs).trans hs.symm)
  | tagged base h =>
    have hs := Array.getElem?_eq_getElem h
    exact congrArg (Option.map _) ((hg.decorations hs).trans hs.symm)

/-- Types are made by requests, no two have one form, and no two structs share
their fields. -/
structure Keyed (t : TypeTable) : Prop where
  first : t.types[0]? = some { kind := .invalid }
  structs : 0 < t.structs.size
  made : ∀ {id d}, t.find? id = some d → t.WellMade d
  unique : ∀ {i j f}, t.form? i = some f → t.form? j = some f → i = j
  apart : ∀ {i j d}, t.find? i = some d → t.find? j = some d → d.kind = .struct → i = j

namespace Keyed

theorem size_pos (h : t.Keyed) : 0 < t.types.size :=
  lt_of_getElem? h.first

theorem form?_grow (h : t.Keyed) (hg : t.Grows t') (hd : t.find? id = some d) :
    t'.form? id = t.form? id := by
  rw [form?_of_find? (hg.find? hd), form?_of_find? hd]
  exact (h.made hd).formOf_grow hg

theorem of_side (h : t.Keyed) (hg : t.Grows t') (ht : t'.types = t.types) : t'.Keyed := by
  have hfind : ∀ id, t'.find? id = t.find? id := by
    intro id
    unfold find?
    rw [ht]
  have hform : ∀ {id f}, t'.form? id = some f → t.form? id = some f := by
    intro id f hf
    obtain ⟨d, hd, -⟩ := find?_of_form? hf
    rw [hfind] at hd
    rw [← h.form?_grow hg hd]
    exact hf
  refine ⟨ht ▸ h.first, ?_, ?_, fun hi hj => h.unique (hform hi) (hform hj), ?_⟩
  · obtain ⟨fs, hfs, -⟩ := hg.structs (Array.getElem?_eq_getElem h.structs)
    exact lt_of_getElem? hfs
  · intro id d hd
    rw [hfind] at hd
    exact (h.made hd).grow hg
  · intro i j d hi hj hk
    rw [hfind] at hi hj
    exact h.apart hi hj hk

theorem find?_append_size (h : t.Keyed) (d : Descriptor) : (t.append d).2.find? t.size = some d := by
  have hne : t.types.size ≠ 0 := Nat.ne_of_gt h.size_pos
  simp [find?, TypeTable.append, TypeTable.size, hne]

theorem append (h : t.Keyed) (hw : t.WellMade d)
    (hform : ∀ f, t.formOf d = some f → ∀ id, t.form? id ≠ some f)
    (hstruct : d.kind = .struct → ∀ id, t.find? id ≠ some d) : (t.append d).2.Keyed := by
  have hg := t.append_grows d
  have hnew := form?_of_find? (h.find?_append_size d)
  rw [hw.formOf_grow hg] at hnew
  have hold : ∀ {id f}, (t.append d).2.form? id = some f →
      t.form? id = some f ∨ (id = t.size ∧ t.formOf d = some f) := by
    intro id f hf
    obtain ⟨d', hd', -⟩ := find?_of_form? hf
    rcases find?_append hd' with ⟨-, hd⟩ | ⟨hid, -⟩
    · left
      rw [← h.form?_grow hg hd]
      exact hf
    · right
      rw [hid] at hf
      exact ⟨hid, hnew.symm.trans hf⟩
  refine ⟨hg.types h.first, h.structs, ?_, ?_, ?_⟩
  · intro id d' hd'
    rcases find?_append hd' with ⟨-, hd⟩ | ⟨-, rfl⟩
    · exact (h.made hd).grow hg
    · exact hw.grow hg
  · intro i j f hi hj
    rcases hold hi with hi | ⟨hi, hf⟩
    · rcases hold hj with hj | ⟨-, hf⟩
      · exact h.unique hi hj
      · exact absurd hi (hform f hf i)
    · rcases hold hj with hj | ⟨hj, -⟩
      · exact absurd hj (hform f hf j)
      · exact hi.trans hj.symm
  · intro i j d' hi hj hk
    rcases find?_append hi with ⟨-, hi⟩ | ⟨hi, hd⟩
    · rcases find?_append hj with ⟨-, hj⟩ | ⟨-, hd⟩
      · exact h.apart hi hj hk
      · exact absurd (hd ▸ hi) (hstruct (hd ▸ hk) i)
    · rcases find?_append hj with ⟨-, hj⟩ | ⟨hj, -⟩
      · exact absurd (hd ▸ hj) (hstruct (hd ▸ hk) j)
      · exact hi.trans hj.symm

end Keyed

/-! ## The index

Descriptors are filed as types are added, each under the first type that has it. A request
that asks the index is answered as by a scan of the table.
-/

/-- Which type is filed under a descriptor. -/
abbrev Index := Descriptor → Option TypeId

def Index.file (index : Index) (d : Descriptor) (id : TypeId) : Index :=
  if (index d).isSome then index else fun k => if d = k then some id else index k

def Index.fileAll (index : Index) : List Descriptor → Nat → Index
  | [], _ => index
  | d :: ds, n => (index.file d n).fileAll ds (n + 1)

/-- The index that was kept while the types were added. -/
def index (t : TypeTable) : Index := Index.fileAll (fun _ => none) t.types.toList 0

theorem Index.fileAll_append (index : Index) (ds : List Descriptor) (n : Nat) (d : Descriptor) :
    index.fileAll (ds ++ [d]) n = (index.fileAll ds n).file d (n + ds.length) := by
  induction ds generalizing index n with
  | nil => rfl
  | cons k ds ih =>
    rw [List.cons_append, fileAll, fileAll, ih, List.length_cons, Nat.add_right_comm, Nat.add_assoc]

theorem Index.fileAll_eq (index : Index) (ds : List Descriptor) (n : Nat) (d : Descriptor) :
    index.fileAll ds n d = (index d).or ((ds.findIdx? (· == d)).map (· + n)) := by
  induction ds generalizing index n with
  | nil => simp [fileAll]
  | cons k ds ih =>
    rw [fileAll, ih, List.findIdx?_cons, file]
    by_cases hk : k = d
    · subst hk
      cases hid : index k <;> simp [hid]
    · have hkeep : (if (index k).isSome then index else fun d' => if k = d' then some n else index d') d =
          index d := by
        split
        · rfl
        · exact if_neg hk
      rw [hkeep, if_neg (by simpa using hk), Option.map_map]
      congr 3
      funext i
      exact Nat.add_right_comm i n 1

theorem index_append (t : TypeTable) (d : Descriptor) :
    (t.append d).2.index = t.index.file d t.size := by
  have hlist : (t.append d).2.types.toList = t.types.toList ++ [d] := Array.toList_push
  unfold index
  rw [hlist, Index.fileAll_append, Nat.zero_add]
  rfl

theorem index_eq (t : TypeTable) (d : Descriptor) : t.index d = t.types.findIdx? (· == d) := by
  unfold index
  rw [Index.fileAll_eq, Option.none_or, Option.map_congr fun i _ => Nat.add_zero i, Option.map_id']
  exact (List.findIdx?_toArray (· == d) t.types.toList).symm

/-- Asking the index is scanning the table. -/
theorem intern_eq (t : TypeTable) (d : Descriptor) :
    t.intern d = if d.kind = .invalid then (0, t) else
      ((t.index d).map fun id => (id, t)).getD (t.append d) := by
  rw [index_eq]
  unfold intern
  split
  · rfl
  · cases t.types.findIdx? (· == d) <;> rfl

/-! ## Registrations -/

/-- What a registration of a form comes to: the type that has it already, and the
table as it is, or one more type, and the structs as they are. -/
structure Registers (t : TypeTable) (f : Form) (a : TypeId × TypeTable) : Prop where
  keyed : a.2.Keyed
  grows : t.Grows a.2
  structs : a.2.structs = t.structs
  existing : ∀ id, t.form? id = some f → a = (id, t)
  added : (∀ id, t.form? id ≠ some f) →
    a.1 = t.size ∧ a.2.size = t.size + 1 ∧ a.2.form? t.size = some f

theorem Keyed.registers_found {f : Form} (h : t.Keyed) (hid : t.form? id = some f) :
    t.Registers f (id, t) where
  keyed := h
  grows := .refl t
  structs := rfl
  existing id' hid' := by rw [h.unique hid hid']
  added hnone := absurd hid (hnone id)

theorem Keyed.registers_append {f : Form} (h : t.Keyed) (hg : t.Grows t') (ht : t'.types = t.types)
    (hs : t'.structs = t.structs) (hw : t'.WellMade d) (hf : t'.formOf d = some f)
    (hnone : ∀ id, t.form? id ≠ some f) : t.Registers f (t'.append d) := by
  have h' := h.of_side hg ht
  have hsize : t'.size = t.size := congrArg Array.size ht
  have hnone' : ∀ id, t'.form? id ≠ some f := by
    intro id hid
    obtain ⟨d', hd', -⟩ := find?_of_form? hid
    have hd : t.find? id = some d' := by
      unfold find? at hd' ⊢
      rwa [ht] at hd'
    exact hnone id ((h.form?_grow hg hd).symm.trans hid)
  have hk : d.kind ≠ .struct := by
    intro hk
    unfold formOf Plain.ofDescriptor? at hf
    rw [hk] at hf
    cases hf
  have hkeyed : (t'.append d).2.Keyed := by
    apply h'.append hw
    · intro f' hf' id
      rw [hf] at hf'
      cases hf'
      exact hnone' id
    · exact fun hstruct => absurd hstruct hk
  refine ⟨hkeyed, hg.trans (t'.append_grows d), hs, ?_, ?_⟩
  · exact fun id hid => absurd hid (hnone id)
  · intro _
    refine ⟨hsize, ?_, ?_⟩
    · rw [← hsize]
      exact Array.size_push _
    · rw [← hsize, form?_of_find? (h'.find?_append_size d), hw.formOf_grow (t'.append_grows d)]
      exact hf

theorem not_of_findIdx?_drop {p : Descriptor → Bool}
    (h : (t.types.toList.drop 1).findIdx? p = none) (hd : t.find? id = some d) : p d = false := by
  have hpos := (find?_lt hd).1
  unfold find? at hd
  rw [if_neg (Nat.ne_of_gt hpos)] at hd
  apply List.findIdx?_eq_none_iff.mp h
  have hmem : (t.types.toList.drop 1)[id - 1]? = some d := by
    rw [List.getElem?_drop, Array.getElem?_toList]
    have hid : 1 + (id - 1) = id := Nat.add_sub_cancel' hpos
    rw [hid]
    exact hd
  exact List.mem_of_getElem? hmem

theorem Keyed.registers_plain (h : t.Keyed) (p : Plain) :
    t.Registers (.plain p) (t.intern p.descriptor) := by
  have hvalid : p.descriptor.kind ≠ .invalid := by cases p <;> nofun
  have hform : ∀ {id}, t.form? id = some (.plain p) ↔ t.find? id = some p.descriptor := by
    intro id
    constructor
    · intro hf
      obtain ⟨d, hd, hfd⟩ := find?_of_form? hf
      rw [hd, ((h.made hd).formOf_eq_plain p).mp hfd]
    · intro hd
      rw [form?_of_find? hd, formOf_plain]
  unfold intern
  rw [if_neg hvalid]
  split
  · next id hid =>
    obtain ⟨hlt, hd, -⟩ := Array.findIdx?_eq_some_iff_getElem.mp hid
    have hget : t.types[id]? = some p.descriptor := by
      rw [Array.getElem?_eq_getElem hlt, eq_of_beq hd]
    apply h.registers_found
    rw [hform]
    unfold find?
    -- position 0 holds the descriptor of no type
    by_cases h0 : id = 0
    · subst h0
      rw [h.first] at hget
      exact absurd (congrArg Descriptor.kind (Option.some.inj hget)).symm hvalid
    · rw [if_neg h0]
      exact hget
  · next hnone =>
    apply h.registers_append (.refl t) rfl rfl (.plain p) (formOf_plain t p)
    intro id hid
    rw [hform] at hid
    unfold find? at hid
    split at hid
    · cases hid
    · have hmem := Array.mem_of_getElem? hid
      have hne := Array.findIdx?_eq_none_iff.mp hnone _ hmem
      simp at hne

theorem Keyed.registers_signature (h : t.Keyed) (s : Signature) :
    t.Registers (.signature s) (t.addSignature s) := by
  unfold addSignature
  split
  · next i hi =>
    obtain ⟨d, hd, hs⟩ := find?_of_findIdx?_drop hi
    apply h.registers_found
    rw [form?_of_find? hd, formOf_eq_signature]
    exact hs
  · next hnone =>
    let side : TypeTable := { t with signatures := t.signatures.push s }
    have hg : t.Grows side := t.grows_pushSignature s
    apply h.registers_append hg rfl rfl (.signature (by simp [side]))
    · simp [formOf, side]
    · intro id hid
      obtain ⟨d, hd, hf⟩ := find?_of_form? hid
      rw [formOf_eq_signature] at hf
      exact Bool.noConfusion (hf.symm.trans (not_of_findIdx?_drop hnone hd))

theorem Keyed.registers_tagged (h : t.Keyed) (base : TypeId) (deco : Decoration) :
    t.Registers (.tagged base deco) (t.addTagged base deco) := by
  unfold addTagged
  split
  · next i hi =>
    obtain ⟨d, hd, hs⟩ := find?_of_findIdx?_drop hi
    apply h.registers_found
    rw [form?_of_find? hd, formOf_eq_tagged]
    exact hs
  · next hnone =>
    let side : TypeTable := { t with decorations := t.decorations.push deco }
    have hg : t.Grows side := t.grows_pushDecoration deco
    apply h.registers_append hg rfl rfl (.tagged base (by simp [side]))
    · simp [formOf, side]
    · intro id hid
      obtain ⟨d, hd, hf⟩ := find?_of_form? hid
      rw [formOf_eq_tagged] at hf
      exact Bool.noConfusion (hf.symm.trans (not_of_findIdx?_drop hnone hd))

/-! ## Structs -/

theorem fields?_eq_some {fs : List Field} : t.fields? id = some fs ↔
    ∃ d, t.find? id = some d ∧ d.kind = .struct ∧ d.slot ≠ 0 ∧ t.structs[d.slot]? = some fs := by
  unfold fields?
  rcases t.find? id with _ | d
  · simp
  · by_cases hk : d.kind = .struct ∧ d.slot ≠ 0
    · simp [hk.1, hk.2]
    · simp only [if_neg hk, Option.some.injEq]
      constructor
      · nofun
      · rintro ⟨d', rfl, hkind, hslot, -⟩
        exact absurd ⟨hkind, hslot⟩ hk

theorem fields?_kept {fs fs' : List Field} (hg : t.Grows t') (hfs : t.fields? id = some fs)
    (hslot : ∀ d, t.find? id = some d → t.structs[d.slot]? = some fs →
      t'.structs[d.slot]? = some fs') : t'.fields? id = some fs' := by
  obtain ⟨d, hd, hk, h0, hs⟩ := fields?_eq_some.mp hfs
  exact fields?_eq_some.mpr ⟨d, hg.find? hd, hk, h0, hslot d hd hs⟩

/-- What a request for a struct comes to. -/
structure AddsStruct (t : TypeTable) (fields : List TypeId) (a : TypeId × TypeTable) : Prop where
  keyed : a.2.Keyed
  grows : t.Grows a.2
  id : a.1 = t.size
  size : a.2.size = t.size + 1
  fields : a.2.fields? t.size = some (fields.map fun f => { type := f })
  others : ∀ {id fs}, t.fields? id = some fs → a.2.fields? id = some fs

theorem Keyed.addsStruct (h : t.Keyed) (fields : List TypeId) :
    t.AddsStruct fields (t.addStruct fields) := by
  let side : TypeTable := { t with structs := t.structs.push (fields.map fun f => { type := f }) }
  let d : Descriptor := { kind := .struct, slot := side.structs.size - 1 }
  have hg : t.Grows side := t.grows_pushStruct _
  have hside : side.Keyed := h.of_side hg rfl
  have hslot : d.slot = t.structs.size := by simp [d, side]
  have hw : side.WellMade d := by
    apply WellMade.struct
    · rw [show side.structs.size - 1 = t.structs.size from hslot]
      exact h.structs
    · exact Nat.sub_lt hside.structs Nat.one_pos
  have hnew : ∀ id, side.find? id ≠ some d := by
    intro id hid
    have hmade : t.WellMade d := h.made hid
    exact absurd hslot (Nat.ne_of_lt (hmade.of_struct rfl).2.2)
  have hkeyed : (side.append d).2.Keyed := by
    apply hside.append hw
    · intro f hf
      cases hf
    · exact fun _ => hnew
  have hgrows := hg.trans (side.append_grows d)
  refine ⟨hkeyed, hgrows, rfl, Array.size_push _, ?_, ?_⟩
  · refine fields?_eq_some.mpr ⟨d, hside.find?_append_size d, rfl, ?_, ?_⟩
    · rw [hslot]
      exact Nat.ne_of_gt h.structs
    · rw [hslot]
      exact Array.getElem?_push_size
  · exact fun hfs => fields?_kept hgrows hfs fun _ _ hs => getElem?_push_of_some hs

theorem Keyed.fields?_setNames (h : t.Keyed) {names : List String} (hn : t.setNames? id names = some t')
    {i : TypeId} {fs : List Field} (hfs : t.fields? i = some fs) :
    t'.fields? i = some (if i = id then renameFields fs names else fs) := by
  obtain ⟨hg, -⟩ := grows_of_setNames? hn
  unfold setNames? at hn
  split at hn
  · next d gs hd hgs =>
    obtain rfl := Option.some.inj hn
    obtain ⟨d', hd', hk, -, hslot⟩ := fields?_eq_some.mp hgs
    obtain rfl := Option.mem_unique hd hd'
    apply fields?_kept hg hfs
    intro e he hs
    dsimp only
    split
    · next hid =>
      subst hid
      obtain rfl := Option.mem_unique hd he
      obtain rfl := Option.mem_unique hslot hs
      simp [lt_of_getElem? hslot]
    · next hid =>
      have hne : d.slot ≠ e.slot := by
        -- structs with one slot have one descriptor
        intro heq
        obtain ⟨e', he', hke, -, -⟩ := fields?_eq_some.mp hfs
        obtain rfl := Option.mem_unique he he'
        have hsame : e = d := by
          rw [((h.made he).of_struct hke).1, ((h.made hd).of_struct hk).1, heq]
        exact hid (h.apart he (hsame ▸ hd) hke)
      rw [Array.getElem?_setIfInBounds_ne hne]
      exact hs
  · cases hn

end TypeTable

/-! ## Sequences of requests -/

open TypeTable

/-- What can be asked of a type table. -/
inductive Request where
  | plain (p : Plain)
  | signature (s : Signature)
  | extend (id : TypeId) (extra : List TypeId)
  | tagged (base : TypeId) (deco : Decoration)
  | struct (fields : List TypeId)
  | nameFields (id : TypeId) (names : List String)

namespace Request

def perform : Request → TypeTable → Option TypeId × TypeTable
  | .plain p, t => (some (t.intern p.descriptor).1, (t.intern p.descriptor).2)
  | .signature s, t => (some (t.addSignature s).1, (t.addSignature s).2)
  | .extend id extra, t =>
    match t.extendSignature? id extra with
    | some (id, t') => (some id, t')
    | none => (none, t)
  | .tagged base deco, t => (some (t.addTagged base deco).1, (t.addTagged base deco).2)
  | .struct fields, t => (some (t.addStruct fields).1, (t.addStruct fields).2)
  | .nameFields id names, t => (none, (t.setNames? id names).getD t)

/-- The form a request asks for. An extended signature is one without further
arguments, and what is no signature cannot be extended. -/
def form? : Request → TypeTable → Option Form
  | .plain p, _ => some (.plain p)
  | .signature s, _ => some (.signature s)
  | .extend id extra, t =>
    (t.signature? id).map fun s =>
      .signature { abi := .cdecl, params := s.params ++ extra, result := s.result }
  | .tagged base deco, _ => some (.tagged base deco)
  | .struct _, _ => none
  | .nameFields _ _, _ => none

def renamed : Request → TypeId → List Field → List Field
  | .nameFields id names, i, fs => if i = id then renameFields fs names else fs
  | _, _, fs => fs

variable {t : TypeTable}

theorem perform_extend_none {id : TypeId} {extra : List TypeId}
    (h : (extend id extra).form? t = none) : (extend id extra).perform t = (none, t) := by
  have hnone : t.signature? id = none := Option.map_eq_none_iff.mp h
  simp only [perform, extendSignature?, hnone, Option.map_none]

theorem registers (h : t.Keyed) {q : Request} {f : Form} (hf : q.form? t = some f) :
    ∃ a, q.perform t = (some a.1, a.2) ∧ t.Registers f a := by
  cases q with
  | plain p =>
    cases hf
    exact ⟨_, rfl, h.registers_plain p⟩
  | signature s =>
    cases hf
    exact ⟨_, rfl, h.registers_signature s⟩
  | extend id extra =>
    obtain ⟨s, hs, rfl⟩ := Option.map_eq_some_iff.mp hf
    refine ⟨_, ?_, h.registers_signature _⟩
    simp only [perform, extendSignature?, hs, Option.map_some]
  | tagged base deco =>
    cases hf
    exact ⟨_, rfl, h.registers_tagged base deco⟩
  | struct fields => cases hf
  | nameFields id names => cases hf

/-- What every request keeps. -/
structure Keeps (t : TypeTable) (q : Request) (a : Option TypeId × TypeTable) : Prop where
  keyed : a.2.Keyed
  grows : t.Grows a.2
  given : ∀ id, a.1 = some id → id < a.2.size
  fields : ∀ {i fs}, t.fields? i = some fs → a.2.fields? i = some (q.renamed i fs)

theorem keeps (h : t.Keyed) (q : Request) : Keeps t q (q.perform t) := by
  rcases hf : q.form? t with _ | f
  · cases q with
    | struct fields =>
      have hs := h.addsStruct fields
      refine ⟨hs.keyed, hs.grows, ?_, hs.others⟩
      rintro id ⟨⟩
      show (t.addStruct fields).1 < (t.addStruct fields).2.size
      rw [hs.id, hs.size]
      exact Nat.lt_succ_self _
    | nameFields id names =>
      show Keeps t _ (none, (t.setNames? id names).getD t)
      rcases hn : t.setNames? id names with _ | t'
      · refine ⟨h, .refl t, nofun, ?_⟩
        intro i fs hfs
        have hid : i ≠ id := by
          -- a struct can be named
          rintro rfl
          obtain ⟨d, hd, -⟩ := fields?_eq_some.mp hfs
          simp [setNames?, hd, hfs] at hn
        show t.fields? i = some (if i = id then renameFields fs names else fs)
        rw [if_neg hid]
        exact hfs
      · obtain ⟨hg, ht⟩ := grows_of_setNames? hn
        exact ⟨h.of_side hg ht, hg, nofun, h.fields?_setNames hn⟩
    | extend id extra =>
      rw [perform_extend_none hf]
      exact ⟨h, .refl t, nofun, fun hfs => hfs⟩
    | plain p => cases hf
    | signature s => cases hf
    | tagged base deco => cases hf
  · obtain ⟨a, ha, hr⟩ := registers h hf
    rw [ha]
    refine ⟨hr.keyed, hr.grows, ?_, ?_⟩
    · rintro id ⟨⟩
      by_cases hex : ∃ id, t.form? id = some f
      · obtain ⟨id, hid⟩ := hex
        rw [hr.existing id hid]
        obtain ⟨d, hd, -⟩ := find?_of_form? hid
        exact (find?_lt hd).2
      · obtain ⟨hid, hsize, -⟩ := hr.added fun id hid => hex ⟨id, hid⟩
        show a.1 < a.2.size
        rw [hid, hsize]
        exact Nat.lt_succ_self _
    · intro i fs hfs
      have hsame : q.renamed i fs = fs := by
        cases q with
        | nameFields id names => cases hf
        | _ => rfl
      rw [hsame]
      exact fields?_kept hr.grows hfs fun d hd hs => hr.structs ▸ hs

end Request

/-- A table and the types it has given, the last one first. -/
structure Registry where
  table : TypeTable
  given : List TypeId

namespace Registry

def step (r : Registry) (q : Request) : Registry where
  table := (q.perform r.table).2
  given := (q.perform r.table).1.toList ++ r.given

def after (qs : List Request) : Registry :=
  qs.foldl step { table := .initial, given := [] }

theorem keyed_initial : initial.Keyed := by
  let bare : TypeTable :=
    { types := #[{ kind := .invalid }], structs := #[[]], signatures := #[{}],
      decorations := #[{}] }
  have hnone : ∀ id, bare.find? id = none := by
    intro id
    unfold find?
    split
    · rfl
    · next h0 => exact Array.getElem?_eq_none (Nat.pos_of_ne_zero h0)
  have hbare : bare.Keyed := by
    refine ⟨rfl, Nat.one_pos, ?_, ?_, ?_⟩
    · intro id d hd
      rw [hnone] at hd
      cases hd
    · intro i j f hi
      unfold TypeTable.form? at hi
      rw [hnone] at hi
      cases hi
    · intro i j d hi
      rw [hnone] at hi
      cases hi
  have hplain : ∀ (ps : List Plain) {t : TypeTable}, t.Keyed →
      ((ps.map Plain.descriptor).foldl (fun t d => (t.intern d).2) t).Keyed := by
    intro ps
    induction ps with
    | nil => exact fun h => h
    | cons p rest ih => exact fun h => ih (h.registers_plain p).keyed
  have hscalars := hplain
    [.void, .int 8, .int 16, .int 32, .int 64, .uint 8, .uint 16, .uint 32, .uint 64, .int 0,
      .uint 0, .float 32, .float 64, .pointer Builtin.void.id] hbare
  have hbool := (hscalars.registers_tagged Builtin.int8.id { tag := .bool }).keyed
  have hbytes := (hbool.registers_plain (.pointer Builtin.uint8.id)).keyed
  exact (hbytes.registers_tagged _ { tag := .stringz }).keyed

/-- The table is keyed, and what it gave is in it. -/
structure Sound (r : Registry) : Prop where
  keyed : r.table.Keyed
  given : ∀ id ∈ r.given, id < r.table.size

theorem Sound.step {r : Registry} (h : r.Sound) (q : Request) : (r.step q).Sound := by
  have hk := q.keeps h.keyed
  refine ⟨hk.keyed, ?_⟩
  intro id hid
  rcases List.mem_append.mp hid with hid | hid
  · exact hk.given id (Option.mem_toList.mp hid)
  · exact Nat.lt_of_lt_of_le (h.given id hid) hk.grows.size_le

theorem sound_foldl (qs : List Request) {r : Registry} (h : r.Sound) : (qs.foldl step r).Sound := by
  induction qs generalizing r with
  | nil => exact h
  | cons q rest ih => exact ih (h.step q)

theorem sound_after (qs : List Request) : (after qs).Sound :=
  sound_foldl qs ⟨keyed_initial, nofun⟩

theorem grows_foldl (qs : List Request) {r : Registry} (h : r.Sound) :
    r.table.Grows (qs.foldl step r).table := by
  induction qs generalizing r with
  | nil => exact .refl _
  | cons q rest ih => exact (q.keeps h.keyed).grows.trans (ih (h.step q))

/-- What a registry answers to a request. -/
structure Answers (r : Registry) (q : Request) (a : Option TypeId × TypeTable) : Prop where
  /-- A form that is there is found, and nothing changes. -/
  existing : ∀ {f id}, q.form? r.table = some f → r.table.form? id = some f →
    a = (some id, r.table)
  /-- A form that is not there is added, and nothing else. -/
  added : ∀ {f}, q.form? r.table = some f → (∀ id, r.table.form? id ≠ some f) →
    a.1 = some r.table.size ∧ a.2.size = r.table.size + 1 ∧ a.2.form? r.table.size = some f
  /-- Every struct is a new type, with fields of the types it was asked for. -/
  struct : ∀ {fields}, q = .struct fields →
    a.1 = some r.table.size ∧ r.table.size ∉ r.given ∧ a.2.size = r.table.size + 1 ∧
      a.2.fields? r.table.size = some (fields.map fun f => { type := f })
  /-- Other requests give no type and add none. -/
  others : q.form? r.table = none → (∀ fields, q ≠ .struct fields) →
    a.1 = none ∧ a.2.types = r.table.types
  /-- The fields of a struct are named by requests to name them, and stay as they
  are otherwise. -/
  fields : ∀ {id fs}, r.table.fields? id = some fs → a.2.fields? id = some (q.renamed id fs)

theorem Sound.answers {r : Registry} (h : r.Sound) (q : Request) :
    r.Answers q (q.perform r.table) := by
  refine ⟨?_, ?_, ?_, ?_, (q.keeps h.keyed).fields⟩
  · intro f id hf hid
    obtain ⟨a, ha, hr⟩ := Request.registers h.keyed hf
    rw [ha, hr.existing id hid]
  · intro f hf hnone
    obtain ⟨a, ha, hr⟩ := Request.registers h.keyed hf
    obtain ⟨hid, hsize, hform⟩ := hr.added hnone
    rw [ha]
    exact ⟨congrArg some hid, hsize, hform⟩
  · rintro fields rfl
    have hs := h.keyed.addsStruct fields
    exact ⟨congrArg some hs.id, fun hmem => Nat.lt_irrefl _ (h.given _ hmem), hs.size, hs.fields⟩
  · intro hf hstruct
    cases q with
    | nameFields id names =>
      refine ⟨rfl, ?_⟩
      show ((r.table.setNames? id names).getD r.table).types = r.table.types
      rcases hn : r.table.setNames? id names with _ | t'
      · rfl
      · exact (grows_of_setNames? hn).2
    | extend id extra =>
      rw [Request.perform_extend_none hf]
      exact ⟨rfl, rfl⟩
    | struct fields => exact absurd rfl (hstruct fields)
    | plain p => cases hf
    | signature s => cases hf
    | tagged base deco => cases hf

/-- The type table is hash-consed, after any requests: types stay as they are
whatever more is requested, a type that is no struct has a form that no other
type has, and every further request is answered as it should be. -/
theorem hash_consing (qs : List Request) :
    (∀ (more : List Request) (id : TypeId) (d : Descriptor), (after qs).table.find? id = some d →
      (after (qs ++ more)).table.find? id = some d ∧
        (after (qs ++ more)).table.form? id = (after qs).table.form? id) ∧
    (∀ (id : TypeId) (d : Descriptor), (after qs).table.find? id = some d → d.kind ≠ .struct →
      ∃ f, (after qs).table.form? id = some f ∧
        ∀ j, (after qs).table.form? j = some f ↔ id = j) ∧
    ∀ q : Request, (after qs).Answers q (q.perform (after qs).table) := by
  have h := sound_after qs
  refine ⟨?_, ?_, h.answers⟩
  · intro more id d hd
    have hafter : after (qs ++ more) = more.foldl step (after qs) := List.foldl_append
    have hg := grows_foldl more h
    rw [hafter]
    exact ⟨hg.find? hd, h.keyed.form?_grow hg hd⟩
  · intro id d hd hk
    obtain ⟨f, hf⟩ := (h.keyed.made hd).formOf_isSome hk
    rw [← form?_of_find? hd] at hf
    refine ⟨f, hf, fun j => ?_⟩
    constructor
    · exact fun hj => h.keyed.unique hf hj
    · intro hj
      rw [← hj]
      exact hf

/-- A pointer that is there is found again, and a struct of two of them is new. -/
theorem pointer_interned_once :
    (Request.plain (.pointer 4)).perform (after [.plain (.pointer 4)]).table =
        (some 18, (after [.plain (.pointer 4)]).table) ∧
      ((Request.struct [18, 18]).perform (after [.plain (.pointer 4)]).table).1 = some 19 := by
  have h := hash_consing [.plain (.pointer 4)]
  have hid : (after [.plain (.pointer 4)]).table.form? 18 = some (.plain (.pointer 4)) := by
    decide +kernel
  have hsize : (after [.plain (.pointer 4)]).table.size = 19 := by decide +kernel
  have hstruct := ((h.2.2 (.struct [18, 18])).struct rfl).1
  rw [hsize] at hstruct
  exact ⟨(h.2.2 _).existing rfl hid, hstruct⟩

end Registry

end TypedIR
