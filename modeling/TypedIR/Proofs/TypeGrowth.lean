import TypedIR.Proofs.Outcome
import TypedIR.Types.Table

/-
  Type tables only grow.

  Every operation on the table keeps the types it holds: their descriptors,
  signatures and decorations stay, and a struct keeps the types of its fields,
  though their names may change. In a table that is made by the operations the
  parts of a type are older than the type (`Ordered`), so following a type into
  its parts ends, and what lies below the tags of a type is settled when the
  type is made.
-/

namespace TypedIR

def Kind.isType : Kind → Bool
  | .invalid | .other _ => false
  | _ => true

namespace TypeTable

/-- `t'` holds all that `t` holds; the fields of a struct may have other names. -/
structure Grows (t t' : TypeTable) : Prop where
  types : ∀ {id : TypeId} {d}, t.types[id]? = some d → t'.types[id]? = some d
  structs : ∀ {s : Nat} {fs}, t.structs[s]? = some fs →
    ∃ fs', t'.structs[s]? = some fs' ∧ fs'.map (·.type) = fs.map (·.type)
  signatures : ∀ {s : Nat} {x}, t.signatures[s]? = some x → t'.signatures[s]? = some x
  decorations : ∀ {s : Nat} {x}, t.decorations[s]? = some x → t'.decorations[s]? = some x

namespace Grows

theorem refl (t : TypeTable) : Grows t t :=
  ⟨id, fun h => ⟨_, h, rfl⟩, id, id⟩

theorem trans {a b c : TypeTable} (hab : Grows a b) (hbc : Grows b c) : Grows a c := by
  refine ⟨fun h => hbc.types (hab.types h), ?_, fun h => hbc.signatures (hab.signatures h),
    fun h => hbc.decorations (hab.decorations h)⟩
  intro s fs h
  obtain ⟨fs', h', e'⟩ := hab.structs h
  obtain ⟨fs'', h'', e''⟩ := hbc.structs h'
  exact ⟨fs'', h'', e''.trans e'⟩

variable {t t' : TypeTable}

theorem find? (h : Grows t t') {id : TypeId} {d : Descriptor} (hd : t.find? id = some d) :
    t'.find? id = some d := by
  unfold TypeTable.find? at hd ⊢
  split at hd
  · cases hd
  · next h0 =>
    rw [if_neg h0]
    exact h.types hd

theorem size_le (h : Grows t t') : t.types.size ≤ t'.types.size := by
  refine Nat.le_of_not_lt fun hlt => ?_
  have hd : t.types[t'.types.size]? = some t.types[t'.types.size] :=
    Array.getElem?_eq_getElem (by omega)
  have := h.types hd
  simp at this

theorem signature? (h : Grows t t') {id : TypeId} {s : Signature}
    (hs : t.signature? id = some s) : t'.signature? id = some s := by
  unfold TypeTable.signature? at hs ⊢
  rcases hd : t.find? id with _ | d
  · simp [hd] at hs
  · rw [hd] at hs
    rw [h.find? hd]
    by_cases hk : d.kind = .signature
    · simp only [hk, if_true] at hs ⊢
      exact h.signatures hs
    · simp [hk] at hs

end Grows

theorem find?_lt {t : TypeTable} {id : Nat} {d : Descriptor} (h : t.find? id = some d) :
    0 < id ∧ id < t.types.size := by
  unfold find? at h
  split at h
  · cases h
  · next h0 => exact ⟨Nat.pos_of_ne_zero h0, lt_of_getElem? h⟩

theorem find?_of_lt {t : TypeTable} {id : TypeId} (h0 : 0 < id) (h : id < t.types.size) :
    ∃ d, t.find? id = some d := by
  unfold find?
  rw [if_neg (Nat.ne_of_gt h0)]
  exact ⟨_, Array.getElem?_eq_getElem h⟩

theorem Grows.find?_back {t t' : TypeTable} (h : Grows t t') {id : TypeId} {d : Descriptor}
    (hlt : id < t.types.size) (hd : t'.find? id = some d) : t.find? id = some d := by
  obtain ⟨d', hd'⟩ := find?_of_lt (find?_lt hd).1 hlt
  rw [hd', ← hd, h.find? hd']

/-- The types that a type is made of. -/
def parts (t : TypeTable) (d : Descriptor) : List Nat :=
  match d.kind with
  | .pointer | .tagged => [d.elem]
  | .struct => (t.structs.getD d.slot []).map (·.type)
  | .signature => (t.signatures.getD d.slot {}).result :: (t.signatures.getD d.slot {}).params
  | _ => []

/-- The slot that a descriptor names is there. -/
def SlotOk (t : TypeTable) (d : Descriptor) : Prop :=
  (d.kind = .struct → 0 < d.slot ∧ d.slot < t.structs.size) ∧
  (d.kind = .signature → d.slot < t.signatures.size) ∧
  (d.kind = .tagged → 0 < d.slot ∧ d.slot < t.decorations.size)

/-- The builtins are there, every type comes after its parts and has a proper
kind, and no slot is left open. -/
structure Ordered (t : TypeTable) : Prop where
  builtins : Grows initial t
  older : ∀ {id : Nat} {d}, t.find? id = some d → ∀ p ∈ t.parts d, p < id
  slots : ∀ {id d}, t.find? id = some d → t.SlotOk d
  kinds : ∀ {id d}, t.find? id = some d → d.kind.isType = true

theorem Grows.slotOk {t t' : TypeTable} (h : Grows t t') {d : Descriptor} (hs : t.SlotOk d) :
    t'.SlotOk d := by
  have hst : ∀ s, s < t.structs.size → s < t'.structs.size := by
    intro s hs
    obtain ⟨fs, hfs, -⟩ := h.structs (Array.getElem?_eq_getElem hs)
    exact lt_of_getElem? hfs
  have hsig : ∀ s, s < t.signatures.size → s < t'.signatures.size := fun s hs =>
    lt_of_getElem? (h.signatures (Array.getElem?_eq_getElem hs))
  have hdeco : ∀ s, s < t.decorations.size → s < t'.decorations.size := fun s hs =>
    lt_of_getElem? (h.decorations (Array.getElem?_eq_getElem hs))
  exact ⟨fun k => ⟨(hs.1 k).1, hst _ (hs.1 k).2⟩, fun k => hsig _ (hs.2.1 k),
    fun k => ⟨(hs.2.2 k).1, hdeco _ (hs.2.2 k).2⟩⟩

theorem Grows.parts {t t' : TypeTable} (h : Grows t t') {d : Descriptor} (hs : t.SlotOk d) :
    t'.parts d = t.parts d := by
  unfold TypeTable.parts
  split
  · rfl
  · rfl
  · next hk =>
    obtain ⟨fs', hfs', e⟩ := h.structs (Array.getElem?_eq_getElem (hs.1 hk).2)
    simp only [Array.getD_eq_getD_getElem?, hfs', Array.getElem?_eq_getElem (hs.1 hk).2,
      Option.getD_some, e]
  · next hk =>
    have hx := h.signatures (Array.getElem?_eq_getElem (hs.2.1 hk))
    simp only [Array.getD_eq_getD_getElem?, hx, Array.getElem?_eq_getElem (hs.2.1 hk),
      Option.getD_some]
  · rfl

/-! ## What the operations on a table do -/

theorem initial_types : initial.types =
    #[{ kind := .invalid }, { kind := .void }, .int 8, .int 16, .int 32, .int 64, .uint 8,
      .uint 16, .uint 32, .uint 64, .int 0, .uint 0, .float 32, .float 64, .pointer 1,
      { kind := .tagged, elem := 2, slot := 1 }, .pointer 6,
      { kind := .tagged, elem := 16, slot := 2 }] := by
  decide +kernel

theorem initial_eq : initial =
    { types := #[{ kind := .invalid }, { kind := .void }, .int 8, .int 16, .int 32, .int 64,
        .uint 8, .uint 16, .uint 32, .uint 64, .int 0, .uint 0, .float 32, .float 64, .pointer 1,
        { kind := .tagged, elem := 2, slot := 1 }, .pointer 6,
        { kind := .tagged, elem := 16, slot := 2 }],
      structs := #[[]], signatures := #[{}],
      decorations := #[{}, { tag := .bool }, { tag := .stringz }] } := by
  have hslots : initial.structs = #[[]] ∧ initial.signatures = #[{}] ∧
      initial.decorations = #[{}, { tag := .bool }, { tag := .stringz }] := by decide +kernel
  rw [← initial_types, ← hslots.1, ← hslots.2.1, ← hslots.2.2]

theorem Ordered.size_pos {t : TypeTable} (h : t.Ordered) : 0 < t.types.size := by
  have hinit : 0 < initial.types.size := by simp [initial_types]
  exact Nat.lt_of_lt_of_le hinit h.builtins.size_le

theorem find?_append {t : TypeTable} {d d' : Descriptor} {id : TypeId}
    (h : (t.append d).2.find? id = some d') :
    (id < t.types.size ∧ t.find? id = some d') ∨ (id = t.types.size ∧ d' = d) := by
  unfold find? at h ⊢
  split at h
  · cases h
  · next h0 =>
    rw [if_neg h0]
    simp only [append, Array.getElem?_push] at h
    split at h
    · next hid => exact .inr ⟨hid, (Option.some.inj h).symm⟩
    · exact .inl ⟨lt_of_getElem? h, h⟩

theorem append_grows (t : TypeTable) (d : Descriptor) : t.Grows (t.append d).2 := by
  refine ⟨?_, fun h => ⟨_, h, rfl⟩, id, id⟩
  intro id d' hd'
  have hlt := lt_of_getElem? hd'
  exact (Array.getElem?_push_lt hlt).trans ((Array.getElem?_eq_getElem hlt).symm.trans hd')

theorem Ordered.append {t : TypeTable} (h : t.Ordered) {d : Descriptor} (hk : d.kind.isType = true)
    (hparts : ∀ p ∈ t.parts d, p < t.types.size) (hslot : t.SlotOk d) :
    (t.append d).2.Ordered := by
  have hgrows := t.append_grows d
  refine ⟨h.builtins.trans hgrows, ?_, ?_, ?_⟩
  · intro id d' hd' p hp
    rcases find?_append hd' with ⟨-, hold⟩ | ⟨rfl, rfl⟩
    · rw [hgrows.parts (h.slots hold)] at hp
      exact h.older hold p hp
    · rw [hgrows.parts hslot] at hp
      exact hparts p hp
  · intro id d' hd'
    rcases find?_append hd' with ⟨-, hold⟩ | ⟨rfl, rfl⟩
    · exact hgrows.slotOk (h.slots hold)
    · exact hgrows.slotOk hslot
  · intro id d' hd'
    rcases find?_append hd' with ⟨-, hold⟩ | ⟨-, rfl⟩
    · exact h.kinds hold
    · exact hk

/-- What an operation that makes a type comes to: the table has grown, is still
ordered, and holds the type. -/
structure Makes (t : TypeTable) (r : TypeId × TypeTable) (d : Descriptor) : Prop where
  grows : t.Grows r.2
  ordered : r.2.Ordered
  found : r.2.find? r.1 = some d

theorem Ordered.makes_append {t : TypeTable} (h : t.Ordered) {d : Descriptor} (hk : d.kind.isType = true)
    (hparts : ∀ p ∈ t.parts d, p < t.types.size) (hslot : t.SlotOk d) :
    t.Makes (t.append d) d := by
  refine ⟨t.append_grows d, h.append hk hparts hslot, ?_⟩
  simp [find?, TypeTable.append, Nat.ne_of_gt h.size_pos]

theorem Ordered.first {t : TypeTable} (h : t.Ordered) :
    t.types[0]? = some { kind := .invalid } :=
  h.builtins.types (by simp [initial_types])

theorem Ordered.makes_intern {t : TypeTable} (h : t.Ordered) {d : Descriptor}
    (hk : d.kind.isType = true) (hparts : ∀ p ∈ t.parts d, p < t.types.size)
    (hslot : t.SlotOk d) : t.Makes (t.intern d) d := by
  have hvalid : d.kind ≠ .invalid := fun he => by rw [he] at hk; cases hk
  unfold intern
  rw [if_neg hvalid]
  split
  · next id hid =>
    obtain ⟨hlt, hd, -⟩ := Array.findIdx?_eq_some_iff_getElem.mp hid
    have hd' : t.types[id]? = some d := by
      rw [Array.getElem?_eq_getElem hlt, eq_of_beq hd]
    refine ⟨.refl t, h, ?_⟩
    unfold find?
    rw [if_neg]
    · exact hd'
    · rintro rfl
      rw [h.first] at hd'
      obtain rfl := Option.some.inj hd'
      cases hk
  · exact h.makes_append hk hparts hslot

theorem Ordered.of_side {t t' : TypeTable} (h : t.Ordered) (hg : t.Grows t')
    (ht : t'.types = t.types) : t'.Ordered := by
  have hfind : ∀ {id d}, t'.find? id = some d → t.find? id = some d := by
    intro id d hd
    unfold find? at hd ⊢
    rwa [ht] at hd
  refine ⟨h.builtins.trans hg, ?_, fun hd => hg.slotOk (h.slots (hfind hd)),
    fun hd => h.kinds (hfind hd)⟩
  intro id d hd p hp
  rw [hg.parts (h.slots (hfind hd))] at hp
  exact h.older (hfind hd) p hp

theorem getElem?_push_of_some {α : Type} {xs : Array α} {i : Nat} {x y : α}
    (h : xs[i]? = some x) : (xs.push y)[i]? = some x := by
  have hlt := lt_of_getElem? h
  rw [Array.getElem?_push_lt hlt, ← h, Array.getElem?_eq_getElem hlt]

theorem grows_pushStruct (t : TypeTable) (fs : List Field) :
    t.Grows { t with structs := t.structs.push fs } :=
  ⟨id, fun h => ⟨_, getElem?_push_of_some h, rfl⟩, id, id⟩

theorem grows_pushSignature (t : TypeTable) (s : Signature) :
    t.Grows { t with signatures := t.signatures.push s } :=
  ⟨id, fun h => ⟨_, h, rfl⟩, getElem?_push_of_some, id⟩

theorem grows_pushDecoration (t : TypeTable) (deco : Decoration) :
    t.Grows { t with decorations := t.decorations.push deco } :=
  ⟨id, fun h => ⟨_, h, rfl⟩, id, getElem?_push_of_some⟩

def nextStruct (t : TypeTable) : Descriptor := { kind := .struct, slot := t.structs.size }

theorem Ordered.makes_pointer {t : TypeTable} (h : t.Ordered) {target : TypeId}
    (ht : target < t.types.size) : t.Makes (t.intern (.pointer target)) (.pointer target) :=
  h.makes_intern rfl (by simpa [TypeTable.parts, Descriptor.pointer] using ht)
    ⟨nofun, nofun, nofun⟩

theorem Ordered.makes_addStruct {t : TypeTable} (h : t.Ordered) {fields : List TypeId}
    (hf : ∀ p ∈ fields, p < t.types.size) : t.Makes (t.addStruct fields) t.nextStruct := by
  let side : TypeTable := { t with structs := t.structs.push (fields.map fun f => { type := f }) }
  have hg : t.Grows side := t.grows_pushStruct _
  have hs : side.Ordered := h.of_side hg rfl
  have hpos : 0 < t.structs.size := by
    have hfirst : initial.structs[0]? = some [] := by simp [initial_eq]
    obtain ⟨_, hx, -⟩ := h.builtins.structs hfirst
    exact lt_of_getElem? hx
  have hslot : side.structs.size - 1 = t.structs.size := by simp [side]
  have hm : side.Makes (side.append t.nextStruct) t.nextStruct := by
    refine hs.makes_append rfl ?_ ⟨fun _ => ⟨hpos, by simp [side, nextStruct]⟩, nofun, nofun⟩
    intro p hp
    simp [parts, nextStruct, side] at hp
    exact hf p hp
  unfold addStruct
  rw [nextStruct, ← hslot] at hm
  exact ⟨hg.trans hm.grows, hm.ordered, by rw [nextStruct, ← hslot]; exact hm.found⟩

theorem find?_of_findIdx?_drop {t : TypeTable} {p : Descriptor → Bool} {i : Nat}
    (h : (t.types.toList.drop 1).findIdx? p = some i) :
    ∃ d, t.find? (i + 1) = some d ∧ p d = true := by
  obtain ⟨hlt, hp, -⟩ := List.findIdx?_eq_some_iff_getElem.mp h
  refine ⟨_, ?_, hp⟩
  unfold find?
  rw [if_neg (Nat.succ_ne_zero i)]
  simp only [List.length_drop, Array.length_toList] at hlt
  simp [show i + 1 < t.types.size by omega]

theorem Ordered.makes_addSignature {t : TypeTable} (h : t.Ordered) {s : Signature}
    (hr : s.result < t.types.size) (hp : ∀ p ∈ s.params, p < t.types.size) :
    ∃ d, t.Makes (t.addSignature s) d ∧ d.kind = .signature ∧
      (t.addSignature s).2.signatures[d.slot]? = some s := by
  unfold addSignature
  split
  · next i hi =>
    obtain ⟨d, hd, hs⟩ := find?_of_findIdx?_drop hi
    simp only [isSignature, Bool.and_eq_true, beq_iff_eq] at hs
    exact ⟨d, ⟨.refl t, h, hd⟩, hs.1, hs.2⟩
  · let side : TypeTable := { t with signatures := t.signatures.push s }
    have hg : t.Grows side := t.grows_pushSignature s
    have hs : side.Ordered := h.of_side hg rfl
    have hslot : side.signatures.size - 1 = t.signatures.size := by simp [side]
    let d : Descriptor := { kind := .signature, slot := side.signatures.size - 1 }
    have hm : side.Makes (side.append d) d := by
      refine hs.makes_append rfl ?_ ⟨nofun, fun _ => by simp [side, d], nofun⟩
      intro p hp'
      simp [parts, d, side] at hp'
      rcases hp' with rfl | hp'
      · exact hr
      · exact hp p hp'
    refine ⟨d, ⟨hg.trans hm.grows, hm.ordered, hm.found⟩, rfl, ?_⟩
    simp [d, TypeTable.append, side]

theorem Ordered.makes_addTagged {t : TypeTable} (h : t.Ordered) {base : TypeId}
    (deco : Decoration) (hb : base < t.types.size) :
    ∃ d, t.Makes (t.addTagged base deco) d ∧ d.kind = .tagged ∧ d.elem = base ∧
      (t.addTagged base deco).2.decorations[d.slot]? = some deco := by
  unfold addTagged
  split
  · next i hi =>
    obtain ⟨d, hd, hs⟩ := find?_of_findIdx?_drop hi
    simp only [isDecorated, Bool.and_eq_true, beq_iff_eq] at hs
    exact ⟨d, ⟨.refl t, h, hd⟩, hs.1.1, hs.1.2, hs.2⟩
  · let side : TypeTable := { t with decorations := t.decorations.push deco }
    have hg : t.Grows side := t.grows_pushDecoration deco
    have hs : side.Ordered := h.of_side hg rfl
    have hpos : 0 < t.decorations.size := by
      have hx := h.builtins.decorations (s := 0) (x := {}) (by simp [initial_eq])
      exact lt_of_getElem? hx
    let d : Descriptor := { kind := .tagged, elem := base, slot := side.decorations.size - 1 }
    have hm : side.Makes (side.append d) d := by
      refine hs.makes_append rfl ?_ ⟨nofun, nofun, fun _ => by simp [side, d, hpos]⟩
      intro p hp'
      simp [parts, d] at hp'
      rw [hp']
      exact hb
    refine ⟨d, ⟨hg.trans hm.grows, hm.ordered, hm.found⟩, rfl, rfl, ?_⟩
    simp [d, TypeTable.append, side]

theorem map_type_renameFields (fs : List Field) (names : List String) :
    (renameFields fs names).map (·.type) = fs.map (·.type) := by
  induction fs generalizing names with
  | nil => rfl
  | cons f fs ih => cases names <;> simp [renameFields, ih]

theorem grows_of_setNames? {t t' : TypeTable} {id : TypeId} {names : List String}
    (hn : t.setNames? id names = some t') : t.Grows t' ∧ t'.types = t.types := by
  unfold TypeTable.setNames? at hn
  split at hn
  · next d fs hd hfs =>
    obtain rfl := Option.some.inj hn
    have hslot : t.structs[d.slot]? = some fs := by
      simp only [fields?, hd] at hfs
      split at hfs
      · exact hfs
      · cases hfs
    refine ⟨⟨fun h => h, ?_, fun h => h, fun h => h⟩, rfl⟩
    intro s fs' hs
    by_cases he : d.slot = s
    · subst he
      obtain rfl := Option.mem_unique hslot hs
      have hlt := lt_of_getElem? hs
      exact ⟨_, by simp [hlt], map_type_renameFields fs names⟩
    · exact ⟨fs', by simp [he, hs], rfl⟩
  · cases hn

theorem Ordered.setNames? {t t' : TypeTable} (h : t.Ordered) {id : TypeId} {names : List String}
    (hn : t.setNames? id names = some t') : t.Grows t' ∧ t'.Ordered :=
  have hg := grows_of_setNames? hn
  ⟨hg.1, h.of_side hg.1 hg.2⟩

/-! ## Integers -/

/-- Every integer type of `t'` was there in `t`. -/
def IntegersFrom (t t' : TypeTable) : Prop :=
  ∀ id d, t'.find? id = some d → d.isInteger = true → t.find? id = some d

namespace IntegersFrom

variable {t t' t'' : TypeTable}

theorem refl (t : TypeTable) : t.IntegersFrom t := fun _ _ h _ => h

theorem trans (h : t.IntegersFrom t') (h' : t'.IntegersFrom t'') : t.IntegersFrom t'' :=
  fun id d hd hi => h id d (h' id d hd hi) hi

theorem of_side (ht : t'.types = t.types) : t.IntegersFrom t' := by
  intro id d hd _
  unfold find? at hd ⊢
  rwa [ht] at hd

theorem append (t : TypeTable) {d : Descriptor} (hd : d.isInteger = false) :
    t.IntegersFrom (t.append d).2 := by
  intro id d' hd' hi
  rcases find?_append hd' with ⟨-, hold⟩ | ⟨-, rfl⟩
  · exact hold
  · rw [hd] at hi
    cases hi

theorem intern (t : TypeTable) {d : Descriptor} (hd : d.isInteger = false) :
    t.IntegersFrom (t.intern d).2 := by
  unfold TypeTable.intern
  split
  · exact .refl t
  · split
    · exact .refl t
    · exact .append t hd

theorem addStruct (t : TypeTable) (fields : List TypeId) :
    t.IntegersFrom (t.addStruct fields).2 :=
  .trans (.of_side rfl) (.append { t with structs := t.structs.push (fields.map fun f => { type := f }) } rfl)

theorem addSignature (t : TypeTable) (s : Signature) : t.IntegersFrom (t.addSignature s).2 := by
  unfold TypeTable.addSignature
  split
  · exact .refl t
  · exact .trans (.of_side rfl) (.append { t with signatures := t.signatures.push s } rfl)

theorem addTagged (t : TypeTable) (base : TypeId) (deco : Decoration) :
    t.IntegersFrom (t.addTagged base deco).2 := by
  unfold TypeTable.addTagged
  split
  · exact .refl t
  · exact .trans (.of_side rfl) (.append { t with decorations := t.decorations.push deco } rfl)

end IntegersFrom

theorem initial_ordered : initial.Ordered := by
  -- the positions range over the table, so it is replaced as a whole
  obtain ⟨t, ht⟩ : ∃ t, t = initial := ⟨_, rfl⟩
  rw [← ht]
  rw [initial_eq] at ht
  have hparts : ∀ id : Fin t.types.size, ∀ p ∈ t.parts t.types[id], p < id := by
    subst ht
    decide
  have hslots : ∀ id : Fin t.types.size,
      t.types[id].kind ≠ .struct ∧ t.types[id].kind ≠ .signature ∧
      (t.types[id].kind = .tagged →
        0 < t.types[id].slot ∧ t.types[id].slot < t.decorations.size) := by
    subst ht
    decide
  have hkinds : ∀ id : Fin t.types.size, id.1 ≠ 0 → t.types[id].kind.isType = true := by
    subst ht
    decide
  refine ⟨by rw [ht, ← initial_eq]; exact .refl _, ?_, ?_, ?_⟩
  · intro id d hd
    have hlt := (find?_lt hd).2
    simp only [find?, Nat.ne_of_gt (find?_lt hd).1, if_false, Array.getElem?_eq_getElem hlt,
      Option.some.injEq] at hd
    exact hd ▸ hparts ⟨id, hlt⟩
  · intro id d hd
    have hlt := (find?_lt hd).2
    simp only [find?, Nat.ne_of_gt (find?_lt hd).1, if_false, Array.getElem?_eq_getElem hlt,
      Option.some.injEq] at hd
    obtain ⟨h1, h2, h3⟩ := hslots ⟨id, hlt⟩
    subst hd
    exact ⟨fun h => absurd h h1, fun h => absurd h h2, h3⟩
  · intro id d hd
    have hpos := (find?_lt hd).1
    have hlt := (find?_lt hd).2
    simp only [find?, Nat.ne_of_gt hpos, if_false, Array.getElem?_eq_getElem hlt,
      Option.some.injEq] at hd
    exact hd ▸ hkinds ⟨id, hlt⟩ (Nat.ne_of_gt hpos)

/-! ## Below the tags -/

/-- What lies below the tags of a known type is settled: enough fuel and a
larger table give the same. -/
theorem Ordered.stripTags_eq {t t' : TypeTable} (h : t.Ordered) (hg : t.Grows t') (n m : Nat)
    {id : Nat} (hid : id < t.types.size) (hn : id ≤ n) (hm : id ≤ m) :
    t'.stripTags m id = t.stripTags n id := by
  induction n generalizing m id with
  | zero =>
    obtain rfl : id = 0 := by omega
    cases m <;> simp [stripTags, find?]
  | succ n ih =>
    rcases Nat.eq_zero_or_pos id with rfl | hpos
    · cases m <;> simp [stripTags, find?]
    · obtain ⟨d, hd⟩ := find?_of_lt hpos hid
      obtain ⟨m, rfl⟩ : ∃ k, m = k + 1 := ⟨m - 1, by omega⟩
      simp only [stripTags, hd, hg.find? hd]
      split
      · next hk =>
        have helem := h.older hd d.elem (by simp [parts, hk])
        exact ih m (Nat.lt_trans helem hid) (by omega) (by omega)
      · rfl

theorem Ordered.underlying_eq {t t' : TypeTable} (h : t.Ordered) (hg : t.Grows t') {id : TypeId}
    (hid : id < t.types.size) : t'.underlying id = t.underlying id :=
  h.stripTags_eq hg _ _ hid (Nat.le_of_lt hid)
    (Nat.le_of_lt (Nat.lt_of_lt_of_le hid hg.size_le))

theorem underlying_of_unknown {t : TypeTable} {id : TypeId} (h : t.find? id = none) :
    t.underlying id = id := by
  unfold underlying
  cases t.types.size <;> simp [stripTags, h]

theorem known_of_underlying {t : TypeTable} {id : TypeId} {d : Descriptor}
    (h : t.find? (t.underlying id) = some d) : ∃ d', t.find? id = some d' := by
  rcases hid : t.find? id with _ | d'
  · rw [underlying_of_unknown hid, hid] at h
    cases h
  · exact ⟨d', rfl⟩

theorem Ordered.underlying_tagged {t : TypeTable} (h : t.Ordered) {id : Nat} {d : Descriptor}
    (hd : t.find? id = some d) (hk : d.kind = .tagged) :
    t.underlying id = t.underlying d.elem := by
  have helem := h.older hd d.elem (by simp [parts, hk])
  have hlt := (find?_lt hd).2
  obtain ⟨n, hn⟩ : ∃ n, t.types.size = n + 1 := ⟨t.types.size - 1, by omega⟩
  calc t.underlying id = t.stripTags n d.elem := by
        rw [underlying, hn, stripTags, hd]
        simp [hk]
    _ = t.underlying d.elem :=
        (h.stripTags_eq (.refl t) n _ (Nat.lt_trans helem hlt) (by omega) (by omega)).symm

theorem underlying_of_not_tagged {t : TypeTable} {id : TypeId} {d : Descriptor}
    (hd : t.find? id = some d) (hk : d.kind ≠ .tagged) : t.underlying id = id := by
  unfold underlying
  cases t.types.size <;> simp [stripTags, hd, hk]

theorem Ordered.kind_underlying {t : TypeTable} (h : t.Ordered) (id : Nat) {d : Descriptor}
    (hd : t.find? (t.underlying id) = some d) : d.kind ≠ .tagged := by
  induction id using Nat.strongRecOn generalizing d with
  | ind id ih =>
    obtain ⟨d', hd'⟩ := known_of_underlying hd
    by_cases hk : d'.kind = .tagged
    · rw [h.underlying_tagged hd' hk] at hd
      exact ih d'.elem (h.older hd' _ (by simp [parts, hk])) hd
    · rw [underlying_of_not_tagged hd' hk, hd'] at hd
      exact Option.some.inj hd ▸ hk

end TypeTable

end TypedIR
