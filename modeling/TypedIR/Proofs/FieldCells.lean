import TypedIR.Proofs.FrameAccesses
import TypedIR.Proofs.IntegerConstants
import TypedIR.Proofs.StructLayout
import TypedIR.Proofs.TypeWalks

/-
  The fields of a struct in its block.

  A struct that starts where a block starts has a range of the block for each field, and
  no two of them meet (`FieldCell.Fit`). So a number that is stored in one field is loaded
  from there until another is, and the other fields do not notice (`Memory.Record.stored`).
  The layout of a struct of numbers and addresses gives such ranges (`Ty.OfFields.fit`).
-/

namespace TypedIR

/-- A field that is a number or an address, so many bytes after the start. -/
structure FieldCell where
  rep : Rep
  offset : Nat
  deriving DecidableEq

namespace FieldCell

def bytes (f : FieldCell) : Nat := f.rep.size.toNat

def stop (f : FieldCell) : Nat := f.offset + f.bytes

/-- The fields lie within so many bytes, and apart. -/
structure Fit (size : Nat) (cells : List FieldCell) : Prop where
  rep : ∀ f ∈ cells, f.rep.IsWhole ∧ f.rep.Valid
  inside : ∀ f ∈ cells, f.stop ≤ size
  apart : ∀ {i j : Nat} {f g : FieldCell}, i ≠ j → cells[i]? = some f → cells[j]? = some g →
    f.stop ≤ g.offset ∨ g.stop ≤ f.offset

end FieldCell

theorem Word.ofInt_natCast (n : Nat) : Word.ofInt n = UInt64.ofNat n := by
  apply UInt64.toNat_inj.mp
  unfold Word.ofInt
  rw [UInt64.toNat_ofNat', UInt64.toNat_ofNat']
  omega

namespace Rep.IsWhole

variable {r : Rep} {n : Int}

theorem size_pos (h : r.IsWhole) : 0 < r.size.toNat := by
  rcases h.2 with hs | hs | hs | hs <;> rw [hs] <;> decide

theorem canonical_ofInt (h : r.IsWhole) (hn : r.Holds n) : r.Canonical (Word.ofInt n) := by
  unfold Canonical
  rw [h.normalize_ofInt, h.wrap_eq hn]

theorem holds_zero (h : r.IsWhole) : r.Holds 0 := by
  unfold Holds least greatest width
  rcases h.1 with hc | hc | hc <;> rcases h.2 with hs | hs | hs | hs <;> rw [hc, hs] <;> decide

end Rep.IsWhole

theorem Target.Usual.pointer_isWhole {target : Target} (hu : target.Usual) :
    target.pointerRep.IsWhole := by
  refine ⟨.inr (.inr rfl), ?_⟩
  rw [show target.pointerRep.size = target.ptrSize from hu.addressSize]
  exact .inr (.inr hu)

namespace Memory

def Record (mem : Memory) (base : Word) (size : Nat) (cells : List FieldCell) (vals : Nat → Int) :
    Prop :=
  ∃ b, mem.Holds base b ∧ b.size = size ∧ ∀ i f, cells[i]? = some f → f.rep.Holds (vals i) ∧
    f.rep.decode (b.window f.offset f.bytes) = Word.ofInt (vals i)

variable {mem mem' : Memory} {base : Word} {size i : Nat} {cells : List FieldCell} {vals : Nat → Int}
  {f : FieldCell}

theorem record_alloc {ptrSize : Int} (hs : mem.Serves ptrSize) (hfit : FieldCell.Fit size cells)
    (h : ((alloc size).run mem : Except (Halt Fault) Word × Memory) = (.ok base, mem')) :
    mem'.Record base size cells (fun _ => 0) ∧ mem'.Serves ptrSize := by
  obtain ⟨hholds, hbits, -, -⟩ := holds_alloc hs h
  refine ⟨⟨_, hholds, Int.toNat_natCast size, fun i f hf => ?_⟩, hbits.trans hs⟩
  exact ⟨(hfit.rep f (List.mem_of_getElem? hf)).1.holds_zero, StepM.decode_window_fresh f.rep _ _ _⟩

theorem Holds.field {b : Block} (h : mem.Holds base b) (hfit : FieldCell.Fit b.size cells)
    (hf : cells[i]? = some f) :
    mem.handleOf (base + Word.ofInt f.offset) = mem.handleOf base ∧
      mem.offsetOf (base + Word.ofInt f.offset) = f.offset ∧
      mem.resolve (base + Word.ofInt f.offset) = .ok b ∧ f.offset + f.rep.size.toNat ≤ b.size := by
  have hmem := List.mem_of_getElem? hf
  have hinside : f.offset + f.rep.size.toNat ≤ b.size := hfit.inside f hmem
  have hpos := (hfit.rep f hmem).1.size_pos
  obtain ⟨hhandle, hoffset, hresolve⟩ := h.resolve (k := f.offset) (by omega)
  rw [Word.ofInt_natCast]
  exact ⟨hhandle, hoffset, hresolve, hinside⟩

theorem Record.loads (h : mem.Record base size cells vals) (hfit : FieldCell.Fit size cells)
    (hf : cells[i]? = some f) :
    mem.loads f.rep (base + Word.ofInt f.offset) = .ok (Word.ofInt (vals i)) := by
  obtain ⟨b, hb, rfl, hvals⟩ := h
  obtain ⟨-, hoffset, hresolve, hinside⟩ := hb.field hfit hf
  unfold Memory.loads
  rw [hresolve, hoffset]
  dsimp only
  rw [if_neg (Nat.not_lt.mpr hinside)]
  exact congrArg Except.ok (hvals i f hf).2

theorem Record.held (h : mem.Record base size cells vals) (hf : cells[i]? = some f) :
    f.rep.Holds (vals i) := by
  obtain ⟨b, -, -, hvals⟩ := h
  exact (hvals i f hf).1

theorem Record.stored (h : mem.Record base size cells vals) (hfit : FieldCell.Fit size cells)
    (hf : cells[i]? = some f) {n : Int} (hn : f.rep.Holds n) :
    ∃ mem', mem.stores f.rep (Word.ofInt n) (base + Word.ofInt f.offset) = .ok mem' ∧
      mem'.Record base size cells (Function.update vals i n) ∧ mem'.offsetBits = mem.offsetBits := by
  obtain ⟨b, hb, rfl, hvals⟩ := h
  obtain ⟨hhandle, hoffset, hresolve, hinside⟩ := hb.field hfit hf
  obtain ⟨hwhole, hvalid⟩ := hfit.rep f (List.mem_of_getElem? hf)
  have hlength : (f.rep.encode (Word.ofInt n)).length = f.bytes := length_littleEndian _ _
  unfold Memory.stores
  rw [hresolve, hoffset]
  dsimp only
  rw [if_neg (Nat.not_lt.mpr hinside)]
  refine ⟨_, rfl, ⟨_, hb.put hhandle rfl, rfl, fun j g hg => ?_⟩, rfl⟩
  by_cases hij : j = i
  · subst hij
    obtain rfl := Option.mem_unique hf hg
    rw [Function.update_self, ← hlength, Block.window_write_same]
    exact ⟨hn, Rep.decode_encode hvalid hwhole.isScalar (hwhole.canonical_ofInt hn)⟩
  · rw [Function.update_of_ne hij, Block.window_write_apart]
    · exact hvals j g hg
    · rw [hlength]
      exact hfit.apart hij hg hf

end Memory

/-! ## The layout of a struct of numbers -/

namespace Layout

variable {target : Target} {t : TypeTable} {id : TypeId} {d : Descriptor} {r : Rep}

def known (target : Target) (t : TypeTable) (id : TypeId) : Layout :=
  (plainPart target t id).getD empty

theorem known_whole (ht : target.Regular) (ho : t.Ordered) (h : t.HasRep target id r)
    (hr : r.IsWhole) : plainPart target t id = some (known target t id) ∧
      (known target t id).size = r.size ∧ Proper (known target t id) := by
  have hnumber : ∀ {size : Nat} {l : Layout}, (numberLayout size (t.underlying id)).toOption = some l →
      Proper l := by
    intro size l hl
    rcases hn : numberLayout size (t.underlying id) with why | l' <;> rw [hn] at hl
    · cases hl
    · obtain rfl := Option.some.inj hl
      exact proper_number hn
  obtain ⟨d, hd⟩ := h.found
  obtain ⟨l, hl, hrep⟩ := h
  have hknown : known target t id = l := by
    unfold known
    rw [← plainPart_underlying ho, hl]
    rfl
  rw [hknown, ← plainPart_underlying ho]
  refine ⟨hl, ?_⟩
  unfold plainPart plain at hl
  unfold TypeTable.repOf at hrep
  rw [hd] at hl hrep
  dsimp only at hl hrep
  cases hk : d.kind <;> rw [hk] at hl hrep <;> dsimp only at hl hrep
  case int | uint =>
    obtain rfl := Except.ok.inj hrep
    refine ⟨rfl, ?_⟩
    split at hl
    · exact Option.some.inj hl ▸ proper_pointer ht
    · exact hnumber hl
  case pointer | signature =>
    obtain rfl := Except.ok.inj hrep
    exact ⟨rfl, Option.some.inj hl ▸ proper_pointer ht⟩
  all_goals first
    | (obtain rfl := Except.ok.inj hrep; rcases hr.1 with hc | hc | hc <;> cases hc)
    | cases hrep

theorem placed_eq {ask : TypeId → Option Layout} {m : TypeId → Layout} {ids : List TypeId}
    (h : ∀ f ∈ ids, ask f = some (m f) ∧ (m f).size ≠ 0) (p : Partial) :
    placed ask p ids = some ((ids.map m).foldl Partial.place p).finish := by
  induction ids generalizing p with
  | nil => rfl
  | cons f rest ih =>
    obtain ⟨⟨hask, hsize⟩, hrest⟩ := List.forall_mem_cons.mp h
    unfold placed
    rw [hask]
    dsimp only
    rw [if_neg hsize]
    exact ih hrest _

theorem plain_struct (ho : t.Ordered) (hd : t.find? id = some d) (hk : d.kind = .struct)
    {ids : List TypeId} (hids : (t.fieldsOf id).map (·.type) = ids) (hne : ids ≠ [])
    (hf : ∀ f ∈ ids, plainPart target t f = some (known target t f) ∧ Proper (known target t f))
    (hsize : (exactStruct (ids.map (known target t))).size < 0x8000000000000000) :
    plainPart target t id = some (exactStruct (ids.map (known target t))) := by
  have hproper : ∀ l ∈ ids.map (known target t), Proper l := by
    intro l hl
    obtain ⟨f, hmem, rfl⟩ := List.mem_map.mp hl
    exact (hf f hmem).2
  have hask : ∀ f ∈ ids, plain target t id f = some (known target t f) ∧
      (known target t f).size ≠ 0 := by
    intro f hmem
    obtain ⟨hpart, hprop⟩ := hf f hmem
    refine ⟨?_, Int.ne_of_gt hprop.size⟩
    have hparts : f ∈ t.parts d := fieldTypes_eq_parts ho hd hk ▸ hids ▸ hmem
    have hlt : f < id := ho.older hd f hparts
    have hid : id < t.types.size := (TypeTable.find?_lt hd).2
    rw [← hpart]
    exact plain_eq ho (.refl t) _ _ (Nat.lt_trans hlt hid) (Nat.lt_succ_self f) hlt
  unfold plainPart plain
  rw [hd]
  dsimp only
  rw [hk]
  dsimp only
  rw [hids]
  obtain ⟨f, rest, rfl⟩ := List.exists_cons_of_ne_nil hne
  dsimp only
  rw [placed_eq hask, finish_place hproper hsize]

end Layout

def Setting.fieldSpace (c : Setting) (fs : List Ty) : Layout :=
  Layout.exactStruct ((fs.map (·.id)).map (Layout.known c.target c.types))

def Setting.cells (c : Setting) (fs : List Ty) (reps : List Rep) : List FieldCell :=
  List.zipWith (fun r o => ⟨r, o.toNat⟩) reps (c.fieldSpace fs).offsets

/-- A struct type of a runtime, under any tags, whose fields are integers, bools and
pointers, and that is smaller than 2^63 bytes. -/
structure Ty.OfFields (c : Setting) (rt : RuntimeId) (t : Ty) (fs : List Ty) (reps : List Rep) :
    Prop where
  owner : t.owner = some rt
  kind : t.kind = .struct
  known : c.types.tyKind? t.id = some .struct
  fields : (c.types.fieldsOf (c.types.underlying t.id)).map (·.type) = fs.map (·.id)
  whole : List.Forall₂ (Ty.Whole c rt) fs reps
  size : (c.fieldSpace fs).size < 0x8000000000000000

namespace Ty.OfFields

variable {c : Setting} {rt : RuntimeId} {t : Ty} {fs : List Ty} {reps : List Rep} {i : Nat}

theorem descriptor (h : t.OfFields c rt fs reps) :
    ∃ d, c.types.find? (c.types.underlying t.id) = some d ∧ d.kind = .struct := by
  have hknown := h.known
  unfold TypeTable.tyKind? TypeTable.kindOf at hknown
  split at hknown
  · cases hknown
  · rcases hd : c.types.find? (c.types.underlying t.id) with _ | d <;> rw [hd] at hknown
    · cases hknown
    · refine ⟨d, rfl, ?_⟩
      simp only [Option.map_some, Option.getD_some] at hknown
      cases hk : d.kind <;> rw [hk] at hknown <;> first | rfl | cases hknown

theorem wrap? (h : t.OfFields c rt fs reps) : c.types.wrap? rt t.id = some t := by
  have howner := h.owner
  have hkind := h.kind
  unfold TypeTable.wrap?
  rw [h.known]
  cases t
  cases howner
  cases hkind
  rfl

theorem valid (h : t.OfFields c rt fs reps) : t.valid = true := by
  unfold Ty.valid
  rw [h.owner, h.kind]
  rfl

theorem field (h : t.OfFields c rt fs reps) {f : Ty} (hf : fs[i]? = some f) :
    ∃ r, reps[i]? = some r ∧ f.Whole c rt r := by
  obtain ⟨hi, rfl⟩ := List.getElem?_eq_some_iff.mp hf
  have hi' : i < reps.length := h.whole.length_eq ▸ hi
  exact ⟨reps[i], List.getElem?_eq_getElem hi', h.whole.get hi hi'⟩

section

variable (ht : c.target.Regular)
include ht

theorem layouts (h : t.OfFields c rt fs reps) : ∀ id ∈ fs.map (·.id),
    Layout.plainPart c.target c.types id = some (Layout.known c.target c.types id) ∧
      Layout.Proper (Layout.known c.target c.types id) := by
  intro id hid
  obtain ⟨f, hf, rfl⟩ := List.mem_map.mp hid
  obtain ⟨i, hi⟩ := List.mem_iff_getElem?.mp hf
  obtain ⟨r, -, hwhole⟩ := h.field hi
  obtain ⟨hpart, -, hproper⟩ := Layout.known_whole ht c.ordered hwhole.rep hwhole.known.isWhole
  exact ⟨hpart, hproper⟩

theorem proper (h : t.OfFields c rt fs reps) :
    ∀ l ∈ (fs.map (·.id)).map (Layout.known c.target c.types), Layout.Proper l := by
  intro l hl
  obtain ⟨id, hid, rfl⟩ := List.mem_map.mp hl
  exact (h.layouts ht id hid).2

theorem plainPart (h : t.OfFields c rt fs reps) (hne : fs ≠ []) :
    Layout.plainPart c.target c.types (c.types.underlying t.id) = some (c.fieldSpace fs) := by
  obtain ⟨d, hd, hk⟩ := h.descriptor
  exact Layout.plain_struct c.ordered hd hk h.fields (by simpa using hne) (h.layouts ht) h.size

theorem hasRep (h : t.OfFields c rt fs reps) (hne : fs ≠ []) :
    c.types.HasRep c.target t.id { cls := .struct, size := (c.fieldSpace fs).size } := by
  obtain ⟨d, hd, hk⟩ := h.descriptor
  refine ⟨_, h.plainPart ht hne, ?_⟩
  unfold TypeTable.repOf
  rw [hd]
  dsimp only
  rw [hk]

theorem cell (h : t.OfFields c rt fs reps) {x : FieldCell} (hx : (c.cells fs reps)[i]? = some x) :
    ∃ f o, fs[i]? = some f ∧ f.Whole c rt x.rep ∧ x.offset = Int.toNat o ∧
      (Layout.known c.target c.types f.id).size = x.rep.size ∧
      Layout.FieldAt ((fs.map (·.id)).map (Layout.known c.target c.types)) (c.fieldSpace fs) i
        (Layout.known c.target c.types f.id) o := by
  unfold Setting.cells at hx
  rw [List.getElem?_zipWith] at hx
  rcases hr : reps[i]? with _ | r <;> rw [hr] at hx
  · cases hx
  rcases ho : (c.fieldSpace fs).offsets[i]? with _ | o <;> rw [ho] at hx
  · cases hx
  obtain rfl := Option.some.inj hx
  obtain ⟨hi, -⟩ := List.getElem?_eq_some_iff.mp hr
  have hf := List.getElem?_eq_getElem (h.whole.length_eq ▸ hi : i < fs.length)
  obtain ⟨r', hr', hwhole⟩ := h.field hf
  obtain rfl := Option.mem_unique hr hr'
  obtain ⟨-, hsize, -⟩ := Layout.known_whole ht c.ordered hwhole.rep hwhole.known.isWhole
  exact ⟨_, o, hf, hwhole, rfl, hsize, by rw [List.getElem?_map, List.getElem?_map, hf]; rfl, ho⟩

theorem fit (h : t.OfFields c rt fs reps) :
    FieldCell.Fit (c.fieldSpace fs).size.toNat (c.cells fs reps) where
  rep x hx := by
    obtain ⟨i, hi⟩ := List.mem_iff_getElem?.mp hx
    obtain ⟨f, o, -, hwhole, -⟩ := h.cell ht hi
    exact ⟨hwhole.known.isWhole, hwhole.rep.valid c.usual⟩
  inside x hx := by
    obtain ⟨i, hi⟩ := List.mem_iff_getElem?.mp hx
    obtain ⟨f, o, -, hwhole, hoffset, hsize, hat⟩ := h.cell ht hi
    obtain ⟨hlow, hhigh⟩ := Layout.FieldAt.inside (h.proper ht) hat
    have hhigh : o + (Layout.known c.target c.types f.id).size ≤ (c.fieldSpace fs).size := hhigh
    have hpos := hwhole.known.isWhole.size_pos
    unfold FieldCell.stop FieldCell.bytes
    omega
  apart := by
    have hbefore : ∀ {i j : Nat} {x y : FieldCell}, i < j → (c.cells fs reps)[i]? = some x →
        (c.cells fs reps)[j]? = some y → x.stop ≤ y.offset := by
      intro i j x y hij hx hy
      obtain ⟨f, o, -, hwhole, hoffset, hsize, hat⟩ := h.cell ht hx
      obtain ⟨g, o', -, -, hoffset', -, hat'⟩ := h.cell ht hy
      have hle := Layout.FieldAt.before (h.proper ht) hat hat' hij
      obtain ⟨hlow, -⟩ := Layout.FieldAt.inside (h.proper ht) hat
      have hpos := hwhole.known.isWhole.size_pos
      unfold FieldCell.stop FieldCell.bytes
      omega
    intro i j x y hij hx hy
    rcases Nat.lt_or_gt_of_ne hij with hlt | hgt
    · exact .inl (hbefore hlt hx hy)
    · exact .inr (hbefore hgt hy hx)

theorem size_pos (h : t.OfFields c rt fs reps) (hne : fs ≠ []) : 0 < (c.fieldSpace fs).size := by
  obtain ⟨f, rest, rfl⟩ := List.exists_cons_of_ne_nil hne
  have hmem : Layout.known c.target c.types f.id ∈
      ((f :: rest).map (·.id)).map (Layout.known c.target c.types) := List.mem_cons_self
  exact Int.lt_of_lt_of_le (h.proper ht _ hmem).size (Layout.size_le_exactStruct (h.proper ht) hmem)

end

theorem length_cells (h : t.OfFields c rt fs reps) : (c.cells fs reps).length = fs.length := by
  have hoffsets : (c.fieldSpace fs).offsets.length = fs.length := by
    exact (Layout.length_starts _ _).trans (by rw [List.length_map, List.length_map])
  unfold Setting.cells
  rw [List.length_zipWith, hoffsets, h.whole.length_eq, Nat.min_self]

theorem cell_of_rep (h : t.OfFields c rt fs reps) {r : Rep} (hr : reps[i]? = some r) :
    ∃ y, (c.cells fs reps)[i]? = some y ∧ y.rep = r := by
  obtain ⟨hi, rfl⟩ := List.getElem?_eq_some_iff.mp hr
  have hlt : i < (c.cells fs reps).length := by rwa [h.length_cells, h.whole.length_eq]
  exact ⟨_, List.getElem?_eq_getElem hlt, congrArg FieldCell.rep List.getElem_zipWith⟩

end Ty.OfFields

end TypedIR
