import TypedIR.Proofs.AlikeEngines
import TypedIR.Proofs.BuiltLayouts
import TypedIR.Proofs.StructLayout

/-
  The frames that compiling makes.

  Slots are given by a running sum that is rounded up for each value. While the sizes
  of the values and their alignments add up to less than 2^63 nothing wraps around
  (`Placed.exact`): the slots follow each other, each is at a multiple of an alignment,
  and the frame ends behind the last. So the slots of a compiled function lie apart and
  inside its frame, and the frame is empty only if no value needs a slot
  (`Engine.frame_holds`).

  The alignment of a slot is the one that the layouts answer. Where they remember a
  refusal from before the type was made they answer none, and the slot may be anywhere
  (`misaligned_slot`).
-/

namespace TypedIR

/-! ## Alignments -/

namespace Layout

variable {target : Target} {t : TypeTable} {id : TypeId} {l : Layout}

theorem one_le_placed_align {ask : TypeId → Option Layout} {fields : List TypeId} {p : Partial}
    (hp : 1 ≤ p.align) (h : placed ask p fields = some l) : 1 ≤ l.align := by
  induction fields generalizing p with
  | nil =>
    obtain rfl := Option.some.inj h
    exact hp
  | cons f rest ih =>
    unfold placed at h
    split at h
    · cases h
    · split at h
      · cases h
      · refine ih ?_ h
        unfold Partial.place
        dsimp only
        omega

theorem one_le_plain_align {n : Nat} (h : plain target t n id = some l) : 1 ≤ l.align := by
  have hnumber : ∀ (size : Nat) (id : TypeId) l, (numberLayout size id).toOption = some l →
      1 ≤ l.align := by
    intro size id l h
    unfold numberLayout at h
    split at h
    · next hs =>
      obtain rfl := Option.some.inj h
      show (1 : Int) ≤ size
      omega
    · cases h
  have hpointer : 1 ≤ (pointerLayout target).align := by
    unfold pointerLayout
    dsimp only
    split
    · split <;> omega
    · omega
  have hempty : 1 ≤ empty.align := Int.le_refl 1
  induction n generalizing id l with
  | zero => cases h
  | succ n ih =>
    rcases hd : t.find? id with _ | d <;> simp only [plain, hd] at h
    · cases h
    · split at h
      · exact Option.some.inj h ▸ hempty
      · split at h
        · exact Option.some.inj h ▸ hpointer
        · exact hnumber _ _ _ h
      · split at h
        · exact Option.some.inj h ▸ hpointer
        · exact hnumber _ _ _ h
      · split at h
        · exact hnumber _ _ _ h
        · cases h
      · exact Option.some.inj h ▸ hpointer
      · exact Option.some.inj h ▸ hpointer
      · exact ih h
      · split at h
        · exact Option.some.inj h ▸ hempty
        · exact one_le_placed_align (Int.le_refl 1) h
      · cases h

theorem Honest.plain_of_ok (ht : t.Ordered) {c : Cache} (hc : Honest target t False c)
    (h : ((layoutOf target t id).run c).1 = .ok l) : plain target t (id + 1) id = some l := by
  have hright : Right target t False id ((layoutOf target t id).run c).1 :=
    (layoutWithin_right ht (t.types.size + 1) hc fun hf => hf.elim).1
  have hagrees := hright.agrees
  rw [h] at hagrees
  exact hagrees

/-- Layouts that remember no wrong layout, and do not refuse the type, answer the
alignment that fresh ones do. -/
theorem Honest.slotAlign (ht : t.Ordered) {c : Cache} (hc : Honest target t False c) {l' : Layout}
    (hanswer : ((layoutOf target t id).run c).1 = .ok l')
    (hfresh : ((layoutOf target t id).run []).1 = .ok l) :
    ((layoutOf target t id).run c).1.slotAlign = l.align := by
  have hplain := honest_nil.plain_of_ok ht hfresh
  obtain rfl := Option.mem_unique hplain (hc.plain_of_ok ht hanswer)
  rw [hanswer]
  exact Int.max_eq_left (one_le_plain_align hplain)

end Layout

/-! ## Exact sums -/

/-- The bytes of all values that need a slot. -/
def slotBytes : List ValueInfo → Int
  | [] => 0
  | v :: rest => (if v.needsSlot then v.rep.size else 0) + slotBytes rest

def slotCount (vs : List ValueInfo) : Nat := vs.countP (·.needsSlot)

theorem slotBytes_nonneg {vs : List ValueInfo}
    (h : ∀ v ∈ vs, v.needsSlot = true → 0 ≤ v.rep.size) : 0 ≤ slotBytes vs := by
  induction vs with
  | nil => exact Int.le_refl 0
  | cons v rest ih =>
    obtain ⟨hv, hrest⟩ := List.forall_mem_cons.mp h
    have := ih hrest
    unfold slotBytes
    split
    · next hneeds =>
      have := hv hneeds
      omega
    · omega

theorem slotBytes_slotted {vs vs' : List ValueInfo} (h : List.Forall₂ Slotted vs vs') :
    slotBytes vs' = slotBytes vs ∧ slotCount vs' = slotCount vs := by
  induction h with
  | nil => exact ⟨rfl, rfl⟩
  | cons hslot _ ih =>
    obtain ⟨hbytes, hcount⟩ := ih
    rw [hslot]
    unfold slotCount at hcount ⊢
    constructor
    · unfold slotBytes
      rw [hbytes]
      rfl
    · rw [List.countP_cons, List.countP_cons, hcount]
      rfl

def ValueInfo.placeless (v : ValueInfo) : ValueInfo := { v with slot := none }

theorem map_placeless {vs vs' : List ValueInfo} (h : List.Forall₂ Slotted vs vs') :
    vs'.map (·.placeless) = vs.map (·.placeless) := by
  induction h with
  | nil => rfl
  | cons hslot _ ih =>
    rw [List.map_cons, List.map_cons, ih, hslot]
    rfl

namespace Placed

variable {align : TypeId → Int → Prop} {size total bound : Int} {vs : List ValueInfo}

theorem exact (hp : Placed align size vs total)
    (halign : ∀ id a, align id a → 1 ≤ a ∧ a ≤ bound) (hbound : 0 ≤ bound) (h0 : 0 ≤ size)
    (hsizes : ∀ v ∈ vs, v.needsSlot = true → 0 ≤ v.rep.size)
    (hfits : size + slotBytes vs + slotCount vs * bound < 0x8000000000000000) :
    size ≤ total ∧
      (∀ v ∈ vs, ∀ s ∈ v.slot, size ≤ s ∧ s + max v.rep.size 1 ≤ total ∧
        ∃ a, align v.type a ∧ a ∣ s) ∧
      vs.Pairwise fun u v => ∀ s ∈ u.slot, ∀ s' ∈ v.slot, s + max u.rep.size 1 ≤ s' := by
  induction hp with
  | nil => exact ⟨Int.le_refl _, List.forall_mem_nil _, .nil⟩
  | @slot size total a v rest hneeds ha hslot _ ih =>
    obtain ⟨hv, hsizes'⟩ := List.forall_mem_cons.mp hsizes
    have hsize := hv hneeds
    obtain ⟨ha1, hab⟩ := halign _ _ ha
    have hbytes : slotBytes (v :: rest) = v.rep.size + slotBytes rest := by
      rw [slotBytes, if_pos hneeds]
    have hcount : (slotCount (v :: rest) : Int) * bound = slotCount rest * bound + bound := by
      have hone : slotCount (v :: rest) = slotCount rest + 1 := List.countP_cons_of_pos hneeds
      rw [hone, Int.natCast_add, Int.add_mul]
      omega
    rw [hbytes, hcount] at hfits
    have hrest0 := slotBytes_nonneg hsizes'
    have hcount0 : 0 ≤ (slotCount rest : Int) * bound := Int.mul_nonneg (Int.natCast_nonneg _) hbound
    have hge := Layout.le_alignUp size (show 0 < a by omega)
    have hlt := Layout.alignUp_lt size (show 0 < a by omega)
    have hround : Layout.roundUp size a = Layout.alignUp size a :=
      Layout.roundUp_eq_alignUp h0 (by omega) (by omega)
    have hnext : wrap64 (Layout.alignUp size a + max v.rep.size 1) =
        Layout.alignUp size a + max v.rep.size 1 := wrap64_of_mem (by omega) (by omega)
    rw [hround, hnext] at ih
    obtain ⟨hle, hrest, hpairs⟩ := ih (by omega) hsizes' (by omega)
    have hhere : ∀ s ∈ v.slot, Layout.alignUp size a = s := by
      intro s hs
      rw [hslot, hround] at hs
      exact Option.some.inj hs
    refine ⟨by omega, List.forall_mem_cons.mpr ⟨fun s hs => ?_, fun u hu s hs => ?_⟩,
      List.pairwise_cons.mpr ⟨fun u hu s hs s' hs' => ?_, hpairs⟩⟩
    · obtain rfl := hhere s hs
      exact ⟨hge, hle, a, ha, Layout.dvd_alignUp size a⟩
    · obtain ⟨hs0, hs⟩ := hrest u hu s hs
      exact ⟨by omega, hs⟩
    · obtain rfl := hhere s hs
      exact (hrest u hu s' hs').1
  | @register size total v rest hneeds hslot _ ih =>
    obtain ⟨-, hsizes'⟩ := List.forall_mem_cons.mp hsizes
    have hbytes : slotBytes (v :: rest) = slotBytes rest := by
      rw [slotBytes, hneeds]
      simp
    have hcount : slotCount (v :: rest) = slotCount rest :=
      List.countP_cons_of_neg (by rw [hneeds]; exact nofun)
    rw [hbytes, hcount] at hfits
    obtain ⟨hle, hrest, hpairs⟩ := ih h0 hsizes' hfits
    have hnone : ∀ s, s ∉ v.slot := by
      rw [hslot]
      exact fun s => Option.not_mem_none s
    exact ⟨hle, List.forall_mem_cons.mpr ⟨fun s hs => absurd hs (hnone s), hrest⟩,
      List.pairwise_cons.mpr ⟨fun u _ s hs => absurd hs (hnone s), hpairs⟩⟩

end Placed

/-- A frame as it should be: the values that need a slot have one, which is aligned and
inside the frame, no two slots overlap, the other values have none, and the frame is empty
only if there is no slot. -/
structure Func.Holds (f : Func) (aligned : TypeId → Int → Prop) : Prop where
  slot : ∀ v info, f.value? v = some info → info.needsSlot = true → ∃ off, info.slot = some off ∧
    aligned info.type off ∧ 0 ≤ off ∧ off + max info.rep.size 1 ≤ f.frameSize
  apart : ∀ v w, v ≠ w → ∀ info info', f.value? v = some info → f.value? w = some info' →
    ∀ off ∈ info.slot, ∀ off' ∈ info'.slot,
      off + max info.rep.size 1 ≤ off' ∨ off' + max info'.rep.size 1 ≤ off
  register : ∀ v info, f.value? v = some info → info.needsSlot = false → info.slot = none
  empty : f.frameSize = 0 ↔ ∀ v info, f.value? v = some info → info.needsSlot = false

theorem Placed.holds {align : TypeId → Int → Prop} {bound : Int} {f : Func}
    (hp : Placed align 0 (f.values.toList.drop 1) f.frameSize)
    (halign : ∀ id a, align id a → 1 ≤ a ∧ a ≤ bound)
    (hsizes : ∀ v ∈ f.values.toList.drop 1, v.needsSlot = true → 0 ≤ v.rep.size)
    (hfits : slotBytes (f.values.toList.drop 1) + slotCount (f.values.toList.drop 1) * bound <
      0x8000000000000000) (hbound : 0 ≤ bound) :
    f.Holds fun id off => ∃ a, align id a ∧ a ∣ off := by
  obtain ⟨-, hexact, hpairs⟩ := hp.exact halign hbound (Int.le_refl 0) hsizes (by omega)
  have hinside : ∀ info ∈ f.values.toList.drop 1, ∀ off ∈ info.slot,
      0 ≤ off ∧ 0 ≤ info.rep.size ∧ off + max info.rep.size 1 ≤ f.frameSize := by
    intro info hinfo off hoff
    have hneeds : info.needsSlot = true := by
      rw [← hp.slot_isSome info hinfo, Option.mem_def.mp hoff]
      rfl
    obtain ⟨h0, hend, -⟩ := hexact info hinfo off hoff
    exact ⟨h0, hsizes info hinfo hneeds, hend⟩
  have hget : ∀ {v : Nat} {info}, f.value? v = some info →
      0 < v ∧ ∃ h : v - 1 < (f.values.toList.drop 1).length, (f.values.toList.drop 1)[v - 1] = info := by
    intro v info hv
    obtain ⟨hpos, hget, -⟩ := Func.value?_lt hv
    refine ⟨hpos, List.getElem?_eq_some_iff.mp ?_⟩
    rw [List.getElem?_drop, Nat.add_sub_cancel' hpos]
    simpa using hget
  refine ⟨fun v info hv hneeds => ?_, fun v w hne info info' hv hw off hoff off' hoff' => ?_,
    fun v info hv hneeds => ?_, ?_⟩
  · have hmem := Func.mem_values hv
    obtain ⟨off, hoff⟩ := Option.isSome_iff_exists.mp ((hp.slot_isSome info hmem).trans hneeds)
    obtain ⟨h0, hend, haligned⟩ := hexact info hmem off hoff
    exact ⟨off, hoff, haligned, h0, hend⟩
  · obtain ⟨hv0, hvl, rfl⟩ := hget hv
    obtain ⟨hw0, hwl, rfl⟩ := hget hw
    rw [List.pairwise_iff_getElem] at hpairs
    rcases Nat.lt_or_gt_of_ne hne with hlt | hlt
    · exact .inl (hpairs (v - 1) (w - 1) hvl hwl (by omega) off hoff off' hoff')
    · exact .inr (hpairs (w - 1) (v - 1) hwl hvl (by omega) off' hoff' off hoff)
  · have hnone := hp.slot_isSome info (Func.mem_values hv)
    rw [hneeds] at hnone
    exact Option.isNone_iff_eq_none.mp (by rw [← Option.not_isSome, hnone]; rfl)
  · constructor
    · -- a slot would take a byte at least
      intro hempty v info hv
      by_contra hneeds
      have hmem := Func.mem_values hv
      obtain ⟨off, hoff⟩ := Option.isSome_iff_exists.mp
        ((hp.slot_isSome info hmem).trans (Bool.eq_true_of_not_eq_false hneeds))
      obtain ⟨h0, -, hend⟩ := hinside info hmem off hoff
      omega
    · intro hnone
      refine hp.total_eq fun info hinfo => ?_
      obtain ⟨i, hi, rfl⟩ := List.getElem_of_mem hinfo
      exact hnone (i + 1) _ (Func.value?_succ hi)

theorem Func.Holds.mono {f : Func} {aligned aligned' : TypeId → Int → Prop} (h : f.Holds aligned)
    (ha : ∀ id off, aligned id off → aligned' id off) : f.Holds aligned' := by
  refine ⟨fun v info hv hneeds => ?_, h.apart, h.register, h.empty⟩
  obtain ⟨off, hoff, haligned, hinside⟩ := h.slot v info hv hneeds
  exact ⟨off, hoff, ha _ _ haligned, hinside⟩

namespace Engine

/-- An offset at which a value of a type is aligned, as fresh layouts answer it. It may be
any offset for a type that the layouts of the engine refuse. -/
def Aligns (e : Engine) (id : TypeId) (off : Int) : Prop :=
  ∀ l' l, ((Layout.layoutOf e.target e.types id).run e.layouts).1 = .ok l' →
    ((Layout.layoutOf e.target e.types id).run []).1 = .ok l → l.align ∣ off

/-- Compiling makes a frame that holds the values of the function, if their sizes, and the
alignments that they may have, add up to no more than 2^62 each. Otherwise the function is
what it was. The tables of engines that clients can have are founded and the types of values
are known there (`Reached.founded`), and this stays so while an image is loaded, which compiles
the function that it fills. -/
theorem frame_holds {e e' : Engine} (h : e.tables.Founded) {fn : FuncId} {f : Func}
    (hf : e.func? fn = some f) (hknown : f.Known e.types) (hopen : f.compiled = false)
    (hrun : ((EngineM.compile fn).run e : Except Failure Unit × Engine) = (.ok (), e'))
    (hsizes : ∀ v ∈ f.values.toList.drop 1, v.needsSlot = true → 0 ≤ v.rep.size)
    (htotal : slotBytes (f.values.toList.drop 1) < 0x4000000000000000)
    (hcount : slotCount (f.values.toList.drop 1) * Layout.alignBound e.target ≤ 0x4000000000000000) :
    ∃ f', e'.func? fn = some f' ∧
      (∀ v, (f'.value? v).map (·.placeless) = (f.value? v).map (·.placeless)) ∧
      f'.Holds e.Aligns := by
  have hord : e.types.Ordered := h.ordered
  have hhonest₀ : Layout.Honest e.target e.types False e.layouts := h.honest
  obtain ⟨f₀, hf₀, ⟨hcompiled, -⟩ | ⟨-, -, notes, rfl⟩⟩ := (EngineM.ends_compile fn e).ok_of_run hrun
  · obtain rfl := Option.mem_unique hf ((EngineM.findFunc_ok hf₀).1)
    cases hcompiled.symm.trans hopen
  obtain rfl := Option.mem_unique hf ((EngineM.findFunc_ok hf₀).1)
  -- whatever is asked for on the way, every value gets the answer that it would get now
  have hasks : ∀ v ∈ f.values.toList.drop 1, ∀ c,
      Layout.Honest e.target e.types False c ∧ Layout.Alike e.target e.types e.layouts c →
      (Layout.AlignOf e.target e.types False v.type
          ((Layout.layoutOf e.target e.types v.type).run c).1.slotAlign ∧
        ∀ off, ((Layout.layoutOf e.target e.types v.type).run c).1.slotAlign ∣ off →
          e.Aligns v.type off) ∧
      Layout.Honest e.target e.types False ((Layout.layoutOf e.target e.types v.type).run c).2 ∧
        Layout.Alike e.target e.types e.layouts
          ((Layout.layoutOf e.target e.types v.type).run c).2 := by
    rintro v hv c ⟨hhonest, halike⟩
    obtain ⟨i, hi, rfl⟩ := List.getElem_of_mem hv
    have hlt : (f.values.toList.drop 1)[i].type < e.types.types.size :=
      hknown (i + 1) _ (Func.value?_succ hi)
    obtain ⟨hright, hhonest'⟩ := Layout.layoutWithin_right hord (e.types.size + 1) hhonest
      fun hno => hno.elim
    have hask := fun c => @Layout.Alike.ask_known e.target e.types hord _ hlt c
    obtain ⟨hanswer, halike'⟩ := hask c
    have hnow := (hask e.layouts).1
    refine ⟨⟨⟨_, hright, rfl⟩, fun off hoff l' l hl' hl => ?_⟩, hhonest', halike.trans halike'⟩
    rw [hanswer, halike.ledTo, ← hnow, hhonest₀.slotAlign hord hl' hl] at hoff
    exact hoff
  obtain ⟨hslotted, hplaced, -⟩ := @placeSlots_spec (Layout.layoutOf e.target e.types)
    (fun id a => Layout.AlignOf e.target e.types False id a ∧ ∀ off, a ∣ off → e.Aligns id off)
    (fun c => Layout.Honest e.target e.types False c ∧ Layout.Alike e.target e.types e.layouts c)
    (f.values.toList.drop 1) hasks 0 e.layouts ⟨hhonest₀, .refl e.layouts⟩
  change List.Forall₂ Slotted _ (e.slots f).1.1 at hslotted
  change Placed _ 0 (e.slots f).1.1 (e.slots f).1.2 at hplaced
  obtain ⟨hbytes, hslots⟩ := slotBytes_slotted hslotted
  have hsame := map_placeless hslotted
  rw [← hbytes] at htotal
  rw [← hslots] at hcount
  have hvalues : (e.framed f).values.toList.drop 1 = (e.slots f).1.1 := by simp [framed]
  refine ⟨e.framed f, (func?_set hf fn _ rfl).trans (if_pos rfl), fun v => ?_, ?_⟩
  · cases v with
    | zero => rfl
    | succ i =>
      have hold : f.value? (i + 1) = (f.values.toList.drop 1)[i]? := by
        unfold Func.value?
        rw [if_neg (Nat.succ_ne_zero i)]
        simp
      rw [Func.value?_of_list rfl i, hold, ← List.getElem?_map, ← List.getElem?_map, hsame]
  · have hsizes' : ∀ v ∈ (e.slots f).1.1, v.needsSlot = true → 0 ≤ v.rep.size := by
      intro v hv hneeds
      have hmem : v.placeless ∈ (f.values.toList.drop 1).map (·.placeless) :=
        hsame ▸ List.mem_map_of_mem hv
      obtain ⟨u, hu, huv⟩ := List.mem_map.mp hmem
      have hrep : u.rep = v.rep := congrArg (·.rep) huv
      have hflag : u.addressable = v.addressable := congrArg (·.addressable) huv
      unfold ValueInfo.needsSlot at hneeds
      rw [← hrep, ← hflag] at hneeds
      rw [← hrep]
      exact hsizes u hu hneeds
    have hbound : 0 ≤ Layout.alignBound e.target := by
      unfold Layout.alignBound
      omega
    rw [← hvalues] at hplaced hsizes' htotal hcount
    have hholds := hplaced.holds (fun id a ha => ha.1.bound) hsizes' (by omega) hbound
    refine hholds.mono fun id off haligned => ?_
    obtain ⟨a, ha, hoff⟩ := haligned
    exact ha.2 off hoff

end Engine

/-- The engine with a function that has two addressable integers, of one byte and of eight. -/
def byteAndLong : Engine :=
  (Engine.create .amd64 0 0 (.seeded 1) 0).after
    [.createContext, .buildStart 1, .signatureType 0 Builtin.int32.id [], .createFunction 1 18 "f",
      .createValue 1 Builtin.int8.id, .createValue 1 Builtin.int64.id, .setAddressable 1 1,
      .setAddressable 1 2]

theorem byteAndLong_frame : ∃ f f' e', byteAndLong.Reached ∧ byteAndLong.func? 1 = some f ∧
    f.compiled = false ∧
    ((EngineM.compile 1).run byteAndLong : Except Failure Unit × Engine) = (.ok (), e') ∧
    e'.func? 1 = some f' ∧ f'.Holds byteAndLong.Aligns ∧
    (f'.value? 2).bind (·.slot) = some 8 ∧ f'.frameSize = 16 := by
  have hreached : byteAndLong.Reached := Engine.Built.reached ⟨_, _, _, _, _, rfl⟩
  have hcheck : ∃ f ∈ byteAndLong.func? 1, f.compiled = false ∧
      (∀ v ∈ f.values.toList.drop 1, v.needsSlot = true → 0 ≤ v.rep.size) ∧
      slotBytes (f.values.toList.drop 1) < 0x4000000000000000 ∧
      slotCount (f.values.toList.drop 1) * Layout.alignBound byteAndLong.target ≤
        0x4000000000000000 := by decide +kernel
  have hcompiles : ((EngineM.compile 1).run byteAndLong : Except Failure Unit × Engine).1.toOption =
      some () := by decide +kernel
  have hframe : ∀ f' ∈ ((EngineM.compile 1).run byteAndLong : Except Failure Unit × Engine).2.func? 1,
      (f'.value? 2).bind (·.slot) = some 8 ∧ f'.frameSize = 16 := by decide +kernel
  obtain ⟨f, hf, hopen, hsizes, htotal, hcount⟩ := hcheck
  revert hcompiles hframe
  generalize hrun : ((EngineM.compile 1).run byteAndLong : Except Failure Unit × Engine) = r
  obtain ⟨err | a, e'⟩ := r
  · intro hcompiles
    cases hcompiles
  · intro _ hframe
    obtain ⟨f', hf', -, hholds⟩ := Engine.frame_holds hreached.founded.tables hf
      ((hreached.founded.values 1 f hf).mono fun _ hid => hid.1) hopen hrun hsizes htotal hcount
    obtain ⟨hslot, hsize⟩ := hframe f' hf'
    exact ⟨f, f', e', hreached, hf, hopen, rfl, hf', hholds, hslot, hsize⟩

/-- The engine with a function that has an addressable byte and an addressable integer of a
type that was asked about before it was made, and has the number 19. -/
def namedTooLate : Engine :=
  (Engine.create .amd64 0 0 (.seeded 1) 0).after
    [.createContext, .buildStart 1, .signatureType 0 Builtin.int32.id [], .createFunction 1 18 "f",
      .layoutOf 19, .taggedType Builtin.int64.id Tag.name.code "n", .createValue 1 Builtin.int8.id,
      .createValue 1 19, .setAddressable 1 1, .setAddressable 1 2]

/-- The function compiles, and the integer of eight bytes is at the offset 1. -/
theorem misaligned_slot : namedTooLate.Reached ∧
    ((EngineM.compile 1).run namedTooLate : Except Failure Unit × Engine).1.toOption = some () ∧
    ((namedTooLate.performed (.compile 1)).func? 1).any (fun f => slotBytes (f.values.toList.drop 1) = 9) ∧
    (((namedTooLate.performed (.compile 1)).func? 1).bind (·.value? 2)).map
      (fun info => (info.type, info.rep.size, info.slot)) = some (19, 8, some 1) ∧
    ((Layout.layoutOf .amd64 namedTooLate.types 19).run []).1 = .ok { size := 8, align := 8 } ∧
    ¬ (8 : Int) ∣ 1 := by
  refine ⟨Engine.Built.reached ⟨_, _, _, _, _, rfl⟩, ?_, ?_, ?_, ?_, ?_⟩ <;> decide +kernel

end TypedIR
