import TypedIR.Engine.Compile
import TypedIR.Proofs.Typing

/-
  Where compiled functions keep their values.

  Compiling gives slots to the values that need one, one after the other, each
  at the next multiple of its alignment (`Placed`), and changes nothing else of the
  function (`Func.Framed`). It goes ahead if every jump and every call leads somewhere
  (`Engine.Leads`). A frame fits if its slots lie inside it (`FrameFits`): then no sum
  wrapped around on the way, and no two slots overlap (`FrameFits.apart`).
-/

namespace TypedIR

/-! ## Alignments -/

namespace Layout

variable {target : Target} {t t' : TypeTable} {strict : Prop}

/-- The alignment that a slot of the type gets by a right answer. -/
def AlignOf (target : Target) (t : TypeTable) (strict : Prop) (id : TypeId) (a : Int) : Prop :=
  ∃ answer : Answer, Right target t strict id answer ∧ answer.slotAlign = a

theorem AlignOf.grow {id : TypeId} {a : Int} (h : t.Ordered) (hg : t.Grows t')
    (ha : AlignOf target t strict id a) : AlignOf target t' strict id a := by
  obtain ⟨answer, hr, rfl⟩ := ha
  exact ⟨answer, hr.grow h hg, rfl⟩

def alignBound (target : Target) : Int := max 8 (pointerLayout target).align

theorem placed_align_le {ask : TypeId → Option Layout} {bound : Int} {fields : List TypeId}
    (hask : ∀ f ∈ fields, ∀ l, ask f = some l → l.align ≤ bound) {p : Partial}
    (hp : p.align ≤ bound) (h1 : 1 ≤ bound) {l : Layout} (h : placed ask p fields = some l) :
    l.align ≤ bound := by
  induction fields generalizing p with
  | nil =>
    obtain rfl := Option.some.inj h
    exact hp
  | cons f rest ih =>
    simp only [placed] at h
    rcases hf : ask f with _ | fl <;> rw [hf] at h
    · cases h
    · have hfl := hask f List.mem_cons_self fl hf
      simp only at h
      split at h
      · cases h
      · refine ih (fun g hg => hask g (List.mem_cons_of_mem f hg)) ?_ h
        simp only [Partial.place]
        omega

theorem plain_align_le {n : Nat} {id : TypeId} {l : Layout} (h : plain target t n id = some l) :
    l.align ≤ alignBound target := by
  have h1 : 1 ≤ alignBound target := by
    unfold alignBound
    omega
  have hnumber : ∀ size id l, (numberLayout size id).toOption = some l →
      l.align ≤ alignBound target := by
    intro size id l h
    unfold numberLayout at h
    split at h
    · next hs =>
      obtain rfl := Option.some.inj h
      unfold alignBound
      show (size : Int) ≤ _
      omega
    · cases h
  have hpointer : (pointerLayout target).align ≤ alignBound target := by
    unfold alignBound
    omega
  induction n generalizing id l with
  | zero => cases h
  | succ n ih =>
    rcases hd : t.find? id with _ | d <;> simp only [plain, hd] at h
    · cases h
    · split at h
      · exact Option.some.inj h ▸ h1
      · split at h
        · exact Option.some.inj h ▸ hpointer
        · exact hnumber _ _ _ h
      · split at h
        · exact Option.some.inj h ▸ hpointer
        · exact hnumber _ _ _ h
      · split at h
        · exact hnumber _ _ _ h
        · cases h
      · exact Option.some.inj h ▸ hpointer
      · exact Option.some.inj h ▸ hpointer
      · exact ih h
      · split at h
        · exact Option.some.inj h ▸ h1
        · exact placed_align_le (fun f _ l hl => ih hl) h1 h1 h
      · cases h

theorem AlignOf.bound {id : TypeId} {a : Int} (h : AlignOf target t strict id a) :
    1 ≤ a ∧ a ≤ alignBound target := by
  obtain ⟨answer, hr, rfl⟩ := h
  cases answer with
  | ok l =>
    have hle := plain_align_le hr.agrees
    show 1 ≤ max l.align 1 ∧ max l.align 1 ≤ alignBound target
    unfold alignBound at hle ⊢
    omega
  | error r =>
    show 1 ≤ (1 : Int) ∧ 1 ≤ alignBound target
    unfold alignBound
    omega

end Layout

/-! ## Slots -/

/-- Values that have their places, one after the other from `size` on; `align`
says which alignments values of a type may have. -/
inductive Placed (align : TypeId → Int → Prop) : Int → List ValueInfo → Int → Prop
  | nil {size : Int} : Placed align size [] size
  | slot {size total a : Int} {v : ValueInfo} {rest : List ValueInfo} (hneeds : v.needsSlot = true)
      (ha : align v.type a) (hslot : v.slot = some (Layout.roundUp size a))
      (hrest : Placed align (wrap64 (Layout.roundUp size a + max v.rep.size 1)) rest total) :
      Placed align size (v :: rest) total
  | register {size total : Int} {v : ValueInfo} {rest : List ValueInfo}
      (hneeds : v.needsSlot = false) (hslot : v.slot = none) (hrest : Placed align size rest total) :
      Placed align size (v :: rest) total

namespace Placed

variable {align align' : TypeId → Int → Prop} {size total : Int} {vs : List ValueInfo}

theorem total_eq (hp : Placed align size vs total) (h : ∀ v ∈ vs, v.needsSlot = false) :
    total = size := by
  induction hp with
  | nil => rfl
  | slot hneeds => exact absurd (hneeds.symm.trans (h _ List.mem_cons_self)) nofun
  | register _ _ _ ih => exact ih (List.forall_mem_cons.mp h).2

theorem mono (h : Placed align size vs total)
    (hs : ∀ v ∈ vs, ∀ a, align v.type a → align' v.type a) : Placed align' size vs total := by
  induction h with
  | nil => exact .nil
  | slot hneeds ha hslot _ ih =>
    exact .slot hneeds (hs _ List.mem_cons_self _ ha) hslot
      (ih fun v hv => hs v (List.mem_cons_of_mem _ hv))
  | register hneeds hslot _ ih =>
    exact .register hneeds hslot (ih fun v hv => hs v (List.mem_cons_of_mem _ hv))

theorem slot_isSome (h : Placed align size vs total) :
    ∀ v ∈ vs, v.slot.isSome = v.needsSlot := by
  induction h with
  | nil => exact List.forall_mem_nil _
  | slot hneeds _ hslot _ ih => exact List.forall_mem_cons.mpr ⟨by rw [hslot, hneeds]; rfl, ih⟩
  | register hneeds hslot _ ih => exact List.forall_mem_cons.mpr ⟨by rw [hslot, hneeds]; rfl, ih⟩

end Placed

def Slotted (v v' : ValueInfo) : Prop := v' = { v with slot := v'.slot }

/-- Giving slots changes nothing but slots, and asks for the layouts of the
values' types only. -/
theorem placeSlots_spec {layout : TypeId → StateM Layout.Cache Layout.Answer}
    {align : TypeId → Int → Prop} {keep : Layout.Cache → Prop} (vs : List ValueInfo)
    (hlayout : ∀ v ∈ vs, ∀ c, keep c → align v.type ((layout v.type).run c).1.slotAlign ∧
      keep ((layout v.type).run c).2) (size : Int) {c : Layout.Cache} (hc : keep c) :
    List.Forall₂ Slotted vs ((placeSlots layout size vs).run c).1.1 ∧
    Placed align size ((placeSlots layout size vs).run c).1.1
      ((placeSlots layout size vs).run c).1.2 ∧
    keep ((placeSlots layout size vs).run c).2 := by
  induction vs generalizing size c with
  | nil => exact ⟨.nil, .nil, hc⟩
  | cons v rest ih =>
    have ih' := fun size c hc =>
      ih (fun w hw => hlayout w (List.mem_cons_of_mem v hw)) size (c := c) hc
    by_cases hv : v.needsSlot = true
    · obtain ⟨ha, hc'⟩ := hlayout v List.mem_cons_self c hc
      let start := Layout.roundUp size ((layout v.type).run c).1.slotAlign
      have hrun : (placeSlots layout size (v :: rest)).run c =
          let r := (placeSlots layout (wrap64 (start + max v.rep.size 1)) rest).run
            ((layout v.type).run c).2
          (({ v with slot := some start } :: r.1.1, r.1.2), r.2) := by
        simp only [placeSlots, hv, if_true]
        rfl
      rw [hrun]
      obtain ⟨hrest, hplaced, hkept⟩ := ih' (wrap64 (start + max v.rep.size 1)) _ hc'
      exact ⟨.cons rfl hrest, .slot hv ha rfl hplaced, hkept⟩
    · have hrun : (placeSlots layout size (v :: rest)).run c =
          let r := (placeSlots layout size rest).run c
          (({ v with slot := none } :: r.1.1, r.1.2), r.2) := by
        simp only [placeSlots, hv]
        rfl
      rw [hrun]
      obtain ⟨hrest, hplaced, hkept⟩ := ih' size c hc
      exact ⟨.cons rfl hrest, .register (Bool.eq_false_iff.mpr hv) rfl hplaced, hkept⟩

/-- What compiling makes sure of. -/
structure Func.Ready (strict : Prop) (sc : Scope) (f : Func) : Prop where
  placed : ∀ i ∈ f.insns, i.op.isBranch = true → (f.target? i).isSome
  frame : Placed (Layout.AlignOf sc.target sc.types strict) 0 (f.values.toList.drop 1) f.frameSize

theorem Func.mem_values {f : Func} {v : ValueId} {info : ValueInfo}
    (h : f.value? v = some info) : info ∈ f.values.toList.drop 1 := by
  obtain ⟨hpos, hget, -⟩ := value?_lt h
  apply List.mem_of_getElem? (i := v - 1)
  rw [List.getElem?_drop, Nat.add_sub_cancel' hpos]
  simpa using hget

theorem Func.value?_succ {f : Func} {i : Nat} (h : i < (f.values.toList.drop 1).length) :
    f.value? (i + 1) = some (f.values.toList.drop 1)[i] := by
  unfold value?
  rw [if_neg (Nat.succ_ne_zero i), ← List.getElem?_eq_getElem h]
  simp

theorem Slotted.needsSlot {v v' : ValueInfo} (h : Slotted v v') : v'.needsSlot = v.needsSlot := by
  rw [h]
  rfl

/-- What compiling makes of a function. -/
structure Func.Framed (f f' : Func) : Prop where
  header : Func.SameHeader f f'
  insns : f'.insns = f.insns
  labels : f'.labels = f.labels
  compiled : f'.compiled = true
  destroyed : f'.destroyed = f.destroyed
  values : ∃ vs, f'.values = #[ValueInfo.placeholder] ++ vs.toArray ∧
    List.Forall₂ Slotted (f.values.toList.drop 1) vs ∧
    Placed (fun _ _ => True) 0 vs f'.frameSize

namespace Func.Framed

variable {f f' : Func}

theorem value (h : f.Framed f') {v : ValueId} {info : ValueInfo} (hv : f.value? v = some info) :
    ∃ info', f'.value? v = some info' ∧ Slotted info info' ∧ info'.slot.isSome = info.needsSlot := by
  obtain ⟨vs, hvalues, hslotted, hplaced⟩ := h.values
  rcases v with _ | i
  · cases hv
  · have hi : i < (f.values.toList.drop 1).length := by
      obtain ⟨-, hget, -⟩ := Func.value?_lt hv
      have := lt_of_getElem? hget
      simp
      omega
    obtain rfl := Option.mem_unique (Func.value?_succ hi) hv
    have hi' : i < vs.length := hslotted.length_eq ▸ hi
    have hs := hslotted.get hi hi'
    refine ⟨vs[i], ?_, hs, ?_⟩
    · rw [Func.value?_of_list hvalues]
      exact List.getElem?_eq_getElem hi'
    · exact (hplaced.slot_isSome _ (List.getElem_mem hi')).trans hs.needsSlot

theorem size_values (h : f.Framed f') :
    (f'.values.toList.drop 1).length = (f.values.toList.drop 1).length := by
  obtain ⟨vs, hvalues, hslotted, -⟩ := h.values
  rw [hvalues]
  simpa using hslotted.length_eq.symm

theorem value_back (h : f.Framed f') {v : ValueId} {info' : ValueInfo}
    (hv : f'.value? v = some info') : ∃ info, f.value? v = some info ∧ Slotted info info' := by
  rcases v with _ | i
  · cases hv
  · have hi : i < (f'.values.toList.drop 1).length := by
      have := lt_of_getElem? (Func.value?_lt hv).2.1
      simp
      omega
    have hold := Func.value?_succ (h.size_values ▸ hi)
    obtain ⟨info₁, hv₁, hs, -⟩ := h.value hold
    exact ⟨_, hold, Option.mem_unique hv₁ hv ▸ hs⟩

theorem register (h : f.Framed f') {v : ValueId} {info : ValueInfo} (hv : f.value? v = some info)
    (hneeds : info.needsSlot = false) (hslot : info.slot = none) : f'.value? v = some info := by
  obtain ⟨info', hv', hs, hsome⟩ := h.value hv
  rw [hneeds, Option.isSome_eq_false_iff, Option.isNone_iff_eq_none] at hsome
  rw [hv', hs, hsome, ← hslot]

theorem old (h : f.Framed f') : f.Extends f' where
  header := h.header
  value hv := by
    obtain ⟨info', hv', hs, -⟩ := h.value hv
    have haddressable := congrArg ValueInfo.addressable hs
    exact ⟨info', hv', by rw [hs], fun ha => haddressable.trans ha⟩
  label hl := by
    unfold Func.label? at hl ⊢
    rwa [h.labels]
  insn hi := by rwa [h.insns]

theorem typed {sc : Scope} (hf : f.Framed f') (hord : sc.types.Ordered)
    (h : f.Typed sc) : f'.Typed sc := by
  have hfirst : f'.values[0]? = some ValueInfo.placeholder := by
    obtain ⟨vs, hvalues, -⟩ := hf.values
    simp [hvalues]
  refine h.extend hord hf.old hfirst (hf.labels ▸ h.firstLabel) ?_ ?_ ?_ ?_
  · intro v info' hv
    obtain ⟨info, hv, hs⟩ := hf.value_back hv
    have ht := h.value hv
    rw [hs]
    exact ⟨ht.rep, ht.origin, ht.const⟩
  · intro l pos hl hpos
    rw [hf.insns]
    unfold Func.label? at hl
    rw [hf.labels] at hl
    exact h.label hl hpos
  · intro pc i hi hop
    unfold Func.label?
    rw [hf.labels]
    exact h.placed (hf.insns ▸ hi) hop
  · exact fun i hi => .inl (hf.insns ▸ hi)

theorem frameSize (h : f.Framed f') (hneeds : ∀ v info, f.value? v = some info →
    info.needsSlot = false) : f'.frameSize = 0 := by
  obtain ⟨vs, -, hslotted, hplaced⟩ := h.values
  refine hplaced.total_eq fun v hv => ?_
  obtain ⟨i, hi, rfl⟩ := List.getElem_of_mem hv
  have hi' : i < (f.values.toList.drop 1).length := hslotted.length_eq ▸ hi
  exact (hslotted.get hi' hi).needsSlot.trans (hneeds _ _ (Func.value?_succ hi'))

end Func.Framed

namespace Engine

variable {e : Engine} {f : Func}

/-- Every jump of the function goes to a label that is placed, and every call to a
function that is there. -/
def Leads (e : Engine) (f : Func) : Prop :=
  ∀ i ∈ f.insns, (i.op.isBranch = true → (f.target? i).isSome) ∧
    (i.op = .call → ∃ callee, e.findFunc i.callee = .ok callee)

/-- The values of the function in their slots, and the size of the frame; asking for
their layouts changes what is remembered of them. -/
def slots (e : Engine) (f : Func) : (List ValueInfo × Int) × Layout.Cache :=
  (placeSlots (Layout.layoutOf e.target e.types) 0 (f.values.toList.drop 1)).run e.layouts

def framed (e : Engine) (f : Func) : Func :=
  { f with
    values := #[ValueInfo.placeholder] ++ (e.slots f).1.1.toArray
    frameSize := (e.slots f).1.2
    compiled := true }

/-- The engine once the function is compiled. -/
def compiled (e : Engine) (fn : FuncId) (f : Func) : Engine :=
  { e with layouts := (e.slots f).2, funcs := e.funcs.setIfInBounds (fn - 1) (e.framed f) }

theorem framed_framed (e : Engine) (f : Func) : f.Framed (e.framed f) := by
  obtain ⟨hslotted, hplaced, -⟩ := @placeSlots_spec (Layout.layoutOf e.target e.types)
    (fun _ _ => True) (fun _ => True) (f.values.toList.drop 1) (fun _ _ _ _ => ⟨trivial, trivial⟩)
    0 e.layouts trivial
  exact ⟨⟨rfl, rfl, rfl, rfl, rfl, rfl⟩, rfl, rfl, rfl, rfl, _, rfl, hslotted, hplaced⟩

theorem keeps_slots {keep : Layout.Cache → Prop} (hkeep : keep e.layouts)
    (hasked : ∀ v ∈ f.values.toList.drop 1, ∀ c, keep c →
      keep ((Layout.layoutOf e.target e.types v.type).run c).2) : keep (e.slots f).2 :=
  (@placeSlots_spec _ (fun _ _ => True) _ _ (fun v hv c hc => ⟨trivial, hasked v hv c hc⟩)
    0 _ hkeep).2.2

theorem checkInsns_eq_ok_iff {pc : Nat} {is : List Insn} :
    e.checkInsns f pc is = .ok () ↔ ∀ i ∈ is, (i.op.isBranch = true → (f.target? i).isSome) ∧
      (i.op = .call → ∃ callee, e.findFunc i.callee = .ok callee) := by
  induction is generalizing pc with
  | nil => exact iff_of_true rfl (List.forall_mem_nil _)
  | cons i rest ih =>
    unfold checkInsns
    rw [List.forall_mem_cons, ← @ih (pc + 1)]
    by_cases hbranch : i.op.isBranch ∧ (f.target? i).isNone
    · rw [if_pos hbranch]
      refine iff_of_false (fun h => by cases h) fun h => ?_
      have htarget := h.1.1 hbranch.1
      rw [Option.isNone_iff_eq_none.mp hbranch.2] at htarget
      cases htarget
    rw [if_neg hbranch]
    have htarget : i.op.isBranch = true → (f.target? i).isSome := by
      intro hop
      by_contra hnone
      exact hbranch ⟨hop, by simpa using hnone⟩
    by_cases hcall : i.op = .call
    · rw [if_pos hcall]
      rcases hcallee : e.findFunc i.callee with err | callee
      · refine iff_of_false (fun h => by cases h) fun h => ?_
        obtain ⟨callee, hfound⟩ := h.1.2 hcall
        cases hfound
      · exact ⟨fun h => ⟨⟨htarget, fun _ => ⟨callee, rfl⟩⟩, h⟩, And.right⟩
    · rw [if_neg hcall]
      exact ⟨fun h => ⟨⟨htarget, fun h => absurd h hcall⟩, h⟩, And.right⟩

theorem checkInsns_leads : e.checkInsns f 0 f.insns.toList = .ok () ↔ e.Leads f := by
  rw [checkInsns_eq_ok_iff]
  simp only [Array.mem_toList_iff, Leads]

end Engine

namespace Func.Ready

variable {strict : Prop} {sc sc' : Scope} {f : Func}

theorem grow (hord : sc.types.Ordered) (hs : sc.Grows sc') (h : f.Ready strict sc) :
    f.Ready strict sc' :=
  ⟨h.placed, hs.target ▸ h.frame.mono fun _ _ _ ha => ha.grow hord hs.types⟩

theorem slot (h : f.Ready strict sc) {v : ValueId} {info : ValueInfo}
    (hv : f.value? v = some info) : info.slot.isSome = info.needsSlot :=
  h.frame.slot_isSome info (mem_values hv)

end Func.Ready

/-! ## Frames that fit -/

namespace Func

/-- The slots of the values lie inside the frame. -/
def FrameFits (f : Func) : Prop :=
  ∀ info ∈ f.values.toList.drop 1, ∀ slot ∈ info.slot,
    0 ≤ slot ∧ 0 ≤ info.rep.size ∧ slot + max info.rep.size 1 ≤ f.frameSize
  deriving Decidable

theorem FrameFits.place?_eq {f : Func} (h : f.FrameFits) {v : ValueId} {info : ValueInfo}
    (hv : f.value? v = some info) : info.place? = info.slot := by
  unfold ValueInfo.place?
  rcases hslot : info.slot with _ | slot
  · rfl
  · have h0 := (h info (mem_values hv) slot hslot).1
    simp [Option.filter, h0]

end Func

theorem wrap64_range (x : Int) : -0x8000000000000000 ≤ wrap64 x ∧ wrap64 x < 0x8000000000000000 := by
  unfold wrap64
  rw [Int.bmod_def]
  split <;> omega

theorem Layout.le_roundUp {n a : Int} (h0 : 0 ≤ n) (hn : n < 0x8000000000000000)
    (ha : a < 0x8000000000000000) (h : 0 ≤ Layout.roundUp n a) : n ≤ Layout.roundUp n a := by
  unfold Layout.roundUp at h ⊢
  split at h
  · exact Int.le_of_eq (if_pos ‹_›).symm
  · rw [if_neg ‹_›]
    dsimp only at h ⊢
    rw [Int.tmod_eq_emod_of_nonneg h0] at h ⊢
    have hr := Int.emod_nonneg n (show a ≠ 0 by omega)
    have hra := Int.emod_lt_of_pos n (show 0 < a by omega)
    split at h
    · exact Int.le_of_eq (if_pos ‹_›).symm
    · rw [if_neg ‹_›]
      generalize n % a = r at *
      unfold wrap64 at h ⊢
      rw [Int.bmod_def] at h ⊢
      split at h <;> split <;> omega

theorem Placed.total_lt {align : TypeId → Int → Prop} {size total : Int} {vs : List ValueInfo}
    (hp : Placed align size vs total) (hsize : size < 0x8000000000000000) :
    total < 0x8000000000000000 := by
  induction hp with
  | nil => exact hsize
  | slot _ _ _ _ ih => exact ih (wrap64_range _).2
  | register _ _ _ ih => exact ih hsize

theorem Placed.apart {align : TypeId → Int → Prop} {size total : Int} {vs : List ValueInfo}
    (hp : Placed align size vs total) (h0 : 0 ≤ size) (hsize : size < 0x8000000000000000)
    (halign : ∀ id a, align id a → a < 0x8000000000000000)
    (hfits : ∀ info ∈ vs, ∀ slot ∈ info.slot,
      0 ≤ slot ∧ 0 ≤ info.rep.size ∧ slot + max info.rep.size 1 ≤ total) :
    (∀ info ∈ vs, ∀ slot ∈ info.slot, size ≤ slot) ∧
    vs.Pairwise fun u v => ∀ s ∈ u.slot, ∀ s' ∈ v.slot, s + max u.rep.size 1 ≤ s' := by
  have htotal := hp.total_lt hsize
  induction hp with
  | nil => exact ⟨List.forall_mem_nil _, .nil⟩
  | @slot size total a v rest hneeds ha hslot hrest ih =>
    obtain ⟨hv, hfits'⟩ := List.forall_mem_cons.mp hfits
    obtain ⟨hstart, hv0, hend⟩ := hv _ (Option.mem_def.mpr hslot)
    have hle := Layout.le_roundUp h0 hsize (halign _ _ ha) hstart
    have hnext : wrap64 (Layout.roundUp size a + max v.rep.size 1) =
        Layout.roundUp size a + max v.rep.size 1 := by
      apply wrap64_of_mem <;> omega
    rw [hnext] at ih
    obtain ⟨hafter, hpairs⟩ := ih (by omega) (by omega) hfits' htotal
    refine ⟨List.forall_mem_cons.mpr ⟨?_, ?_⟩, List.pairwise_cons.mpr ⟨?_, hpairs⟩⟩
    · intro s hs
      rw [hslot] at hs
      exact Option.some.inj hs ▸ hle
    · intro u hu s hs
      have := hafter u hu s hs
      omega
    · intro u hu s hs s' hs'
      rw [hslot] at hs
      have := hafter u hu s' hs'
      have := Option.some.inj hs
      omega
  | @register size total v rest _ hslot _ ih =>
    obtain ⟨hafter, hpairs⟩ := ih h0 hsize (List.forall_mem_cons.mp hfits).2 htotal
    refine ⟨List.forall_mem_cons.mpr ⟨?_, hafter⟩, List.pairwise_cons.mpr ⟨?_, hpairs⟩⟩
    · intro s hs
      rw [hslot] at hs
      cases hs
    · intro u _ s hs
      rw [hslot] at hs
      cases hs

end TypedIR
