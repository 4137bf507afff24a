import TypedIR.Proofs.FieldCells
import TypedIR.Proofs.HostedBuilds

/-
  Code on a value in the frame.

  A function of which one value lives in the frame, at its start, and no other does, goes
  through code that takes its address, stores in it and loads from it
  (`Func.Furthers`). What is at the fields of a struct there, and which numbers the code
  has at hand, is known from step to step (`Machine.Minds`).
-/

namespace TypedIR

namespace Func

/-! ## One value in the frame -/

/-- The value, of so many bytes, needs a place in the frame, and no other does. -/
structure Houses (f : Func) (u : ValueId) (size : Int) : Prop where
  value : ∃ info, f.value? u = some info ∧ info.needsSlot = true ∧ info.rep.size = size
  other : ∀ {v info}, f.value? v = some info → v ≠ u → info.needsSlot = false

/-- The value is at the start of the frame, and no other is in it. -/
structure Boxes (g : Func) (u : ValueId) : Prop where
  value : ∃ info, g.value? u = some info ∧ info.slot = some 0
  other : ∀ {v info}, g.value? v = some info → v ≠ u → info.place? = none

end Func

theorem Ends.of_run_eq {ε σ α : Type} {act act' : ExceptT ε (StateM σ) α} {s s' : σ}
    {ok : α → σ → Prop} {stop : ε → σ → Prop}
    (hrun : (act.run s : Except ε α × σ) = act'.run s') (h : Ends act' s' ok stop) :
    Ends act s ok stop := by
  unfold Ends
  rw [hrun]
  exact h

theorem Layout.roundUp_zero (a : Int) : Layout.roundUp 0 a = 0 := by
  unfold Layout.roundUp
  split
  · rfl
  · simp

theorem Placed.single {align : TypeId → Int → Prop} {size total : Int} {vs : List ValueInfo}
    (h : Placed align size vs total) {k : Nat} {v : ValueInfo} (hk : vs[k]? = some v)
    (hneeds : v.needsSlot = true)
    (hother : ∀ (i : Nat) w, vs[i]? = some w → i ≠ k → w.needsSlot = false) :
    ∃ a, v.slot = some (Layout.roundUp size a) ∧
      total = wrap64 (Layout.roundUp size a + max v.rep.size 1) := by
  induction h generalizing k with
  | nil => cases hk
  | @slot size total a w rest hw _ hslot hrest ih =>
    rcases k with _ | k
    · obtain rfl := Option.some.inj hk
      refine ⟨a, hslot, hrest.total_eq fun x hx => ?_⟩
      obtain ⟨i, hi⟩ := List.mem_iff_getElem?.mp hx
      exact hother (i + 1) x hi (Nat.succ_ne_zero i)
    · rw [hother 0 w rfl (Nat.succ_ne_zero k).symm] at hw
      cases hw
  | @register size total w rest hw _ _ ih =>
    rcases k with _ | k
    · obtain rfl := Option.some.inj hk
      rw [hneeds] at hw
      cases hw
    · exact ih hk fun i x hx hne => hother (i + 1) x hx (by omega)

namespace Func

variable {f f' f'' g : Func} {u v : ValueId} {n k : Nat} {size : Int}

theorem Framed.boxes (h : f.Framed g) (hf : f.Houses u size) (hpos : 0 < size)
    (hlt : size < 0x8000000000000000) : g.Boxes u ∧ g.frameSize = size := by
  obtain ⟨info, hv, hneeds, hsize⟩ := hf.value
  obtain ⟨info', hv', hslotted, -⟩ := h.value hv
  obtain ⟨vs, hvalues, hall, hplaced⟩ := h.values
  obtain ⟨k, rfl⟩ : ∃ k, u = k + 1 := 
    Nat.exists_eq_add_one_of_ne_zero (Nat.ne_of_gt (value?_lt hv).1)
  have hget : ∀ i : Nat, g.value? (i + 1) = vs[i]? := value?_of_list hvalues
  have hrep : info'.rep.size = size := by rw [hslotted, hsize]
  have hother : ∀ (i : Nat) w, vs[i]? = some w → i ≠ k → w.needsSlot = false := by
    intro i w hw hne
    obtain ⟨hi, rfl⟩ := List.getElem?_eq_some_iff.mp hw
    have hi' : i < (f.values.toList.drop 1).length := hall.length_eq ▸ hi
    exact (hall.get hi' hi).needsSlot.trans (hf.other (value?_succ hi') (hne ∘ Nat.succ.inj))
  obtain ⟨a, hslot, htotal⟩ := hplaced.single ((hget k).symm.trans hv')
    (hslotted.needsSlot.trans hneeds) hother
  rw [Layout.roundUp_zero] at hslot htotal
  refine ⟨⟨⟨info', hv', hslot⟩, fun {v w} hw hne => ?_⟩, ?_⟩
  · obtain ⟨i, rfl⟩ : ∃ i, v = i + 1 := 
      Nat.exists_eq_add_one_of_ne_zero (Nat.ne_of_gt (value?_lt hw).1)
    have hold := hother i w ((hget i).symm.trans hw) (hne ∘ congrArg (· + 1))
    have hmem : w ∈ vs := List.mem_of_getElem? ((hget i).symm.trans hw)
    have hsome := hplaced.slot_isSome w hmem
    rw [hold, Option.isSome_eq_false_iff, Option.isNone_iff_eq_none] at hsome
    exact ValueInfo.place?_of_none hsome
  · rw [htotal, hrep, wrap64_of_mem (by omega) (by omega)]
    omega

/-! ## Code in a frame with one value -/

def Takes (f f' : Func) (u : ValueId) (P Q : Frame → Machine → Prop) : Prop :=
  ∀ ⦃e : Engine⦄ ⦃fr : Frame⦄ ⦃rest : List Frame⦄ ⦃m : Machine⦄, f'.Extends fr.func →
    fr.func.Boxes u → m.Inside fr rest f.insns.size → P fr m →
      m.Leads e False (f'.insns.size - f.insns.size) fun m' =>
        m'.Inside fr rest f'.insns.size ∧ Q fr m'

namespace Takes

variable {P Q R : Frame → Machine → Prop}

theorem refl' (h : ∀ fr m, P fr m → Q fr m) : f.Takes f u P Q :=
  fun _ _ _ _ _ _ hm hP => .here ⟨hm, h _ _ hP⟩

theorem trans (h : f.Takes f' u P Q) (h' : f'.Takes f'' u Q R) (old : f.Extends f')
    (old' : f'.Extends f'') : f.Takes f'' u P R := by
  intro e fr rest m hext hbox hm hP
  rw [← old.sub_size old']
  refine (h (old'.trans hext) hbox hm hP).trans fun m' hm' => ?_
  exact h' hext hbox hm'.1 hm'.2

theorem mono (h : f.Takes f' u P Q) (hQ : ∀ fr m, Q fr m → R fr m) : f.Takes f' u P R :=
  fun _ _ _ _ hext hbox hm hP => (h hext hbox hm hP).mono fun _ hm' => ⟨hm'.1, hQ _ _ hm'.2⟩

end Takes

/-- The function has become longer by at most so many instructions that compute or change
memory. -/
structure Furthers (f : Func) (u : ValueId) (n : Nat) (f' : Func) : Prop where
  old : f.Extends f'
  size : f'.insns.size ≤ f.insns.size + n
  destroyed : f'.destroyed = f.destroyed
  compiled : f'.compiled = f.compiled
  straight : f.Straight → f'.Straight
  houses : ∀ {size}, f.Houses u size → f'.Houses u size

namespace Furthers

theorem refl' (f : Func) (u : ValueId) : f.Furthers u 0 f :=
  ⟨.refl f, Nat.le_refl _, rfl, rfl, fun h => h, fun h => h⟩

theorem trans (h : f.Furthers u n f') (h' : f'.Furthers u k f'') : f.Furthers u (n + k) f'' where
  old := h.old.trans h'.old
  size := Nat.add_assoc .. ▸ Nat.le_trans h'.size (Nat.add_le_add_right h.size k)
  destroyed := h'.destroyed.trans h.destroyed
  compiled := h'.compiled.trans h.compiled
  straight := h'.straight ∘ h.straight
  houses := h'.houses ∘ h.houses

theorem isOpen {c : Setting} (h : f.Furthers u n f') (hopen : f.Open c) : f'.Open c :=
  ⟨h.compiled.trans hopen.1, h.old.header.ctx.trans hopen.2⟩

end Furthers

theorem Houses.of_lengthens (h : f.Houses u size) (hf : f.Lengthens n f') : f'.Houses u size := by
  obtain ⟨info, hv, hneeds, hsize⟩ := h.value
  have hsame : f'.value? u = some info := by
    obtain ⟨info', hv', -⟩ := hf.old.value hv
    rcases hf.values hv' with hold | ⟨hnew, -⟩
    · rwa [hv.symm.trans hold]
    · rw [hv] at hnew
      cases hnew
  refine ⟨⟨info, hsame, hneeds, hsize⟩, fun {v other} hother hne => ?_⟩
  rcases hf.values hother with hold | ⟨-, hfresh⟩
  · exact h.other hold hne
  · exact hfresh

theorem Houses.mark (h : f.Houses u size) : (f.mark u).Houses u size := by
  obtain ⟨info, hv, -, hsize⟩ := h.value
  refine ⟨⟨{ info with addressable := true }, ?_, rfl, hsize⟩, fun {v other} hother hne => ?_⟩
  · rw [value?_mark, if_pos rfl, hv]
    rfl
  · rw [value?_mark, if_neg hne] at hother
    exact h.other hother hne

def declared (f : Func) (type : TypeId) (r : Rep) : Func :=
  (f.addValue { type, rep := r, origin := .local }).2

def addressed (f : Func) (u : ValueId) (type : TypeId) (r : Rep) : Func :=
  ((f.mark u).addValue { type, rep := r, origin := .temp }).2.push
    { op := .addressOf, dest := f.values.size, a := u }

theorem size_mark : (f.mark u).values.size = f.values.size := by
  simp [mark]

theorem Furthers.of_lengthens (h : f.Lengthens n f') (u : ValueId) : f.Furthers u n f' :=
  ⟨h.old, h.size, h.destroyed, h.compiled, h.straight, fun hf => hf.of_lengthens h⟩

theorem Furthers.push {i : Insn} (hi : i.op.isPlain = true) : f.Furthers u 1 (f.push i) where
  old := extends_push i
  size := by simp [Func.push]
  destroyed := rfl
  compiled := rfl
  straight h := h.push hi
  houses h := ⟨h.value, h.other⟩

theorem Furthers.addressed (hf : 0 < f.values.size) (type : TypeId) {r : Rep} (hr : r.IsWhole) :
    f.Furthers u 1 (f.addressed u type r) := by
  have hmark : 0 < (f.mark u).values.size := by rwa [size_mark]
  have hcode : (f.mark u).Lengthens 1 (f.addressed u type r) :=
    .computed hmark rfl (hr.needsSlot rfl rfl)
  exact ⟨(extends_mark u).trans hcode.old, hcode.size, hcode.destroyed, hcode.compiled,
    hcode.straight, fun h => h.mark.of_lengthens hcode⟩

/-! ## What the code knows -/

/-- What is known of a machine stays known if the values of the function stay and the host
does. -/
def Stable (f : Func) (S : Frame → Machine → Prop) : Prop :=
  ∀ ⦃fr : Frame⦄ ⦃m m' : Machine⦄, S fr m →
    (∀ v w, (f.value? v).isSome → m.Reads v w → m'.Reads v w) → m'.host = m.host → S fr m'

theorem Stable.later {S : Frame → Machine → Prop} (h : f.Stable S) (hext : f.Extends f') :
    f'.Stable S :=
  fun _ _ _ hS hkept hhost => h hS (fun v w hv => hkept v w (hext.isSome_value? hv)) hhost

theorem Stable.reads {S : Frame → Machine → Prop} (h : f.Stable S) (hv : (f.value? v).isSome)
    (w : Frame → Word) : f.Stable fun fr m => S fr m ∧ m.Reads v (w fr) :=
  fun _ _ _ hS hkept hhost => ⟨h hS.1 hkept hhost, hkept v _ hv hS.2⟩

def Has (f : Func) (u : ValueId) (nums : ValueId → Option Int) : Prop :=
  ∀ v n, nums v = some n → v ≠ u ∧ ∃ r, f.rep? v = some r ∧ r.IsWhole ∧ r.Holds n

theorem Has.later {nums : ValueId → Option Int} (h : f.Has u nums) (hext : f.Extends f') :
    f'.Has u nums := by
  intro v n hn
  obtain ⟨hne, r, hr, hwhole⟩ := h v n hn
  exact ⟨hne, r, hext.rep? hr, hwhole⟩

end Func

/-- The fields of a struct at the start of the frame, and the numbers at hand. -/
structure Machine.Minds (ptrSize : Int) (size : Nat) (cells : List FieldCell)
    (nums : ValueId → Option Int) (vals : Nat → Int) (fr : Frame) (m : Machine) : Prop where
  record : m.host.memory.Record fr.base size cells vals
  serves : m.host.memory.Serves ptrSize
  reads : ∀ v n, nums v = some n → m.Reads v (Word.ofInt n)

namespace Func

open Machine (Minds)

variable {f f' f'' g : Func} {u v a y : ValueId} {n : Int} {k i size : Nat} {ptrSize off : Int}
  {cells : List FieldCell} {nums : ValueId → Option Int} {vals : Nat → Int} {x : FieldCell}
  {S : Frame → Machine → Prop} {c : Setting} {type : TypeId} {r : Rep}
  {p : Machine → Word → Prop}

theorem Has.stable (h : f.Has u nums) : f.Stable (Minds ptrSize size cells nums vals) := by
  intro fr m m' hm hkept hhost
  refine ⟨hhost ▸ hm.record, hhost ▸ hm.serves, fun v n hn => ?_⟩
  obtain ⟨-, r, hr, -⟩ := h v n hn
  exact hkept v _ (isSome_of_rep? hr) (hm.reads v n hn)

theorem Obtains.takes (h : f.Obtains c k f' y type r p) (hS : f.Stable S)
    (hu : (f.value? u).isSome) {w : Frame → Word} (hp : ∀ fr m, S fr m → p m (w fr)) :
    f.Takes f' u S fun fr m => S fr m ∧ m.Reads y (w fr) := by
  intro e fr rest m hext hbox hm hs
  have hreg : ¬ f.Spills f' fr.func := by
    rintro ⟨v, hgains, info, slot, hv, hplace⟩
    have hne : v ≠ u := by
      rintro rfl
      rw [hgains.1] at hu
      cases hu
    rw [hbox.other hv hne] at hplace
    cases hplace
  have hcode := h.brings (e := e) hext hm (fun hsp => absurd hsp hreg) (hp fr m hs)
  refine (hcode.weaken hreg).mono fun m' hm' => ?_
  obtain ⟨hin, hread, hkept, -, hhost⟩ := hm'
  refine ⟨hin, hS hs (fun v w hv => ?_) (hhost hreg), hread⟩
  exact keeps_old hkept (h.lengthens.old.trans hext) hv

theorem Takes.computed (hf : 0 < f.values.size) (hu : (f.value? u).isSome) (hS : f.Stable S)
    {info : ValueInfo} {i : Insn} (hdest : i.dest = f.values.size) (hplain : i.op.isPlain = true)
    {w : Frame → Word} (hexec : ∀ {e : Engine} {fr : Frame} {rest : List Frame} {m : Machine}
      {regs : Array Word} {pc : Nat}, f.Extends fr.func → fr.func.Boxes u →
      m.frames = { fr with pc, regs } :: rest → S fr m →
        ((StepM.execute e fr.func fr.depth i).run m : Except (Halt Failure) Unit × Machine) =
          (StepM.write i.dest (w fr)).run m) :
    f.Takes ((f.addValue info).2.push i) u S fun fr m => S fr m ∧ m.Reads f.values.size (w fr) := by
  intro e fr rest m hext hbox hm hs
  obtain ⟨hi, hg, d, hd, -⟩ := at_computed hf hext
  have hne : f.values.size ≠ u := by
    rintro rfl
    rw [value?_next] at hu
    cases hu
  have hreg := hbox.other hd hne
  rw [size_computed, Nat.add_sub_cancel_left]
  refine hm.leads hi hplain fun regs hframes => ?_
  have hcounted : m.Keeps fr.func (fun _ => False) _ := Machine.keeps_counted hframes
  have hs' : S fr (m.counted { fr with pc := f.insns.size + 1, regs } rest) :=
    hS hs (fun v w hv hread => hcounted (hg.isSome_value? hv) not_false hread) rfl
  have hin : (m.counted { fr with pc := f.insns.size + 1, regs } rest).Inside fr rest
      (f.insns.size + 1) := by
    obtain ⟨regs', hframes', hsize⟩ := hm
    rw [hframes'] at hframes
    cases hframes
    exact ⟨regs, rfl, hsize⟩
  rw [hdest] at hexec
  refine .of_run_eq (hexec hg hbox rfl hs') ?_
  refine (hin.ends_write hd hreg (w fr)).mono ?_ fun _ _ => False.elim
  rintro _ m' ⟨hin', hread, hkept, hhost⟩
  refine ⟨hin', hS hs' (fun v w hv => hkept (hg.isSome_value? hv) ?_) hhost, hread⟩
  rintro rfl
  rw [value?_next] at hv
  cases hv

theorem Takes.addressed (hf : 0 < f.values.size) (hu : (f.value? u).isSome) (hS : f.Stable S) :
    f.Takes (f.addressed u type r) u S fun fr m => S fr m ∧ m.Reads f.values.size fr.base := by
  have hmark : 0 < (f.mark u).values.size := by rwa [size_mark]
  have hcode : (f.mark u).Takes (f.addressed u type r) u S
      fun fr m => S fr m ∧ m.Reads (f.mark u).values.size fr.base := by
    refine Takes.computed hmark ((extends_mark u).isSome_value? hu) (hS.later (extends_mark u))
      size_mark.symm rfl ?_
    intro e fr rest m regs pc hg hbox hframes _
    obtain ⟨info, hv, hslot⟩ := hbox.value
    unfold StepM.execute
    dsimp only
    rw [(value?_lt hv).2.1]
    dsimp only
    rw [run_bind, StepM.run_frame hframes, hslot]
    dsimp only
    rw [Option.getD_some]
    have haddress : StepM.slotAddress { fr with pc, regs } 0 = fr.base := by
      simp [StepM.slotAddress, Word.ofInt]
    rw [haddress]
  rw [size_mark] at hcode
  exact hcode

theorem Takes.stored (hnums : f.Has u nums) (ha : (f.value? a).isSome) (hy : (f.value? y).isSome)
    (hfit : FieldCell.Fit size cells) (hx : cells[i]? = some x) (hn : x.rep.Holds n) :
    f.Takes (f.push { op := .storeRel, a, b := y, offset := x.offset, type, rep := x.rep }) u
      (fun fr m => (Minds ptrSize size cells nums vals fr m ∧ m.Reads y (Word.ofInt n)) ∧
        m.Reads a fr.base)
      (Minds ptrSize size cells nums (Function.update vals i n)) := by
  intro e fr rest m hext hbox hm ⟨⟨hminds, hready⟩, hreada⟩
  obtain ⟨hwhole, hvalid⟩ := hfit.rep x (List.mem_of_getElem? hx)
  obtain ⟨mem', hstores, hrecord, hbits⟩ := hminds.record.stored hfit hx hn
  have hi : fr.func.insns[f.insns.size]? =
      some { op := .storeRel, a, b := y, offset := x.offset, type, rep := x.rep } := by
    refine hext.insn ?_
    simp [Func.push]
  have hg : f.Extends fr.func := (extends_push _).trans hext
  have hsize : ∀ i : Insn, (f.push i).insns.size = f.insns.size + 1 := by simp [Func.push]
  rw [hsize, Nat.add_sub_cancel_left]
  refine hm.leads hi rfl fun regs hframes => ?_
  have hkept : m.Keeps fr.func (fun _ => False) _ := Machine.keeps_counted hframes
  unfold Ends
  rw [StepM.run_execute_storeRel (hkept (hg.isSome_value? ha) not_false hreada)
    (hkept (hg.isSome_value? hy) not_false hready), StepM.run_store hvalid hwhole.isScalar]
  have hcounted : (m.counted { fr with pc := f.insns.size + 1, regs } rest).host.memory =
      m.host.memory := rfl
  rw [hcounted, hstores]
  refine ⟨?_, hrecord, hbits.trans hminds.serves, fun v k hk => ?_⟩
  · obtain ⟨regs', hframes', hsize⟩ := hm
    rw [hframes'] at hframes
    cases hframes
    exact ⟨regs, rfl, hsize⟩
  · obtain ⟨hne, r, hr, -⟩ := hnums v k hk
    obtain ⟨info, hv, -⟩ := value?_of_rep? (hg.rep? hr)
    have hplace := hbox.other hv hne
    have hread := (Machine.reads_register hframes hv hplace).mp (hminds.reads v k hk)
    have hafter : ((m.counted { fr with pc := f.insns.size + 1, regs } rest).withMemory
        mem').frames = { fr with pc := f.insns.size + 1, regs } :: rest := rfl
    exact (Machine.reads_register hafter hv hplace).mpr hread

theorem Takes.loaded (hf : 0 < f.values.size) (hu : (f.value? u).isSome) (hnums : f.Has u nums)
    (ha : (f.value? a).isSome) (hfit : FieldCell.Fit size cells) (hx : cells[i]? = some x) :
    f.Takes ((f.addValue { type, rep := x.rep, origin := .temp }).2.push
      { op := .loadRel, dest := f.values.size, a, offset := x.offset, type, rep := x.rep }) u
      (fun fr m => Minds ptrSize size cells nums vals fr m ∧ m.Reads a fr.base)
      (fun fr m => (Minds ptrSize size cells nums vals fr m ∧ m.Reads a fr.base) ∧
        m.Reads f.values.size (Word.ofInt (vals i))) := by
  refine Takes.computed hf hu (hnums.stable.reads ha _) rfl rfl (w := fun _ => Word.ofInt (vals i)) ?_
  rintro e fr rest m regs pc hg hbox hframes ⟨hminds, hread⟩
  obtain ⟨hwhole, hvalid⟩ := hfit.rep x (List.mem_of_getElem? hx)
  rw [StepM.run_execute_loadRel hread, run_bind,
    StepM.run_load hminds.serves hvalid hwhole.isScalar, hminds.record.loads hfit hx]

end Func

/-! ## Emitting -/

def Setting.pointing (c : Setting) {type : TypeId} (h : type < c.types.types.size) : Setting :=
  { c with
    types := (c.types.intern (.pointer type)).2
    ordered := (c.ordered.makes_pointer h).ordered }

theorem Setting.grows_pointing (c : Setting) {type : TypeId} (h : type < c.types.types.size) :
    c.Grows (c.pointing h) :=
  ⟨rfl, rfl, (c.ordered.makes_pointer h).grows, TypeTable.structs_intern _ _⟩

namespace Bench.Hosts

variable {b : Bench} {c : Setting} {f : Func} {u a y : ValueId} {type : TypeId} {r : Rep}

theorem createLocal (h : b.Hosts c f) (hr : c.types.HasRep c.target type r) (hvoid : r.cls ≠ .void) :
    Ends (Emit.createLocal type) b (fun v b' => v = f.values.size ∧
      b'.Hosts c (f.declared type r)) fun _ _ => False := by
  unfold Emit.createLocal
  refine .bind' (h.repOf hr) ?_
  rintro _ b₁ ⟨rfl, h₁⟩
  exact .ite' (fun hno => absurd hno hvoid) fun _ => h₁.addValue _

theorem addressOf (h : b.Hosts c f) {info : ValueInfo} (hv : f.value? u = some info)
    (hlocal : info.origin ≠ .const) (htype : info.type = type) (hknown : type < c.types.types.size) :
    Ends (Emit.addressOf u) b (fun d b' => d = f.values.size ∧ b'.Hosts (c.pointing hknown)
      (f.addressed u (c.types.intern (.pointer type)).1 c.target.pointerRep))
      fun _ _ => False := by
  subst htype
  have hmade := c.ordered.makes_pointer hknown
  unfold Emit.addressOf
  refine .bind' (h.value hv) ?_
  rintro _ _ ⟨rfl, rfl⟩
  refine .ite' (fun hno => absurd hno hlocal) fun _ => .bind_modify (.bind_get (.bind_set ?_))
  have hmarked : Bench.Hosts { b with
      func := b.func.mark u, types := (b.types.intern (.pointer info.type)).2 }
      (c.pointing hknown) (f.mark u) :=
    ⟨h.target, congrArg (fun t => (TypeTable.intern t (.pointer info.type)).2) h.types,
      h.layouts.grow c.ordered hmade.grows, congrArg (Func.mark · u) h.func⟩
  have hcode := hmarked.computed (.address hmade.found (.inl rfl))
    fun dest => { op := .addressOf, dest, a := u }
  rw [h.types]
  rw [h.types] at hcode
  refine hcode.imp ?_
  rintro d b' ⟨rfl, h'⟩
  rw [Func.size_mark] at h' ⊢
  exact ⟨rfl, h'⟩

theorem pointerOperand (h : b.Hosts c f) (ha : f.rep? a = some c.target.pointerRep) :
    Ends (Emit.pointerOperand a) b (fun _ b' => b = b') fun _ _ => False := by
  obtain ⟨info, hinfo, hrep⟩ := Func.value?_of_rep? ha
  unfold Emit.pointerOperand
  refine .bind' (h.value hinfo) ?_
  rintro _ _ ⟨rfl, rfl⟩
  refine .ite' (fun hno => absurd ?_ hno) fun _ => .pure' rfl
  rw [hrep]
  rfl

theorem storeRel (h : b.Hosts c f) (ha : f.rep? a = some c.target.pointerRep)
    (hy : f.Carries c y type r) (off : Int) :
    Ends (Emit.storeRel a off y) b (fun _ b' =>
      b'.Hosts c (f.push { op := .storeRel, a, b := y, offset := off, type, rep := r }))
      fun _ _ => False := by
  obtain ⟨info, hinfo, rfl, rfl⟩ := hy.value
  unfold Emit.storeRel
  refine .bind' (h.pointerOperand ha) ?_
  rintro _ _ rfl
  refine .bind' (h.value hinfo) ?_
  rintro _ _ ⟨rfl, rfl⟩
  exact h.push _

theorem loadRel (h : b.Hosts c f) (ha : f.rep? a = some c.target.pointerRep)
    (hr : c.types.HasRep c.target type r) (hs : r.isScalar = true) (off : Int) :
    Ends (Emit.loadRel a off type) b (fun d b' => d = f.values.size ∧
      b'.Hosts c ((f.addValue { type, rep := r, origin := .temp }).2.push
        { op := .loadRel, dest := f.values.size, a, offset := off, type, rep := r }))
      fun _ _ => False := by
  unfold Emit.loadRel
  refine .bind' (h.pointerOperand ha) ?_
  rintro _ _ rfl
  refine .bind' (h.repOf hr) ?_
  rintro _ b₁ ⟨rfl, h₁⟩
  refine .ite' (fun hno => absurd hno (Rep.ne_void hs)) fun _ => ?_
  refine (h₁.computed hr fun dest =>
    { op := .loadRel, dest, a, offset := off, type, rep := r }).imp ?_
  rintro d b' ⟨rfl, h'⟩
  exact ⟨rfl, h'⟩

end Bench.Hosts

end TypedIR
