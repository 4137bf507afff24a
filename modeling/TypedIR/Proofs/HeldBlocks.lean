import TypedIR.Proofs.HeapRefinement
import TypedIR.Proofs.Soundness

/-
  Live blocks, blocks that someone has written down, and what one instruction can change.

  Reading, writing and copying leave the same blocks live (`Memory.Rewritten`). What
  has been reserved since some earlier time is kept track of by a list of addresses:
  every block that is live now was live then or is on the list (`Memory.Tallies`).
  Reserving a block puts an address on the list and freeing takes one off; once the
  list is empty, the blocks that were live are live again, and no others
  (`Memory.Tallies.sameLive`).

  An instruction that does not call, reserve memory or leave the code sets registers
  of the running frame and bytes of blocks, and nothing else (`Machine.Alters`).
-/

namespace TypedIR

namespace Memory

/-- The size of a live block, by its place in memory; `none` if it is not there, or
freed. -/
def size? (m : Memory) (i : Nat) : Option Nat := (m.blocks[i]?).join.map Block.size

/-- The same blocks are live, with the same sizes, and as many are counted. -/
structure SameLive (m m' : Memory) : Prop where
  bits : m'.offsetBits = m.offsetBits
  size? : ∀ i, m'.size? i = m.size? i
  live : m'.live = m.live

/-- No block was added, and the same blocks are live: bytes of blocks may differ. -/
structure Rewritten (m m' : Memory) : Prop extends SameLive m m' where
  count : m'.blocks.size = m.blocks.size

theorem SameLive.refl (m : Memory) : m.SameLive m := ⟨rfl, fun _ => rfl, rfl⟩

theorem SameLive.trans {a b c : Memory} (h : a.SameLive b) (h' : b.SameLive c) : a.SameLive c :=
  ⟨h'.bits.trans h.bits, fun i => (h'.size? i).trans (h.size? i), h'.live.trans h.live⟩

instance : Std.Refl Rewritten := ⟨fun m => ⟨.refl m, rfl⟩⟩

instance : Trans Rewritten Rewritten Rewritten :=
  ⟨fun h h' => ⟨h.toSameLive.trans h'.toSameLive, h'.count.trans h.count⟩⟩

theorem isSome_size? (m : Memory) (i : Nat) :
    (m.size? i).isSome = ((m.blocks.toList[i]?).join).isSome := by
  unfold size?
  rw [Option.isSome_map, Array.getElem?_toList]

theorem countP_isSome_congr {α : Type} : ∀ {xs ys : List (Option α)},
    (∀ i : Nat, ((xs[i]?).join).isSome = ((ys[i]?).join).isSome) →
      xs.countP (·.isSome) = ys.countP (·.isSome)
  | [], [], _ => rfl
  | [], y :: ys, h => by
    rw [List.countP_cons, ← @countP_isSome_congr α [] ys fun i => h (i + 1)]
    simpa using h 0
  | x :: xs, [], h => by
    rw [List.countP_cons, @countP_isSome_congr α xs [] fun i => h (i + 1)]
    simpa using h 0
  | x :: xs, y :: ys, h => by
    have hhead : x.isSome = y.isSome := h 0
    rw [List.countP_cons, List.countP_cons, countP_isSome_congr fun i => h (i + 1), hhead]

theorem held_congr {m m' : Memory} (h : ∀ i, m'.size? i = m.size? i) : m'.held = m.held := by
  unfold held
  rw [← Array.countP_toList, ← Array.countP_toList]
  exact countP_isSome_congr fun i => by rw [← isSome_size?, ← isSome_size?, h]

/-! ## Requests -/

variable {m : Memory}

theorem size?_of_resolve {addr : Word} {b : Block} (h : m.resolve addr = .ok b) :
    m.size? (m.handleOf addr - 1) = some b.size := by
  obtain ⟨i, hi, hb⟩ := Shows.of_resolve h
  unfold Memory.size?
  rw [hi, Nat.add_sub_cancel, hb]
  rfl

theorem size?_putBlock (addr : Word) (x : Option Block) (i : Nat) :
    (m.putBlock addr x).size? i =
      if m.handleOf addr - 1 = i ∧ i < m.blocks.size then x.map Block.size else m.size? i := by
  unfold Memory.size? putBlock
  dsimp only
  rw [Array.getElem?_setIfInBounds]
  by_cases h : m.handleOf addr - 1 = i
  · subst h
    by_cases hlt : m.handleOf addr - 1 < m.blocks.size
    · simp [hlt]
    · simp [hlt]
  · simp [h]

theorem rewritten_putBlock {addr : Word} {b b' : Block} (h : m.resolve addr = .ok b)
    (hsize : b'.size = b.size) : m.Rewritten (m.putBlock addr (some b')) := by
  refine ⟨⟨rfl, fun i => ?_, rfl⟩, by simp [putBlock]⟩
  rw [size?_putBlock]
  split
  · next hi => rw [← hi.1, size?_of_resolve h, Option.map_some, hsize]
  · rfl

theorem rewrites_read (addr : Word) (n : Int) : Leaves Rewritten (read addr n) := fun m => by
  rw [snd_run_read]
  exact Std.Refl.refl m

theorem rewrites_write (addr : Word) (data : List UInt8) : Leaves Rewritten (write addr data) := by
  intro m
  rw [run_write]
  cases hr : m.resolve addr with
  | error f => exact Std.Refl.refl m
  | ok b =>
    dsimp only
    split
    · exact Std.Refl.refl m
    · exact rewritten_putBlock hr rfl

theorem rewrites_copy (dst src : Word) (n : Int) : Leaves Rewritten (copy dst src n) :=
  .ite' (.pure' _) (.bind' (rewrites_read _ _) fun _ => rewrites_write _ _)

/-! ## Blocks that someone has written down -/

theorem toNat_address {h : Nat} (hh : h ≤ m.lastHandle) :
    (m.address h).toNat = h * twoTo m.offsetBits := by
  have hlt : h * twoTo m.offsetBits < 2 ^ 64 := by
    unfold lastHandle at hh
    split at hh
    · next hbits =>
      have : twoTo 32 = 4294967296 := rfl
      rw [hbits, this]
      omega
    · rcases Nat.le_total m.offsetBits 32 with hle | hge
      · have hpos : 0 < twoTo (32 - m.offsetBits) := Nat.two_pow_pos _
        have hmul : (h + 1) * twoTo m.offsetBits ≤ twoTo (32 - m.offsetBits) * twoTo m.offsetBits :=
          Nat.mul_le_mul_right _ (by omega)
        have hall : twoTo (32 - m.offsetBits) * twoTo m.offsetBits = 2 ^ 32 := by
          show 2 ^ (32 - m.offsetBits) * 2 ^ m.offsetBits = 2 ^ 32
          rw [← Nat.pow_add, Nat.sub_add_cancel hle]
        have hpos' : 0 < twoTo m.offsetBits := Nat.two_pow_pos _
        rw [hall, Nat.succ_mul] at hmul
        omega
      · rw [Nat.sub_eq_zero_of_le hge] at hh
        obtain rfl : h = 0 := Nat.le_zero.mp hh
        simp
  unfold address
  rw [UInt64.toNat_ofNat', Nat.mod_eq_of_lt hlt]

theorem split_address {h : Nat} (hh : h ≤ m.lastHandle) :
    m.handleOf (m.address h) = h ∧ m.offsetOf (m.address h) = 0 := by
  have hpos : 0 < twoTo m.offsetBits := Nat.two_pow_pos _
  unfold handleOf offsetOf
  rw [toNat_address hh]
  exact ⟨Nat.mul_div_cancel _ hpos, Nat.mul_mod_left ..⟩

theorem address_inj {i j : Nat} (hi : i ≤ m.lastHandle) (hj : j ≤ m.lastHandle)
    (h : m.address i = m.address j) : i = j := by
  rw [← (split_address hi).1, h, (split_address hj).1]

theorem lastHandle_congr {m' : Memory} (h : m'.offsetBits = m.offsetBits) :
    m'.lastHandle = m.lastHandle := by
  unfold lastHandle
  rw [h]

theorem address_congr {m' : Memory} (h : m'.offsetBits = m.offsetBits) (i : Nat) :
    m'.address i = m.address i := by
  unfold address
  rw [h]

theorem size?_beyond {i : Nat} (h : m.blocks.size ≤ i) : m.size? i = none := by
  unfold Memory.size?
  rw [Array.getElem?_eq_none h]
  rfl

/-- The list tallies with what was reserved since the memory was `start`: the blocks live
in `m` are those live in `start` and, of the blocks added since,
some whose addresses are written down. What is written down are addresses of added
blocks, live or not, and address 0. The count went along with the live blocks. -/
structure Tallies (start : Memory) (written : List Word) (m : Memory) : Prop where
  bits : m.offsetBits = start.offsetBits
  counted : m.live + start.held = start.live + m.held
  count : start.blocks.size ≤ m.blocks.size
  old : ∀ i < start.blocks.size, m.size? i = start.size? i
  held : ∀ i, start.blocks.size ≤ i → (m.size? i).isSome →
    i + 1 ≤ start.lastHandle ∧ start.address (i + 1) ∈ written
  added : ∀ a ∈ written, a ≠ 0 →
    ∃ i, start.blocks.size ≤ i ∧ i + 1 ≤ start.lastHandle ∧ a = start.address (i + 1)

namespace Tallies

variable {start : Memory} {written written' : List Word}

theorem refl (start : Memory) : start.Tallies [] start := by
  refine ⟨rfl, rfl, Nat.le_refl _, fun _ _ => rfl, fun i hi hs => ?_, nofun⟩
  rw [size?_beyond hi] at hs
  cases hs

theorem congr (h : start.Tallies written m) (hw : ∀ a, a ∈ written' ↔ a ∈ written) :
    start.Tallies written' m :=
  ⟨h.bits, h.counted, h.count, h.old, fun i hi hs => (h.held i hi hs).imp_right (hw _).mpr,
    fun a ha => h.added a ((hw a).mp ha)⟩

theorem rewritten (h : start.Tallies written m) {m' : Memory} (hr : m.Rewritten m') :
    start.Tallies written m' :=
  ⟨hr.bits.trans h.bits, by rw [hr.live, held_congr hr.size?, h.counted], hr.count ▸ h.count,
    fun i hi => (hr.size? i).trans (h.old i hi), fun i hi hs => h.held i hi (hr.size? i ▸ hs),
    h.added⟩

theorem sameLive (h : start.Tallies [] m) : start.SameLive m := by
  have hsize : ∀ i, m.size? i = start.size? i := fun i => by
    rcases Nat.lt_or_ge i start.blocks.size with hi | hi
    · exact h.old i hi
    · rw [size?_beyond hi]
      cases hs : m.size? i with
      | none => rfl
      | some n => exact absurd (h.held i hi (by simp [hs])).2 List.not_mem_nil
  refine ⟨h.bits, hsize, ?_⟩
  have hcounted := h.counted
  rw [held_congr hsize] at hcounted
  exact add_right_cancel hcounted

theorem zero_cons (h : start.Tallies written m) : start.Tallies (0 :: written) m :=
  ⟨h.bits, h.counted, h.count, h.old,
    fun i hi hs => (h.held i hi hs).imp_right (List.mem_cons_of_mem _),
    fun a ha h0 => h.added a ((List.mem_cons.mp ha).resolve_left h0) h0⟩

/-- A block is reserved and its address written down: the address leads to the
whole of a block of that size. -/
theorem ends_alloc (h : start.Tallies written m) (size : Int) :
    Ends (alloc size) m
      (fun p m' => start.Tallies (p :: written) m' ∧ m'.offsetOf p = 0 ∧
        m'.resolve p = .ok { size := size.toNat })
      (fun _ m' => start.Tallies written m') := by
  unfold Ends
  rw [run_alloc]
  by_cases hrange : size < 0 ∨ (twoTo m.offsetBits : Int) ≤ size
  · rw [if_pos hrange]
    exact h
  rw [if_neg hrange]
  by_cases hroom : m.lastHandle < m.blocks.size + 1
  · rw [if_pos hroom]
    exact h
  rw [if_neg hroom]
  have hsplit := split_address (m := m.add { size := size.toNat }) (Nat.le_of_not_lt hroom)
  have hblock : (m.add { size := size.toNat }).resolve (m.address (m.blocks.size + 1)) =
      .ok { size := size.toNat } :=
    (Shows.resolve_eq hsplit.1).trans (by simp [Memory.add])
  refine ⟨?_, hsplit.2, hblock⟩
  rw [address_congr h.bits]
  have hlast : m.blocks.size + 1 ≤ start.lastHandle :=
    lastHandle_congr h.bits ▸ Nat.le_of_not_lt hroom
  have hsize : ∀ i, i ≠ m.blocks.size →
      (m.add { size := size.toNat }).size? i = m.size? i := by
    intro i hi
    unfold Memory.size? Memory.add
    rw [Array.getElem?_push, if_neg hi]
  refine ⟨h.bits, ?_, ?_, fun i hi => ?_, fun i hi hs => ?_, fun a ha h0 => ?_⟩
  · have hcounted := h.counted
    show m.live + 1 + start.held = _
    rw [held_add]
    omega
  · show start.blocks.size ≤ (m.blocks.push _).size
    rw [Array.size_push]
    exact Nat.le_succ_of_le h.count
  · rw [hsize i (Nat.ne_of_lt (Nat.lt_of_lt_of_le hi h.count))]
    exact h.old i hi
  · by_cases heq : i = m.blocks.size
    · rw [heq]
      exact ⟨hlast, List.mem_cons_self⟩
    · rw [hsize i heq] at hs
      exact (h.held i hi hs).imp_right (List.mem_cons_of_mem _)
  · rcases List.mem_cons.mp ha with rfl | ha
    · exact ⟨m.blocks.size, h.count, hlast, rfl⟩
    · exact h.added a ha h0

theorem forget {a : Word} (h : start.Tallies (a :: written) m)
    (hdead : ∀ i, start.blocks.size ≤ i → i + 1 ≤ start.lastHandle → a = start.address (i + 1) →
      m.size? i = none) : start.Tallies written m := by
  refine ⟨h.bits, h.counted, h.count, h.old, fun i hi hs => ?_, fun b hb =>
    h.added b (List.mem_cons_of_mem _ hb)⟩
  obtain ⟨hlast, hmem⟩ := h.held i hi hs
  refine ⟨hlast, (List.mem_cons.mp hmem).resolve_left fun heq => ?_⟩
  rw [hdead i hi hlast heq.symm] at hs
  cases hs

theorem freed {a : Word} (h : start.Tallies (a :: written) m) :
    start.Tallies written ((free a).run m : Except (Halt Fault) Unit × Memory).2 := by
  rw [run_free]
  by_cases h0 : a = 0
  · rw [if_pos h0]
    refine h.forget fun i _ hlast ha => ?_
    have hsplit := (split_address hlast).1
    rw [← ha, h0] at hsplit
    simp [handleOf] at hsplit
  obtain ⟨i, hi, hlast, rfl⟩ := h.added a List.mem_cons_self h0
  have hat : m.handleOf (start.address (i + 1)) = i + 1 ∧ m.offsetOf (start.address (i + 1)) = 0 := by
    rw [← address_congr h.bits]
    exact split_address (lastHandle_congr h.bits ▸ hlast)
  have hsame : ∀ j, j + 1 ≤ start.lastHandle → start.address (i + 1) = start.address (j + 1) →
      j = i := fun j hj heq => by
    have := address_inj hlast hj heq
    omega
  rw [if_neg h0]
  cases hr : m.resolve (start.address (i + 1)) with
  | error f =>
    refine h.forget fun j _ hj heq => ?_
    rw [hsame j hj heq]
    rw [Shows.resolve_eq hat.1] at hr
    unfold Memory.size?
    cases hb : m.blocks[i]? with
    | none => rfl
    | some block =>
      cases block with
      | none => rfl
      | some b =>
        rw [hb] at hr
        cases hr
  | ok b =>
    dsimp only
    rw [if_neg (not_not_intro hat.2)]
    have hput : ∀ j, (m.release (start.address (i + 1))).size? j =
        if i = j ∧ j < m.blocks.size then none else m.size? j := by
      intro j
      have hsize := m.size?_putBlock (start.address (i + 1)) none j
      rw [hat.1] at hsize
      exact hsize
    have hkept : start.Tallies (start.address (i + 1) :: written)
        (m.release (start.address (i + 1))) := by
      refine ⟨h.bits, ?_, by simpa [release, putBlock] using h.count, fun j hj => ?_,
        fun j hj hs => ?_, h.added⟩
      · have hcounted := h.counted
        obtain ⟨k, hk, hb⟩ := Shows.of_resolve hr
        have hheld := m.held_putBlock (by rw [hk]; exact hb) none
        show m.live - 1 + start.held = start.live + ((m.putBlock _ none).held : Int)
        rw [Option.isSome_none, if_neg Bool.false_ne_true] at hheld
        omega
      · rw [hput, if_neg fun hij => by omega]
        exact h.old j hj
      · rw [hput] at hs
        split at hs
        · cases hs
        · exact h.held j hj hs
    refine hkept.forget fun j _ hj heq => ?_
    rw [hput, hsame j hj heq]
    split
    · rfl
    · next hout => exact size?_beyond (by simpa using hout)

theorem ends_writeString (h : start.Tallies written m) (text : List UInt8) :
    Ends (writeString text) m (fun p m' => start.Tallies (p :: written) m')
      (fun _ m' => start.Tallies written m') := by
  refine .bind' (h.ends_alloc _) ?_
  rintro p m' ⟨hholds, hoffset, hblock⟩
  have hwrite := rewrites_write p (text ++ [0]) m'
  have hok : Ends (write p (text ++ [0])) m' (fun _ m'' => m'.Rewritten m'') fun _ _ => False := by
    unfold Ends
    rw [run_write, hblock] at hwrite ⊢
    dsimp only at hwrite ⊢
    have hfits : ¬ ((text.length + 1 : Int).toNat < m'.offsetOf p + (text ++ [0]).length) := by
      simp [hoffset]
    rw [if_neg hfits] at hwrite ⊢
    exact hwrite
  refine .bind' hok.total fun _ m'' hr => ?_
  exact .pure' (hholds.rewritten hr)

theorem trans (h : start.Tallies written m) {m' : Memory} (h' : m.Tallies [] m') :
    start.Tallies written m' := by
  have hsame := h'.sameLive
  exact ⟨hsame.bits.trans h.bits, by rw [hsame.live, held_congr hsame.size?, h.counted],
    Nat.le_trans h.count h'.count,
    fun i hi => (hsame.size? i).trans (h.old i hi),
    fun i hi hs => h.held i hi (hsame.size? i ▸ hs), h.added⟩

end Tallies

end Memory

/-- Only registers of the running frame differ, and of those only the ones that
`own` allows. -/
inductive Stack.Alters (own : ValueId → Prop) : List Frame → List Frame → Prop
  | nil : Alters own [] []
  | cons {fr : Frame} {rest : List Frame} {regs : Array Word} (hsize : regs.size = fr.regs.size)
      (h : ∀ v, ¬ own v → regs[v]? = fr.regs[v]?) :
      Alters own (fr :: rest) ({ fr with regs } :: rest)

/-- Only such registers and bytes of blocks differ. -/
structure Machine.Alters (own : ValueId → Prop) (m m' : Machine) : Prop where
  steps : m'.steps = m.steps
  host : ∃ memory, m.host.memory.Rewritten memory ∧ m'.host = { m.host with memory }
  frames : Stack.Alters own m.frames m'.frames

section

variable {own : ValueId → Prop}

theorem Stack.Alters.refl (own : ValueId → Prop) : ∀ frames, Stack.Alters own frames frames
  | [] => .nil
  | fr :: rest => @Stack.Alters.cons own fr rest fr.regs rfl fun _ _ => rfl

theorem Stack.Alters.trans {a b c : List Frame} (h : Stack.Alters own a b) (h' : Stack.Alters own b c) :
    Stack.Alters own a c := by
  cases h with
  | nil => exact h'
  | cons hsize hregs =>
    cases h' with
    | cons hsize' hregs' =>
      exact .cons (hsize'.trans hsize) fun v hv => (hregs' v hv).trans (hregs v hv)

instance (own : ValueId → Prop) : Std.Refl (Machine.Alters own) where
  refl m := ⟨rfl, ⟨m.host.memory, Std.Refl.refl _, rfl⟩, Stack.Alters.refl own m.frames⟩

instance (own : ValueId → Prop) :
    Trans (Machine.Alters own) (Machine.Alters own) (Machine.Alters own) where
  trans h h' := by
    obtain ⟨mem, hmem, hhost⟩ := h.host
    obtain ⟨mem', hmem', hhost'⟩ := h'.host
    rw [hhost] at hmem' hhost'
    exact ⟨h'.steps.trans h.steps, ⟨mem', Trans.trans hmem hmem', hhost'⟩, h.frames.trans h'.frames⟩

namespace StepM

open Machine

variable {α : Type} {e : Engine} {f : Func}

theorem alters_request {r : Memory.Request α} (h : Leaves Memory.Rewritten r) :
    Leaves (Alters own) (request r) := by
  intro m
  have hmem := h m.host.memory
  rw [run_request]
  rcases hr : (r.run m.host.memory : Except (Halt Fault) α × Memory) with ⟨(_ | _) | _, mem⟩ <;>
    rw [hr] at hmem <;>
    exact ⟨rfl, ⟨mem, hmem, rfl⟩, Stack.Alters.refl own m.frames⟩

theorem alters_store (r : Rep) (addr bits : Word) : Leaves (Alters own) (store r addr bits) :=
  .ite' (alters_request (Memory.rewrites_copy _ _ _))
    (.ite' (alters_request (Memory.rewrites_write _ _)) (.throw' _))

theorem alters_write {v : ValueId} (hv : own v) (bits : Word) : Leaves (Alters own) (write v bits) := by
  refine leaves_write bits alters_store (.modify' fun m => ?_)
  rcases m with ⟨host, steps, _ | ⟨fr, rest⟩⟩
  · exact Std.Refl.refl _
  · refine ⟨rfl, ⟨host.memory, Std.Refl.refl _, rfl⟩, .cons (by simp) fun u hu => ?_⟩
    rw [Array.getElem?_setIfInBounds_ne]
    rintro rfl
    exact hu hv

theorem alters_setParams (f : Func) {params : List ValueId} (hp : ∀ p ∈ params, own p)
    (args : List Word) : Leaves (Alters own) (setParams f params args) :=
  leaves_setParams args fun p hmem => alters_write (hp p hmem)

end StepM

end

end TypedIR
