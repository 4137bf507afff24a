import Mathlib.Tactic.NormNum
import TypedIR.Memory
import TypedIR.Proofs.Outcome

/-
  Requests to memory, run.

  Each request is said as one equation: what it answers and the memory it
  leaves. An address space for 4-byte pointers hands out addresses below 2^32,
  so that every byte of a block has an address that fits a pointer.
-/

namespace TypedIR

namespace Memory

variable (m : Memory)

theorem run_alloc (size : Int) : ((alloc size).run m : Except (Halt Fault) Word × Memory) =
    if size < 0 ∨ (twoTo m.offsetBits : Int) ≤ size then (.error (.failed (.size size)), m)
    else if m.lastHandle < m.blocks.size + 1 then (.error (.failed .exhausted), m)
    else (.ok (m.address (m.blocks.size + 1)),
      m.add { size := size.toNat }) := by
  unfold alloc
  rw [run_bind]
  show ((ite _ _ _ : Request Word).run m : Except (Halt Fault) Word × Memory) = _
  split
  · rfl
  · show ((ite _ _ _ : Request Word).run m : Except (Halt Fault) Word × Memory) = _
    split <;> rfl

theorem run_blockAt (addr : Word) :
    ((blockAt addr).run m : Except (Halt Fault) Block × Memory) =
      match m.resolve addr with
      | .ok b => (.ok b, m)
      | .error f => (.error (.failed f), m) := by
  unfold blockAt
  rw [run_bind]
  show ((match m.resolve addr with
    | .ok b => pure b
    | .error f => refuse f : Request Block).run m : Except (Halt Fault) Block × Memory) = _
  rcases m.resolve addr with f | b <;> rfl

theorem run_read (addr : Word) (n : Int) :
    ((read addr n).run m : Except (Halt Fault) (List UInt8) × Memory) =
      match m.resolve addr with
      | .error f => (.error (.failed f), m)
      | .ok b =>
        if n < 0 ∨ (b.size : Int) < wrap64 (m.offsetOf addr + n) then
          (.error (.failed (.readBounds n addr)), m)
        else if wrap64 (m.offsetOf addr + n) < m.offsetOf addr then (.error .crashed, m)
        else (.ok (b.window (m.offsetOf addr) n.toNat), m) := by
  unfold read
  rw [run_bind, run_blockAt]
  rcases m.resolve addr with f | b
  · rfl
  · simp only
    rw [run_bind]
    show ((ite _ _ _ : Request (List UInt8)).run m : Except (Halt Fault) _ × Memory) = _
    split
    · rfl
    · show ((ite _ _ _ : Request (List UInt8)).run m : Except (Halt Fault) _ × Memory) = _
      split <;> rfl

theorem snd_run_read (addr : Word) (n : Int) :
    ((read addr n).run m : Except (Halt Fault) (List UInt8) × Memory).2 = m := by
  rw [run_read]
  rcases m.resolve addr with f | b
  · rfl
  · simp only
    split
    · rfl
    · split <;> rfl

theorem putBlock_putBlock (addr : Word) (b b' : Option Block) :
    (m.putBlock addr b).putBlock addr b' = m.putBlock addr b' := by
  simp [putBlock, handleOf]

theorem run_write (addr : Word) (data : List UInt8) :
    ((write addr data).run m : Except (Halt Fault) Unit × Memory) =
      match m.resolve addr with
      | .error f => (.error (.failed f), m)
      | .ok b =>
        if b.size < m.offsetOf addr + data.length then
          (.error (.failed (.writeBounds data.length addr)), m)
        else (.ok (), m.putBlock addr (some (b.write (m.offsetOf addr) data))) := by
  unfold write
  rw [run_bind, run_blockAt]
  rcases m.resolve addr with f | b
  · rfl
  · simp only
    rw [run_bind]
    show ((ite _ _ _ : Request Unit).run m : Except (Halt Fault) _ × Memory) = _
    split
    · rfl
    · show (Except.ok (), (m.putBlock addr none).putBlock addr (some _)) = _
      rw [putBlock_putBlock]

theorem run_free (addr : Word) :
    ((free addr).run m : Except (Halt Fault) Unit × Memory) =
      if addr = 0 then (.ok (), m)
      else match m.resolve addr with
        | .error f => (.error (.failed f), m)
        | .ok _ =>
          if m.offsetOf addr ≠ 0 then (.error (.failed (.freeInside addr)), m)
          else (.ok (), m.release addr) := by
  unfold free
  split
  · rfl
  · rw [run_bind, run_blockAt]
    rcases m.resolve addr with f | b
    · rfl
    · simp only
      rw [run_bind]
      show ((ite _ _ _ : Request Unit).run m : Except (Halt Fault) _ × Memory) = _
      split <;> rfl

theorem run_copy (dst src : Word) (n : Int) :
    ((copy dst src n).run m : Except (Halt Fault) Unit × Memory) =
      if n = 0 then (.ok (), m)
      else match ((read src n).run m : Except (Halt Fault) (List UInt8) × Memory).1 with
        | .error h => (.error h, m)
        | .ok data => (write dst data).run m := by
  unfold copy
  split
  · rfl
  · rw [run_bind]
    have hmem := snd_run_read m src n
    rcases hr : ((read src n).run m : Except (Halt Fault) (List UInt8) × Memory) with ⟨_ | _, m'⟩ <;>
    · rw [hr] at hmem
      subst hmem
      rfl

/-! ## How many blocks are live -/

/-- The live blocks, counted one by one. -/
def held (m : Memory) : Nat := m.blocks.countP (·.isSome)

theorem held_add (b : Block) : (m.add b).held = m.held + 1 := Array.countP_push

/-- Where a live block was, another one keeps the number, and none takes one off. -/
theorem held_putBlock {addr : Word} {b : Block}
    (hb : m.blocks[m.handleOf addr - 1]? = some (some b)) (x : Option Block) :
    (m.putBlock addr x).held + 1 = m.held + if x.isSome then 1 else 0 := by
  obtain ⟨hlt, hget⟩ := Array.getElem?_eq_some_iff.mp hb
  have hpos : 0 < m.blocks.countP (·.isSome) :=
    Array.countP_pos_iff.mpr ⟨_, Array.getElem_mem hlt, by rw [hget]; rfl⟩
  unfold held putBlock
  rw [Array.setIfInBounds, dif_pos hlt, Array.countP_set, hget, Option.isSome_some, if_pos rfl]
  omega

/-! ## Addresses -/

def reach (ptrSize : Int) : Nat := if ptrSize = 4 then 0x100000000 else 0x10000000000000000

/-- The memory is one for pointers of this size. -/
def Serves (ptrSize : Int) (m : Memory) : Prop :=
  m.offsetBits = (forPointers ptrSize).offsetBits

/-- The largest size of a range whose end is a 64-bit number wherever it starts. -/
def largestRange : Int := 0x7FFFFFFF00000000

variable {m}

theorem address_alloc {ptrSize : Int} (hs : m.Serves ptrSize) {size : Int}
    (h0 : 0 ≤ size) (hsize : size < twoTo m.offsetBits) {handle : Nat}
    (hh : handle ≤ m.lastHandle) :
    (m.address handle).toNat = handle * twoTo m.offsetBits ∧
    ((m.address handle).toNat : Int) + size ≤ reach ptrSize ∧ size < 0x100000000 ∧
    (m.address handle).toNat < reach ptrSize := by
  unfold Serves forPointers at hs
  unfold address lastHandle twoTo reach at *
  by_cases hp : ptrSize = 4
  · simp only [hp, if_true] at hs ⊢
    simp only [hs] at hsize hh ⊢
    norm_num at hsize hh ⊢
    omega
  · simp only [hp, if_false] at hs ⊢
    simp only [hs] at hsize hh ⊢
    norm_num at hsize hh ⊢
    omega

end Memory

end TypedIR
