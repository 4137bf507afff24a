import TypedIR.Proofs.AbstractHeap

/-
  Memory is a heap.

  Every log of calls to memory is a log of the heap, and the memory after it
  shows the heap (`Memory.log_refines_heap`): addresses are fresh, every address
  of a live block leads to that block, freed blocks are gone for good, and a
  refused call changes nothing.

  The heart is one lemma for each call: what it does to a memory that shows a heap
  is a step of that heap (`Memory.Shows.follows`).
-/

namespace TypedIR

/-! ## The heap that a memory shows -/

/-- The memory shows the heap: its blocks are the ones handed out, in order, and
the bytes of each are those of the heap. -/
structure Memory.Shows (ptrSize : Int) (m : Memory) (h : Heap) : Prop where
  usual : ptrSize = 4 ∨ ptrSize = 8
  serves : m.Serves ptrSize
  length : h.given.length = m.blocks.size
  room : m.blocks.size ≤ m.lastHandle
  given : ∀ {i p n}, h.given[i]? = some (p, n) → p = m.address (i + 1) ∧ n < twoTo m.offsetBits
  block : ∀ {i b}, m.blocks[i]? = some (some b) →
    h.live (m.address (i + 1)) = some b.bytes ∧ b.Clean ∧
      h.given[i]? = some (m.address (i + 1), b.size)
  freed : ∀ {i}, m.blocks[i]? = some none → h.live (m.address (i + 1)) = none
  live : ∀ {p data}, h.live p = some data →
    ∃ i b, p = m.address (i + 1) ∧ m.blocks[i]? = some (some b)
  counted : m.live = m.held

namespace Memory.Shows

variable {ptrSize : Int} {m : Memory} {h : Heap}

theorem limits (hs : m.Shows ptrSize h) :
    twoTo m.offsetBits = Heap.sizeLimit ptrSize ∧ m.lastHandle = Heap.countLimit ptrSize := by
  have hserves := hs.serves
  unfold Memory.Serves Memory.forPointers at hserves
  unfold Memory.lastHandle Heap.sizeLimit Heap.countLimit
  rcases hs.usual with hp | hp
  · simp only [hp, if_true] at hserves ⊢
    rw [hserves]
    decide
  · simp only [hp] at hserves ⊢
    norm_num at hserves ⊢
    rw [hserves]
    decide

theorem address (hs : m.Shows ptrSize h) {i : Nat} (hi : i < m.lastHandle) :
    (m.address (i + 1)).toNat = (i + 1) * twoTo m.offsetBits ∧
      (m.address (i + 1)).toNat + twoTo m.offsetBits ≤ Memory.reach ptrSize := by
  have hpos : 0 < twoTo m.offsetBits := Nat.two_pow_pos _
  have hlast : ((twoTo m.offsetBits - 1 : Nat) : Int) < twoTo m.offsetBits := by omega
  have hle : i + 1 ≤ m.lastHandle := hi
  obtain ⟨haddr, -, -, hlt⟩ := Memory.address_alloc hs.serves (Int.natCast_nonneg _) hlast hle
  refine ⟨haddr, ?_⟩
  have hcount := hs.limits
  have hmul : (i + 1) * twoTo m.offsetBits ≤ m.lastHandle * twoTo m.offsetBits :=
    Nat.mul_le_mul_right _ (by omega)
  rw [haddr]
  have hall : m.lastHandle * twoTo m.offsetBits + twoTo m.offsetBits = Memory.reach ptrSize := by
    rw [hcount.1, hcount.2]
    rcases hs.usual with hp | hp <;> rw [hp] <;> rfl
  omega

theorem handle_address (hs : m.Shows ptrSize h) {i : Nat} (hi : i < m.lastHandle) :
    m.handleOf (m.address (i + 1)) = i + 1 := by
  have hpos : 0 < twoTo m.offsetBits := Nat.two_pow_pos _
  unfold Memory.handleOf
  rw [(hs.address hi).1, Nat.mul_div_cancel _ hpos]

theorem lt_last (hs : m.Shows ptrSize h) {i : Nat} {x : Option Block}
    (hx : m.blocks[i]? = some x) : i < m.lastHandle := by
  have := lt_of_getElem? hx
  have := hs.room
  omega

theorem size_lt (hs : m.Shows ptrSize h) {i : Nat} {b : Block}
    (hb : m.blocks[i]? = some (some b)) : b.size < twoTo m.offsetBits :=
  (hs.given (hs.block hb).2.2).2

theorem address_inj (hs : m.Shows ptrSize h) {i j : Nat} (hi : i < m.lastHandle)
    (hj : j < m.lastHandle) (heq : m.address (i + 1) = m.address (j + 1)) : i = j := by
  have := hs.handle_address hi
  rw [heq, hs.handle_address hj] at this
  omega

theorem split (hs : m.Shows ptrSize h) {i k : Nat} (hi : i < m.lastHandle)
    (hk : k < twoTo m.offsetBits) {a : Word} (ha : a.toNat = (m.address (i + 1)).toNat + k) :
    m.handleOf a = i + 1 ∧ m.offsetOf a = k ∧ a ≠ 0 := by
  have hpos : 0 < twoTo m.offsetBits := Nat.two_pow_pos _
  rw [(hs.address hi).1, Nat.mul_comm] at ha
  refine ⟨?_, ?_, ?_⟩
  · unfold Memory.handleOf
    rw [ha, Nat.mul_add_div hpos, Nat.div_eq_of_lt hk, Nat.add_zero]
  · unfold Memory.offsetOf
    rw [ha, Nat.mul_add_mod, Nat.mod_eq_of_lt hk]
  · rintro rfl
    rw [Nat.mul_succ] at ha
    have : (0 : Word).toNat = 0 := rfl
    omega

theorem resolve_eq {a : Word} {i : Nat} (hi : m.handleOf a = i + 1) :
    m.resolve a =
      match m.blocks[i]? with
      | none => .error (.invalid a)
      | some none => .error (.freed a)
      | some (some b) => .ok b := by
  have hne : a ≠ 0 := by
    rintro rfl
    have h0 : (0 : Word).toNat = 0 := rfl
    unfold Memory.handleOf at hi
    rw [h0, Nat.zero_div] at hi
    omega
  unfold Memory.resolve
  rw [if_neg hne, hi]
  rfl

theorem of_resolve {a : Word} {b : Block} (hr : m.resolve a = .ok b) :
    ∃ i, m.handleOf a = i + 1 ∧ m.blocks[i]? = some (some b) := by
  rcases hh : m.handleOf a with _ | i
  · unfold Memory.resolve at hr
    rw [hh] at hr
    split at hr <;> cases hr
  · refine ⟨i, rfl, ?_⟩
    rw [resolve_eq hh] at hr
    split at hr
    · cases hr
    · cases hr
    · next hb => rw [hb, Except.ok.inj hr]

/-- An address leads to a block of the memory, at an offset within it, exactly when
it points into the block of the heap. -/
theorem at_iff (hs : m.Shows ptrSize h) {a p : Word} {k : Nat} {data : List UInt8} :
    h.At a p k data ↔
      ∃ b, m.resolve a = .ok b ∧ b.bytes = data ∧ m.offsetOf a = k ∧ k ≤ b.size ∧
        p = m.address (m.handleOf a) := by
  constructor
  · rintro ⟨hlive, hin, haddr⟩
    obtain ⟨i, b, rfl, hb⟩ := hs.live hlive
    have hdata : b.bytes = data := Option.some.inj ((hs.block hb).1.symm.trans hlive)
    subst hdata
    have hk : k ≤ b.size := by simpa using hin
    have hlt := hs.size_lt hb
    obtain ⟨hh, ho, -⟩ := hs.split (hs.lt_last hb) (by omega) haddr
    refine ⟨b, ?_, rfl, ho, hk, by rw [hh]⟩
    rw [resolve_eq hh, hb]
  · rintro ⟨b, hr, rfl, rfl, hk, rfl⟩
    obtain ⟨i, hh, hb⟩ := of_resolve hr
    rw [hh]
    refine ⟨(hs.block hb).1, by simpa using hk, ?_⟩
    rw [(hs.address (hs.lt_last hb)).1, ← hh]
    unfold Memory.handleOf Memory.offsetOf
    rw [Nat.mul_comm]
    exact (Nat.div_add_mod _ _).symm

theorem live_iff (hs : m.Shows ptrSize h) {p : Word} {data : List UInt8} :
    h.live p = some data ↔ ∃ b, m.resolve p = .ok b ∧ b.bytes = data ∧ m.offsetOf p = 0 := by
  constructor
  · intro hlive
    obtain ⟨b, hr, hd, ho, -, -⟩ := hs.at_iff.mp ⟨hlive, Nat.zero_le _, rfl⟩
    exact ⟨b, hr, hd, ho⟩
  · rintro ⟨b, hr, hd, ho⟩
    have hat := hs.at_iff.mpr ⟨b, hr, hd, ho, Nat.zero_le _, rfl⟩
    have heq : p = m.address (m.handleOf p) := UInt64.toNat_inj.mp hat.address
    rw [heq]
    exact hat.live

theorem null (hs : m.Shows ptrSize h) : h.live 0 = none := by
  rcases hl : h.live 0 with _ | data
  · rfl
  · obtain ⟨b, hr, -⟩ := hs.live_iff.mp hl
    cases hr

/-! ### What changes keep -/

theorem add (hs : m.Shows ptrSize h) (hroom : m.blocks.size < m.lastHandle) {b : Block}
    (hc : b.Clean) (hsize : b.size < twoTo m.offsetBits) :
    Shows ptrSize (m.add b)
      (h.add (m.address (m.blocks.size + 1)) b.bytes) := by
  have hgiven : ∀ {i}, i < m.blocks.size →
      (h.given ++ [(m.address (m.blocks.size + 1), b.bytes.length)])[i]? = h.given[i]? :=
    fun hi => List.getElem?_append_left (by rw [hs.length]; exact hi)
  have hother : ∀ {i}, i < m.blocks.size →
      m.address (i + 1) ≠ m.address (m.blocks.size + 1) := by
    intro i hi heq
    have := hs.address_inj (by omega) hroom heq
    omega
  refine ⟨hs.usual, hs.serves, ?_, ?_, ?_, ?_, ?_, ?_, ?_⟩
  · show (h.given ++ [_]).length = (m.blocks.push _).size
    rw [List.length_append, Array.size_push, hs.length]
    rfl
  · show (m.blocks.push _).size ≤ m.lastHandle
    rw [Array.size_push]
    exact hroom
  · intro i p n hi
    change (h.given ++ [_])[i]? = _ at hi
    by_cases hlt : i < m.blocks.size
    · rw [hgiven hlt] at hi
      exact hs.given hi
    · rw [List.getElem?_append_right (by rw [hs.length]; omega), hs.length] at hi
      rcases hn : i - m.blocks.size with _ | n
      · rw [hn] at hi
        obtain rfl : i = m.blocks.size := by omega
        obtain ⟨rfl, rfl⟩ : m.address (m.blocks.size + 1) = p ∧ b.bytes.length = n := by
          simpa using hi
        exact ⟨rfl, by rw [Block.length_bytes]; exact hsize⟩
      · rw [hn] at hi
        cases hi
  · intro i x hx
    change (m.blocks.push _)[i]? = _ at hx
    rw [Array.getElem?_push] at hx
    split at hx
    · next hi =>
      subst hi
      obtain rfl : b = x := by simpa using hx
      refine ⟨if_pos rfl, hc, ?_⟩
      show (h.given ++ [_])[m.blocks.size]? = _
      rw [List.getElem?_append_right (by rw [hs.length]), hs.length]
      simp
      rfl
    · have hlt := lt_of_getElem? hx
      obtain ⟨hl, hcl, hg⟩ := hs.block hx
      refine ⟨(if_neg (hother hlt)).trans hl, hcl, ?_⟩
      exact (hgiven hlt).trans hg
  · intro i hx
    change (m.blocks.push _)[i]? = _ at hx
    rw [Array.getElem?_push] at hx
    split at hx
    · cases hx
    · have hlt := lt_of_getElem? hx
      exact (if_neg (hother hlt)).trans (hs.freed hx)
  · intro p data hp
    change (if p = _ then _ else _) = _ at hp
    split at hp
    · next hpe =>
      refine ⟨m.blocks.size, b, hpe, ?_⟩
      show (m.blocks.push _)[m.blocks.size]? = _
      simp
    · obtain ⟨i, x, rfl, hx⟩ := hs.live hp
      have hlt := lt_of_getElem? hx
      refine ⟨i, x, rfl, ?_⟩
      show (m.blocks.push _)[i]? = _
      rw [Array.getElem?_push, if_neg (by omega)]
      exact hx
  · rw [Memory.held_add, Nat.cast_succ, ← hs.counted]
    rfl

theorem change (hs : m.Shows ptrSize h) {a : Word} {i : Nat} {b : Block}
    (hh : m.handleOf a = i + 1) (hb : m.blocks[i]? = some (some b)) (x : Option Block)
    (hx : ∀ b', x = some b' → b'.Clean ∧ b'.size = b.size) {n : Int}
    (hn : n + 1 = m.live + if x.isSome then 1 else 0) :
    Shows ptrSize { m.putBlock a x with live := n }
      { h with live := fun q => if q = m.address (i + 1) then x.map Block.bytes else h.live q } := by
  have hi := lt_of_getElem? hb
  have hlast := hs.lt_last hb
  have hblocks : ∀ j, (m.putBlock a x).blocks[j]? =
      if j = i then some x else m.blocks[j]? := by
    intro j
    show (m.blocks.setIfInBounds (m.handleOf a - 1) x)[j]? = _
    rw [hh, Nat.add_sub_cancel, Array.getElem?_setIfInBounds]
    by_cases hj : j = i
    · subst hj
      simp [hi]
    · rw [if_neg fun h => hj h.symm, if_neg hj]
  have hsize : (m.putBlock a x).blocks.size = m.blocks.size := Array.size_setIfInBounds ..
  have hother : ∀ {j y}, j ≠ i → m.blocks[j]? = some y → m.address (j + 1) ≠ m.address (i + 1) :=
    fun hj hy heq => hj (hs.address_inj (hs.lt_last hy) hlast heq)
  refine ⟨hs.usual, hs.serves, hs.length.trans hsize.symm, ?_, hs.given, ?_, ?_, ?_, ?_⟩
  · show (m.putBlock a x).blocks.size ≤ m.lastHandle
    rw [hsize]
    exact hs.room
  · intro j y hy
    change (m.putBlock a x).blocks[j]? = _ at hy
    rw [hblocks] at hy
    show (if m.address (j + 1) = m.address (i + 1) then _ else _) = _ ∧ _
    split at hy
    · next hj =>
      subst hj
      obtain rfl := Option.some.inj hy
      obtain ⟨hcl, hsz⟩ := hx y rfl
      refine ⟨if_pos rfl, hcl, ?_⟩
      rw [hsz]
      exact (hs.block hb).2.2
    · next hj =>
      rw [if_neg (hother hj hy)]
      exact hs.block hy
  · intro j hy
    change (m.putBlock a x).blocks[j]? = _ at hy
    rw [hblocks] at hy
    show (if m.address (j + 1) = m.address (i + 1) then _ else _) = _
    split at hy
    · next hj =>
      subst hj
      obtain rfl := Option.some.inj hy
      exact if_pos rfl
    · next hj =>
      rw [if_neg (hother hj hy)]
      exact hs.freed hy
  · intro p data hp
    change (if p = m.address (i + 1) then _ else _) = _ at hp
    split at hp
    · next hpe =>
      obtain ⟨b', rfl, -⟩ := Option.map_eq_some_iff.mp hp
      exact ⟨i, b', hpe, (hblocks i).trans (if_pos rfl)⟩
    · next hpe =>
      obtain ⟨j, y, rfl, hy⟩ := hs.live hp
      refine ⟨j, y, rfl, (hblocks j).trans ?_⟩
      rw [if_neg fun hj => hpe (by rw [hj])]
      exact hy
  · have hheld := m.held_putBlock (by rw [hh]; exact hb) x
    have hcounted := hs.counted
    show n = ((m.putBlock a x).held : Int)
    by_cases hsome : x.isSome
    · rw [if_pos hsome] at hn hheld
      omega
    · rw [if_neg hsome] at hn hheld
      omega

end Memory.Shows

/-! ## Calls -/

theorem run_map {ε σ α β : Type} (f : α → β) (act : ExceptT ε (StateM σ) α) (s : σ) :
    ((f <$> act).run s : Except ε β × σ) =
      match (act.run s : Except ε α × σ) with
      | (.ok a, s') => (.ok (f a), s')
      | (.error e, s') => (.error e, s') := by
  have h : ((f <$> act).run s : Except ε β × σ) =
      ((match (act.run s).1 with
        | .ok a => pure (.ok (f a))
        | .error e => pure (.error e)) : StateM σ (Except ε β)) (act.run s).2 := rfl
  rw [h]
  rcases (act.run s : Except ε α × σ) with ⟨_ | _, _⟩ <;> rfl

def Heap.Call.Follows (ptrSize : Int) (c : Heap.Call) (m : Memory) (h : Heap) : Prop :=
  match c.run m with
  | (.ok a, m') => ∃ h', h.Step ptrSize c a h' ∧ m'.Shows ptrSize h'
  | (.error (.failed _), m') => m' = m ∧ ∀ a h', ¬ h.Step ptrSize c a h'
  | (.error .crashed, _) => False

namespace Memory.Shows

variable {ptrSize : Int} {m : Memory} {h : Heap}

open Heap

theorem alloc_cases (hs : m.Shows ptrSize h) (n : Nat) :
    (h.Room ptrSize n ∧ h.Fresh ptrSize (m.address (m.blocks.size + 1)) n ∧
      ((alloc n).run m : Except (Halt Fault) Word × Memory) =
        (.ok (m.address (m.blocks.size + 1)),
          m.add { size := n })) ∨
    (¬ h.Room ptrSize n ∧
      ∃ f, ((alloc n).run m : Except (Halt Fault) Word × Memory) = (.error (.failed f), m)) := by
  obtain ⟨hsize, hcount⟩ := hs.limits
  unfold Heap.Room
  rw [run_alloc, ← hsize, ← hcount, hs.length]
  by_cases hn : n < twoTo m.offsetBits
  · rw [if_neg (by omega)]
    by_cases hroom : m.blocks.size < m.lastHandle
    · left
      rw [if_neg (by omega), Int.toNat_natCast]
      obtain ⟨haddr, hreach⟩ := hs.address hroom
      refine ⟨⟨hn, hroom⟩, ⟨?_, ?_, by omega, ?_⟩, rfl⟩
      · exact (hs.split hroom (Nat.two_pow_pos _) (Nat.add_zero _).symm).2.2
      · intro size hmem
        obtain ⟨i, hi, hget⟩ := List.mem_iff_getElem.mp hmem
        obtain ⟨heq, -⟩ := hs.given ((List.getElem?_eq_getElem hi).trans (congrArg some hget))
        rw [hs.length] at hi
        have := hs.address_inj hroom (by omega) heq
        omega
      · -- every other block has a lower number, and ends before the next one starts
        intro q data hq
        obtain ⟨i, b, rfl, hb⟩ := hs.live hq
        have hi := lt_of_getElem? hb
        have hb' := hs.size_lt hb
        obtain rfl : b.bytes = data := Option.some.inj ((hs.block hb).1.symm.trans hq)
        have hmul : (i + 1 + 1) * twoTo m.offsetBits ≤ (m.blocks.size + 1) * twoTo m.offsetBits :=
          Nat.mul_le_mul_right _ (by omega)
        rw [Nat.succ_mul (i + 1)] at hmul
        right
        rw [haddr, (hs.address (hs.lt_last hb)).1, Block.length_bytes]
        omega
    · right
      rw [if_pos (by omega)]
      exact ⟨fun h => hroom h.2, _, rfl⟩
  · right
    rw [if_pos (by omega)]
    exact ⟨fun h => hn h.1, _, rfl⟩

theorem follows_alloc (hs : m.Shows ptrSize h) (n : Nat) : (Call.alloc n).Follows ptrSize m h := by
  unfold Call.Follows Call.run Call.request
  rw [run_map]
  rcases hs.alloc_cases n with ⟨hroom, hfresh, hrun⟩ | ⟨hroom, f, hrun⟩
  · rw [hrun]
    have hadd := hs.add (b := { size := n }) (by rw [hs.limits.2, ← hs.length]; exact hroom.2)
      (Block.clean_fresh n) (by rw [hs.limits.1]; exact hroom.1)
    rw [Block.bytes_fresh] at hadd
    exact ⟨_, .alloc hroom hfresh, hadd⟩
  · rw [hrun]
    refine ⟨rfl, fun a h' hstep => ?_⟩
    cases hstep with
    | alloc room => exact hroom room

theorem removed (hs : m.Shows ptrSize h) {a : Word} {b : Block} (hr : m.resolve a = .ok b)
    (ho : m.offsetOf a = 0) :
    h.live a = some b.bytes ∧ (m.release a).Shows ptrSize (h.remove a) := by
  obtain ⟨i, hh, hb⟩ := of_resolve hr
  have hlive := hs.live_iff.mpr ⟨b, hr, rfl, ho⟩
  have hat := hs.at_iff.mpr ⟨b, hr, rfl, ho, Nat.zero_le _, rfl⟩
  have heq : a = m.address (i + 1) := by
    rw [← hh]
    exact UInt64.toNat_inj.mp hat.address
  refine ⟨hlive, ?_⟩
  have hchange := hs.change hh hb none nofun (n := m.live - 1) (by simp)
  rw [← heq] at hchange
  exact hchange

theorem written (hs : m.Shows ptrSize h) {a : Word} {b : Block} (hr : m.resolve a = .ok b)
    {data : List UInt8} (hfits : m.offsetOf a + data.length ≤ b.size) :
    h.At a (m.address (m.handleOf a)) (m.offsetOf a) b.bytes ∧
      (m.putBlock a (some (b.write (m.offsetOf a) data))).Shows ptrSize
        (h.put (m.address (m.handleOf a)) (overwrite b.bytes (m.offsetOf a) data)) := by
  obtain ⟨i, hh, hb⟩ := of_resolve hr
  refine ⟨hs.at_iff.mpr ⟨b, hr, rfl, rfl, by omega, rfl⟩, ?_⟩
  have hchange := hs.change hh hb (some (b.write (m.offsetOf a) data)) (by
    rintro b' ⟨rfl⟩
    exact ⟨b.clean_write (hs.block hb).2.1 hfits, rfl⟩) rfl
  rw [Option.map_some, b.bytes_write hfits] at hchange
  rw [hh]
  exact hchange

/-- Where an address points in the heap, if it leads to a block of the memory. -/
theorem at_of_resolve (hs : m.Shows ptrSize h) {a p : Word} {k : Nat} {data : List UInt8}
    (hat : h.At a p k data) {b : Block} (hr : m.resolve a = .ok b) :
    data = b.bytes ∧ k = m.offsetOf a ∧ p = m.address (m.handleOf a) := by
  obtain ⟨b', hr', rfl, rfl, -, rfl⟩ := hs.at_iff.mp hat
  rw [Except.ok.inj (hr'.symm.trans hr)]
  exact ⟨rfl, rfl, rfl⟩

theorem not_at (hs : m.Shows ptrSize h) {a p : Word} {k : Nat} {data : List UInt8} {f : Fault}
    (hr : m.resolve a = .error f) : ¬ h.At a p k data := by
  intro hat
  obtain ⟨b, hr', -⟩ := hs.at_iff.mp hat
  cases hr.symm.trans hr'

theorem not_live (hs : m.Shows ptrSize h) {a : Word} {data : List UInt8} {f : Fault}
    (hr : m.resolve a = .error f) : h.live a ≠ some data :=
  fun hlive => hs.not_at hr ⟨hlive, Nat.zero_le _, rfl⟩

theorem follows_free (hs : m.Shows ptrSize h) (a : Word) : (Call.free a).Follows ptrSize m h := by
  unfold Call.Follows Call.run Call.request
  rw [run_map, run_free]
  by_cases h0 : a = 0
  · subst h0
    exact ⟨h, .freeNull, hs⟩
  · rw [if_neg h0]
    rcases hr : m.resolve a with f | b
    · refine ⟨rfl, fun x h' hstep => ?_⟩
      cases hstep with
      | freeNull => exact h0 rfl
      | free live => exact hs.not_live hr live
    · simp only
      by_cases ho : m.offsetOf a = 0
      · rw [if_neg (not_not.mpr ho)]
        obtain ⟨hlive, hshows⟩ := hs.removed hr ho
        exact ⟨_, .free hlive, hshows⟩
      · rw [if_pos ho]
        refine ⟨rfl, fun x h' hstep => ?_⟩
        cases hstep with
        | freeNull => exact h0 rfl
        | free live => exact ho (hs.live_iff.mp live).choose_spec.2.2

theorem follows_realloc (hs : m.Shows ptrSize h) (a : Word) (n : Nat) :
    (Call.realloc a n).Follows ptrSize m h := by
  unfold Call.Follows Call.run Call.request
  rw [run_map, run_realloc]
  by_cases h0 : a = 0
  · subst h0
    rw [if_pos rfl]
    have halloc := hs.follows_alloc n
    unfold Call.Follows Call.run Call.request at halloc
    rw [run_map] at halloc
    rcases hrun : ((alloc n).run m : Except (Halt Fault) Word × Memory) with
      ⟨(f | _) | p, m'⟩ <;> rw [hrun] at halloc
    · refine ⟨halloc.1, fun x h' hstep => ?_⟩
      cases hstep with
      | reallocNull room fresh => exact halloc.2 _ _ (.alloc room fresh)
      | realloc live => rw [hs.null] at live; cases live
    · exact halloc
    · obtain ⟨h', hstep, hshows⟩ := halloc
      cases hstep with
      | alloc room fresh => exact ⟨_, .reallocNull room fresh, hshows⟩
  · rw [if_neg h0]
    rcases hr : m.resolve a with f | b
    · refine ⟨rfl, fun x h' hstep => ?_⟩
      cases hstep with
      | reallocNull => exact h0 rfl
      | realloc live => exact hs.not_live hr live
    · simp only
      by_cases ho : m.offsetOf a = 0
      · rw [if_neg (not_not.mpr ho)]
        obtain ⟨hlive, -⟩ := hs.removed hr ho
        obtain ⟨i, hh, hb⟩ := of_resolve hr
        rcases hs.alloc_cases n with ⟨hroom, hfresh, hrun⟩ | ⟨hroom, f, hrun⟩
        · rw [hrun]
          have hlast : m.blocks.size < m.lastHandle := by
            rw [hs.limits.2, ← hs.length]
            exact hroom.2
          have hadd := hs.add (b := b.resized n) hlast (b.clean_resized n)
            (by rw [hs.limits.1]; exact hroom.1)
          rw [b.bytes_resized (hs.block hb).2.1] at hadd
          refine ⟨_, .realloc hlive hroom hfresh, ?_⟩
          -- the block was pushed empty and filled afterwards
          have hfill : (m.add { size := n }).putBlock (m.address (m.blocks.size + 1))
              (some (b.resized (n : Int).toNat)) = m.add (b.resized n) := by
            have hhandle : (m.add { size := n }).handleOf (m.address (m.blocks.size + 1)) =
                m.blocks.size + 1 := hs.handle_address hlast
            unfold Memory.putBlock
            rw [hhandle, Int.toNat_natCast]
            simp [Memory.add, Array.setIfInBounds, Array.set_push]
          rw [hfill]
          have hi := lt_of_getElem? hb
          have hb' : (m.blocks.push (some (b.resized n)))[i]? = some (some b) := by
            rw [Array.getElem?_push, if_neg (by omega)]
            exact hb
          have hr' : (m.add (b.resized n)).resolve a = .ok b := by
            have hh' : (m.add (b.resized n)).handleOf a = i + 1 := hh
            rw [resolve_eq hh']
            show (match (m.blocks.push (some (b.resized n)))[i]? with
              | none => _
              | some none => _
              | some (some b) => _) = _
            rw [hb']
          exact (hadd.removed hr' ho).2
        · rw [hrun]
          refine ⟨rfl, fun x h' hstep => ?_⟩
          cases hstep with
          | reallocNull => exact h0 rfl
          | realloc _ room => exact hroom room
      · rw [if_pos ho]
        refine ⟨rfl, fun x h' hstep => ?_⟩
        cases hstep with
        | reallocNull => exact h0 rfl
        | realloc live => exact ho (hs.live_iff.mp live).choose_spec.2.2

theorem read_cases (hs : m.Shows ptrSize h) (a : Word) {n : Nat} (hn : n ≤ 0x100000000) :
    (∃ b, m.resolve a = .ok b ∧ m.offsetOf a + n ≤ b.size ∧
      ((Memory.read a n).run m : Except (Halt Fault) (List UInt8) × Memory) =
        (.ok ((b.bytes.drop (m.offsetOf a)).take n), m)) ∨
    ((∃ f, ((Memory.read a n).run m : Except (Halt Fault) (List UInt8) × Memory) =
        (.error (.failed f), m)) ∧
      ∀ p k data, h.At a p k data → data.length < k + n) := by
  have hoff : m.offsetOf a < 0x100000000 := by
    have hlt : m.offsetOf a < twoTo m.offsetBits := Nat.mod_lt _ (Nat.two_pow_pos _)
    have hle : Heap.sizeLimit ptrSize ≤ 0x100000000 := by
      unfold Heap.sizeLimit
      split <;> decide
    rw [hs.limits.1] at hlt
    omega
  rw [run_read]
  rcases hr : m.resolve a with f | b
  · exact .inr ⟨⟨f, rfl⟩, fun p k data hat => (hs.not_at hr hat).elim⟩
  · simp only
    rw [wrap64_of_mem (by omega) (by omega)]
    by_cases hfits : m.offsetOf a + n ≤ b.size
    · left
      refine ⟨b, rfl, hfits, ?_⟩
      rw [if_neg (by omega), if_neg (by omega), Int.toNat_natCast, b.window_eq hfits]
    · right
      rw [if_pos (by omega)]
      refine ⟨⟨_, rfl⟩, fun p k data hat => ?_⟩
      obtain ⟨rfl, rfl, -⟩ := hs.at_of_resolve hat hr
      rw [Block.length_bytes]
      omega

theorem follows_read (hs : m.Shows ptrSize h) (a : Word) {n : Nat} (hn : n ≤ 0x100000000) :
    (Call.read a n).Follows ptrSize m h := by
  unfold Call.Follows Call.run Call.request
  rw [run_map]
  rcases hs.read_cases a hn with ⟨b, hr, hfits, hrun⟩ | ⟨⟨f, hrun⟩, hno⟩
  · rw [hrun]
    have hat := hs.at_iff.mpr ⟨b, hr, rfl, rfl, by omega, rfl⟩
    exact ⟨h, .read hat (by rwa [Block.length_bytes]), hs⟩
  · rw [hrun]
    refine ⟨rfl, fun x h' hstep => ?_⟩
    cases hstep with
    | read at_ fits => have := hno _ _ _ at_; omega

theorem write_cases (hs : m.Shows ptrSize h) (a : Word) (data : List UInt8) :
    (∃ b, m.resolve a = .ok b ∧ m.offsetOf a + data.length ≤ b.size ∧
      ((Memory.write a data).run m : Except (Halt Fault) Unit × Memory) =
        (.ok (), m.putBlock a (some (b.write (m.offsetOf a) data)))) ∨
    ((∃ f, ((Memory.write a data).run m : Except (Halt Fault) Unit × Memory) =
        (.error (.failed f), m)) ∧
      ∀ p k old, h.At a p k old → old.length < k + data.length) := by
  rw [run_write]
  rcases hr : m.resolve a with f | b
  · exact .inr ⟨⟨f, rfl⟩, fun p k old hat => (hs.not_at hr hat).elim⟩
  · simp only
    by_cases hfits : m.offsetOf a + data.length ≤ b.size
    · rw [if_neg (by omega)]
      exact .inl ⟨b, rfl, hfits, rfl⟩
    · rw [if_pos (by omega)]
      refine .inr ⟨⟨_, rfl⟩, fun p k old hat => ?_⟩
      obtain ⟨rfl, rfl, -⟩ := hs.at_of_resolve hat hr
      rw [Block.length_bytes]
      omega

theorem follows_write (hs : m.Shows ptrSize h) (a : Word) (data : List UInt8) :
    (Call.write a data).Follows ptrSize m h := by
  unfold Call.Follows Call.run Call.request
  rw [run_map]
  rcases hs.write_cases a data with ⟨b, hr, hfits, hrun⟩ | ⟨⟨f, hrun⟩, hno⟩
  · rw [hrun]
    obtain ⟨hat, hshows⟩ := hs.written hr hfits
    exact ⟨_, .write hat (by rwa [Block.length_bytes]), hshows⟩
  · rw [hrun]
    refine ⟨rfl, fun x h' hstep => ?_⟩
    cases hstep with
    | write at_ fits => have := hno _ _ _ at_; omega

theorem follows_copy (hs : m.Shows ptrSize h) (dst src : Word) {n : Nat} (hn : n ≤ 0x100000000) :
    (Call.copy dst src n).Follows ptrSize m h := by
  unfold Call.Follows Call.run Call.request
  rw [run_map, run_copy]
  by_cases h0 : n = 0
  · subst h0
    exact ⟨h, .copyNone, hs⟩
  · rw [if_neg (by omega)]
    rcases hs.read_cases src hn with ⟨b, hr, hfits, hrun⟩ | ⟨⟨f, hrun⟩, hno⟩
    · rw [hrun]
      simp only
      have hlen : ((b.bytes.drop (m.offsetOf src)).take n).length = n := by
        rw [List.length_take, List.length_drop, Block.length_bytes]
        omega
      have hsrc := hs.at_iff.mpr ⟨b, hr, rfl, rfl, by omega, rfl⟩
      rcases hs.write_cases dst ((b.bytes.drop (m.offsetOf src)).take n) with
        ⟨b', hr', hfits', hrun'⟩ | ⟨⟨f, hrun'⟩, hno⟩
      · rw [hrun']
        obtain ⟨hat, hshows⟩ := hs.written hr' hfits'
        rw [hlen] at hfits'
        exact ⟨_, .copy h0 hsrc (by rwa [Block.length_bytes]) hat (by rwa [Block.length_bytes]),
          hshows⟩
      · rw [hrun']
        refine ⟨rfl, fun x h' hstep => ?_⟩
        cases hstep with
        | copyNone => exact h0 rfl
        | copy _ _ _ target fits =>
          have := hno _ _ _ target
          rw [hlen] at this
          omega
    · rw [hrun]
      refine ⟨rfl, fun x h' hstep => ?_⟩
      cases hstep with
      | copyNone => exact h0 rfl
      | copy _ source readable => have := hno _ _ _ source; omega

theorem follows_fill (hs : m.Shows ptrSize h) (a : Word) (x : UInt8) (n : Nat) :
    (Call.fill a x n).Follows ptrSize m h := by
  unfold Call.Follows Call.run Call.request
  rw [run_map, run_fill]
  by_cases h0 : n = 0
  · subst h0
    exact ⟨h, .fillNone, hs⟩
  · rw [if_neg h0]
    have hwrite := hs.write_cases a (List.replicate n x)
    rw [List.length_replicate] at hwrite
    rcases hwrite with ⟨b, hr, hfits, hrun⟩ | ⟨⟨f, hrun⟩, hno⟩
    · rw [hrun]
      have hfits' : m.offsetOf a + (List.replicate n x).length ≤ b.size := by
        rwa [List.length_replicate]
      obtain ⟨hat, hshows⟩ := hs.written hr hfits'
      exact ⟨_, .fill h0 hat (by rwa [Block.length_bytes]), hshows⟩
    · rw [hrun]
      refine ⟨rfl, fun y h' hstep => ?_⟩
      cases hstep with
      | fillNone => exact h0 rfl
      | fill _ at_ fits => have := hno _ _ _ at_; omega

theorem follows_readString (hs : m.Shows ptrSize h) (a : Word) :
    (Call.readString a).Follows ptrSize m h := by
  unfold Call.Follows Call.run Call.request
  rw [run_map, run_readString]
  rcases hr : m.resolve a with f | b
  · refine ⟨rfl, fun x h' hstep => ?_⟩
    cases hstep with
    | readString at_ => exact hs.not_at hr at_
  · simp only
    by_cases hin : b.size < m.offsetOf a
    · rw [if_pos hin]
      refine ⟨rfl, fun x h' hstep => ?_⟩
      cases hstep with
      | readString at_ =>
        obtain ⟨b', hr', -, ho, hle, -⟩ := hs.at_iff.mp at_
        obtain rfl := Except.ok.inj (hr'.symm.trans hr)
        omega
    · rw [if_neg hin, b.stringFrom_eq (by omega)]
      by_cases hz : 0 ∈ b.bytes.drop (m.offsetOf a)
      · rw [if_pos hz]
        have hat := hs.at_iff.mpr ⟨b, hr, rfl, rfl, by omega, rfl⟩
        exact ⟨h, .readString hat hz, hs⟩
      · rw [if_neg hz]
        refine ⟨rfl, fun x h' hstep => ?_⟩
        cases hstep with
        | readString at_ ends =>
          obtain ⟨rfl, rfl, -⟩ := hs.at_of_resolve at_ hr
          exact hz ends

theorem follows_writeString (hs : m.Shows ptrSize h) (s : List UInt8) :
    (Call.writeString s).Follows ptrSize m h := by
  unfold Call.Follows Call.run Call.request
  rw [run_map, run_writeString]
  have halloc := hs.alloc_cases (s.length + 1)
  rw [Int.natCast_add, Int.natCast_one] at halloc
  rcases halloc with ⟨hroom, hfresh, hrun⟩ | ⟨hroom, f, hrun⟩
  · rw [hrun]
    have hlast : m.blocks.size < m.lastHandle := by
      rw [hs.limits.2, ← hs.length]
      exact hroom.2
    have hadd := hs.add (b := { size := s.length + 1 }) hlast (Block.clean_fresh _)
      (by rw [hs.limits.1]; exact hroom.1)
    generalize hm : m.add { size := s.length + 1 } = m₁ at hadd
    have hlive : (h.add (m.address (m.blocks.size + 1))
        (Block.bytes { size := s.length + 1 })).live (m.address (m.blocks.size + 1)) =
          some (Block.bytes { size := s.length + 1 }) := if_pos rfl
    obtain ⟨b, hr, hbytes, ho⟩ := hadd.live_iff.mp hlive
    have hsize : b.size = s.length + 1 := by
      have := congrArg List.length hbytes
      simpa using this
    have hfits : m₁.offsetOf (m.address (m.blocks.size + 1)) + (s ++ [0]).length ≤ b.size := by
      rw [ho, hsize]
      simp
    obtain ⟨hat, hshows⟩ := hadd.written hr hfits
    simp only
    rw [run_write, hr]
    simp only
    rw [if_neg (by omega)]
    have hstart : m₁.address (m₁.handleOf (m.address (m.blocks.size + 1))) =
        m.address (m.blocks.size + 1) := by
      rw [ho] at hat
      exact (UInt64.toNat_inj.mp hat.address).symm
    have hover : overwrite b.bytes (m₁.offsetOf (m.address (m.blocks.size + 1))) (s ++ [0]) =
        s ++ [0] := by
      unfold overwrite
      rw [ho, List.take_zero, List.nil_append, List.drop_eq_nil_of_le (by simp [hsize]),
        List.append_nil]
    rw [hstart, hover] at hshows
    refine ⟨_, .writeString hroom hfresh, ?_⟩
    rw [h.put_add _ _ (by simp)] at hshows
    exact hshows
  · rw [hrun]
    refine ⟨rfl, fun x h' hstep => ?_⟩
    cases hstep with
    | writeString room => exact hroom room

theorem follows (hs : m.Shows ptrSize h) {c : Call} (hc : c.InRange) : c.Follows ptrSize m h := by
  cases c with
  | alloc n => exact hs.follows_alloc n
  | free a => exact hs.follows_free a
  | realloc a n => exact hs.follows_realloc a n
  | read a n => exact hs.follows_read a hc
  | write a data => exact hs.follows_write a data
  | copy dst src n => exact hs.follows_copy dst src hc
  | fill a x n => exact hs.follows_fill a x n
  | readString a => exact hs.follows_readString a
  | writeString s => exact hs.follows_writeString s

theorem fresh (hp : ptrSize = 4 ∨ ptrSize = 8) : (forPointers ptrSize).Shows ptrSize {} := by
  refine ⟨hp, rfl, rfl, Nat.zero_le _, ?_, ?_, ?_, ?_, rfl⟩
  · intro i p n hi
    cases hi
  · intro i b hb
    simp [forPointers] at hb
  · intro i hb
    simp [forPointers] at hb
  · intro p data hd
    cases hd

theorem count_live (hs : m.Shows ptrSize h) :
    m.live = (h.given.filter fun g => (h.live g.1).isSome).length := by
  have hmap : h.given.map (fun g => (h.live g.1).isSome) =
      m.blocks.toList.map (·.isSome) := by
    apply List.ext_getElem?
    intro i
    rw [List.getElem?_map, List.getElem?_map, Array.getElem?_toList]
    by_cases hi : i < m.blocks.size
    · have hgi : i < h.given.length := hs.length ▸ hi
      have hp : h.given[i].1 = m.address (i + 1) := (hs.given (List.getElem?_eq_getElem hgi)).1
      rw [List.getElem?_eq_getElem hgi, Array.getElem?_eq_getElem hi, Option.map_some,
        Option.map_some, hp]
      rcases hb : m.blocks[i] with _ | b
      · rw [hs.freed ((Array.getElem?_eq_getElem hi).trans (congrArg some hb))]
        rfl
      · rw [(hs.block ((Array.getElem?_eq_getElem hi).trans (congrArg some hb))).1]
        rfl
    · rw [List.getElem?_eq_none (by rw [hs.length]; omega), Array.getElem?_eq_none (by omega)]
      rfl
  have hcount := congrArg (List.countP id) hmap
  rw [List.countP_map, List.countP_map] at hcount
  rw [hs.counted, Memory.held, ← List.countP_eq_length_filter, ← Array.countP_toList]
  exact congrArg Nat.cast hcount.symm

end Memory.Shows

/-! ## Logs -/

namespace Heap

variable {ptrSize : Int} {h h' : Heap} {c : Call} {a : Answer}

theorem Step.given (hstep : h.Step ptrSize c a h') {g : Word × Nat} (hg : g ∈ h.given) :
    g ∈ h'.given := by
  cases hstep with
  | alloc | reallocNull | writeString | realloc => exact List.mem_append_left _ hg
  | _ => exact hg

theorem Step.address {p : Word} (hstep : h.Step ptrSize c (.address p) h') :
    (∃ n, h.Fresh ptrSize p n) ∧ ∃ n, (p, n) ∈ h'.given := by
  cases hstep with
  | alloc _ fresh | reallocNull _ fresh | writeString _ fresh | realloc _ _ fresh =>
    exact ⟨⟨_, fresh⟩, _, List.mem_append_right _ (List.mem_singleton.mpr rfl)⟩

def Gone (h : Heap) (p : Word) (n : Nat) : Prop := (p, n) ∈ h.given ∧ h.live p = none

theorem Step.gone (hstep : h.Step ptrSize c a h') {p : Word} {n : Nat} (hg : h.Gone p n) :
    h'.Gone p n := by
  obtain ⟨hgiven, hnone⟩ := hg
  refine ⟨hstep.given hgiven, ?_⟩
  have hadd : ∀ {q k} (data : List UInt8), h.Fresh ptrSize q k → (h.add q data).live p = none := by
    intro q k data hfresh
    have hne : p ≠ q := by
      rintro rfl
      exact hfresh.new n hgiven
    show (if p = q then _ else _) = _
    rw [if_neg hne]
    exact hnone
  have hput : ∀ {q data} (new : List UInt8), h.live q = some data → (h.put q new).live p = none := by
    intro q data new hq
    have hne : p ≠ q := by
      rintro rfl
      rw [hnone] at hq
      cases hq
    show (if p = q then _ else _) = _
    rw [if_neg hne]
    exact hnone
  cases hstep with
  | alloc _ fresh | reallocNull _ fresh | writeString _ fresh => exact hadd _ fresh
  | @free q data live =>
    show (if p = q then _ else _) = _
    split
    · rfl
    · exact hnone
  | @realloc q n data r live room fresh =>
    show (if p = q then _ else _) = _
    split
    · rfl
    · exact hadd _ fresh
  | write at_ | fill _ at_ => exact hput _ at_.live
  | copy _ _ _ target => exact hput _ target.live
  | _ => exact hnone

def Call.Releases (p : Word) : Call → Prop
  | .free q => q = p ∧ p ≠ 0
  | .realloc q _ => q = p ∧ p ≠ 0
  | _ => False

theorem Step.touches (hstep : h.Step ptrSize c a h') {x : Word} (hx : x ≠ 0) (ht : c.Touches x) :
    ∃ p k data, h.At x p k data := by
  have hstart : ∀ {p data}, h.live p = some data → h.At p p 0 data :=
    fun hlive => ⟨hlive, Nat.zero_le _, rfl⟩
  cases hstep with
  | alloc | writeString => exact ht.elim
  | freeNull | reallocNull => exact absurd ht.symm hx
  | free live | realloc live => exact ⟨_, _, _, ht ▸ hstart live⟩
  | read at_ | write at_ | readString at_ => exact ⟨_, _, _, ht ▸ at_⟩
  | copyNone | fillNone => exact absurd rfl ht.1
  | copy _ source _ target =>
    rcases ht.2 with heq | heq
    · exact ⟨_, _, _, heq ▸ target⟩
    · exact ⟨_, _, _, heq ▸ source⟩
  | fill _ at_ => exact ⟨_, _, _, ht.2 ▸ at_⟩

end Heap

namespace Memory

open Heap

variable {ptrSize : Int} {m : Memory} {h : Heap}
  {log : List (Call × Except (Halt Fault) Answer)}

namespace Shows

theorem given_of_live (hs : m.Shows ptrSize h) {p : Word} {data : List UInt8}
    (hlive : h.live p = some data) : (p, data.length) ∈ h.given := by
  obtain ⟨i, b, rfl, hb⟩ := hs.live hlive
  obtain ⟨hbytes, -, hg⟩ := hs.block hb
  obtain rfl := Option.mem_unique hbytes hlive
  rw [Block.length_bytes]
  exact List.mem_of_getElem? hg

theorem at_unique (hs : m.Shows ptrSize h) {a p q : Word} {k j : Nat} {data data' : List UInt8}
    (hp : h.At a p k data) (hq : h.At a q j data') : p = q ∧ k = j := by
  obtain ⟨b, hr, -, rfl, -, rfl⟩ := hs.at_iff.mp hp
  obtain ⟨b', hr', -, rfl, -, rfl⟩ := hs.at_iff.mp hq
  exact ⟨rfl, rfl⟩

theorem not_at_gone (hs : m.Shows ptrSize h) {p : Word} {n k : Nat} (hg : h.Gone p n)
    (hk : k ≤ n) {a : Word} (ha : a.toNat = p.toNat + k) : ¬ ∃ q j data, h.At a q j data := by
  rintro ⟨q, j, data, hat⟩
  obtain ⟨i, hi, hget⟩ := List.mem_iff_getElem.mp hg.1
  obtain ⟨rfl, hn⟩ := hs.given ((List.getElem?_eq_getElem hi).trans (congrArg some hget))
  rw [hs.length] at hi
  obtain ⟨hh, -, -⟩ := hs.split (Nat.lt_of_lt_of_le hi hs.room) (by omega) ha
  obtain ⟨b, hr, -⟩ := hs.at_iff.mp hat
  obtain ⟨i', hh', hb⟩ := of_resolve hr
  obtain rfl : i = i' := by omega
  have hlive := (hs.block hb).1
  rw [hg.2] at hlive
  cases hlive

theorem ne_null (hs : m.Shows ptrSize h) {p : Word} {n k : Nat} (hg : (p, n) ∈ h.given)
    (hk : k ≤ n) {a : Word} (ha : a.toNat = p.toNat + k) : a ≠ 0 := by
  obtain ⟨i, hi, hget⟩ := List.mem_iff_getElem.mp hg
  obtain ⟨rfl, hn⟩ := hs.given ((List.getElem?_eq_getElem hi).trans (congrArg some hget))
  rw [hs.length] at hi
  exact (hs.split (Nat.lt_of_lt_of_le hi hs.room) (by omega) ha).2.2

theorem gone_of_released (hs : m.Shows ptrSize h) {c : Call} {a : Answer} {h' : Heap}
    (hstep : h.Step ptrSize c a h') {p : Word} (hr : c.Releases p) : ∃ n, h'.Gone p n := by
  cases hstep with
  | free live =>
    obtain ⟨rfl, -⟩ := hr
    exact ⟨_, hs.given_of_live live, if_pos rfl⟩
  | realloc live =>
    obtain ⟨rfl, -⟩ := hr
    exact ⟨_, List.mem_append_left _ (hs.given_of_live live), if_pos rfl⟩
  | freeNull | reallocNull => exact absurd hr.1.symm hr.2
  | _ => exact hr.elim

end Shows

/-- What a log tells of the heap after it: addresses that were answered are on the
list, and what was released is gone. -/
structure Remembers (log : List (Call × Except (Halt Fault) Answer)) (h : Heap) : Prop where
  answered : ∀ {c p}, (c, .ok (.address p)) ∈ log → ∃ n, (p, n) ∈ h.given
  released : ∀ {c a p}, (c, .ok a) ∈ log → c.Releases p → ∃ n, h.Gone p n

theorem Remembers.step (hs : m.Shows ptrSize h) (hr : Remembers log h) {c : Call} {a : Answer}
    {h' : Heap} (hstep : h.Step ptrSize c a h') : Remembers (log ++ [(c, .ok a)]) h' := by
  constructor
  · intro c' p hmem
    rcases List.mem_append.mp hmem with hold | hnew
    · obtain ⟨n, hn⟩ := hr.answered hold
      exact ⟨n, hstep.given hn⟩
    · obtain ⟨rfl, ha⟩ := Prod.mk.inj (List.mem_singleton.mp hnew)
      obtain rfl := Except.ok.inj ha
      exact hstep.address.2
  · intro c' a' p hmem hrel
    rcases List.mem_append.mp hmem with hold | hnew
    · obtain ⟨n, hn⟩ := hr.released hold hrel
      exact ⟨n, hstep.gone hn⟩
    · obtain ⟨rfl, -⟩ := Prod.mk.inj (List.mem_singleton.mp hnew)
      exact hs.gone_of_released hstep hrel

theorem Remembers.refused (hr : Remembers log h) (c : Call) (e : Halt Fault) :
    Remembers (log ++ [(c, .error e)]) h := by
  have hold : ∀ {c' a}, (c', Except.ok a) ∈ log ++ [(c, .error e)] → (c', Except.ok a) ∈ log := by
    intro c' a hmem
    rcases List.mem_append.mp hmem with h | h
    · exact h
    · cases (Prod.mk.inj (List.mem_singleton.mp h)).2
  exact ⟨fun hmem => hr.answered (hold hmem), fun hmem => hr.released (hold hmem)⟩

theorem Log.explained (hp : ptrSize = 4 ∨ ptrSize = 8) (hlog : Log ptrSize log m) :
    ∃ h : Heap, Explains ptrSize log h ∧ m.Shows ptrSize h ∧ Remembers log h := by
  induction hlog with
  | start => exact ⟨{}, .start, .fresh hp, nofun, nofun⟩
  | @call log m c answer m' _ hrange hrun ih =>
    obtain ⟨h, hexp, hshows, hrem⟩ := ih
    have hfollows := hshows.follows hrange
    unfold Call.Follows at hfollows
    rw [hrun] at hfollows
    rcases answer with (f | _) | a
    · obtain ⟨rfl, hno⟩ := hfollows
      exact ⟨h, .refused hexp hno, hshows, hrem.refused c _⟩
    · exact hfollows.elim
    · obtain ⟨h', hstep, hshows'⟩ := hfollows
      exact ⟨h', .answered hexp hstep, hshows', hrem.step hshows hstep⟩

/-- Memory is a heap. After every log of calls there is a heap that explains the
log and that the next call treats as `Heap.Step` says. Addresses of live blocks
lead to their blocks and to one only; addresses that are handed out are not null,
within reach and new; nothing touches a block that was released; what is refused
changes nothing; and live blocks are counted. -/
theorem log_refines_heap (hp : ptrSize = 4 ∨ ptrSize = 8) (hlog : Log ptrSize log m) :
    ∃ h : Heap, Explains ptrSize log h ∧ m.Shows ptrSize h ∧
      (∀ c : Call, c.InRange → c.Follows ptrSize m h) ∧
      (∀ {p data k a}, h.live p = some data → k ≤ data.length → a.toNat = p.toNat + k →
        ∃ b, m.resolve a = .ok b ∧ b.bytes = data ∧ m.offsetOf a = k) ∧
      (∀ {a p q k j data data'}, h.At a p k data → h.At a q j data' → p = q ∧ k = j) ∧
      (∀ {c : Call} {p m'}, c.InRange → c.run m = (.ok (.address p), m') →
        p ≠ 0 ∧ p.toNat < reach ptrSize ∧ ∀ c', (c', .ok (.address p)) ∉ log) ∧
      (∀ {c : Call} {x p}, (c, .ok x) ∈ log → c.Releases p →
        (∃ n, (p, n) ∈ h.given) ∧ ∀ {n k a} {c' : Call}, (p, n) ∈ h.given → k ≤ n →
          a.toNat = p.toNat + k → c'.InRange → c'.Touches a →
            ∃ f, c'.run m = (.error (.failed f), m)) ∧
      (∀ {c : Call} {e m'}, c.InRange → c.run m = (.error e, m') → m' = m ∧ e ≠ .crashed) ∧
      m.live = (h.given.filter fun g => (h.live g.1).isSome).length := by
  obtain ⟨h, hexp, hshows, hrem⟩ := hlog.explained hp
  refine ⟨h, hexp, hshows, fun c hc => hshows.follows hc, ?_, hshows.at_unique, ?_, ?_, ?_,
    hshows.count_live⟩
  · intro p data k a hlive hk ha
    obtain ⟨b, hr, hbytes, ho, -, -⟩ := hshows.at_iff.mp ⟨hlive, hk, ha⟩
    exact ⟨b, hr, hbytes, ho⟩
  · intro c p m' hc hrun
    have hfollows := hshows.follows hc
    unfold Call.Follows at hfollows
    rw [hrun] at hfollows
    obtain ⟨h', hstep, -⟩ := hfollows
    obtain ⟨⟨n, hfresh⟩, -⟩ := hstep.address
    have hreach := hfresh.reach
    refine ⟨hfresh.notNull, by omega, fun c' hmem => ?_⟩
    obtain ⟨n', hn'⟩ := hrem.answered hmem
    exact hfresh.new n' hn'
  · intro c x p hmem hrel
    obtain ⟨n₀, hgone₀⟩ := hrem.released hmem hrel
    refine ⟨⟨n₀, hgone₀.1⟩, fun {n k a c'} hn hk ha hc' ht => ?_⟩
    have hgone : h.Gone p n := ⟨hn, hgone₀.2⟩
    have hfollows := hshows.follows hc'
    unfold Call.Follows at hfollows
    rcases hrun : c'.run m with ⟨(f | _) | y, m'⟩ <;> rw [hrun] at hfollows
    · exact ⟨f, by rw [hfollows.1]⟩
    · exact hfollows.elim
    · obtain ⟨h', hstep, -⟩ := hfollows
      have hne := hshows.ne_null hgone.1 hk ha
      exact (hshows.not_at_gone hgone hk ha (hstep.touches hne ht)).elim
  · intro c e m' hc hrun
    have hfollows := hshows.follows hc
    unfold Call.Follows at hfollows
    rw [hrun] at hfollows
    rcases e with f | _
    · exact ⟨hfollows.1, nofun⟩
    · exact hfollows.elim

def movedLog : List (Call × Except (Halt Fault) Answer) :=
  [(.alloc 3, .ok (.address 0x100000)), (.write 0x100001 [7], .ok .done),
    (.realloc 0x100000 5, .ok (.address 0x200000))]

/-- The old block can be neither read nor freed after the move. -/
theorem moved_block_gone :
    ∃ m, Log 4 movedLog m ∧ m.live = 1 ∧
      (Call.read 0x200000 5).run m = (.ok (.bytes [0, 7, 0, 0, 0]), m) ∧
      (∃ f, (Call.read 0x100000 1).run m = (.error (.failed f), m)) ∧
      ∃ f, (Call.free 0x100000).run m = (.error (.failed f), m) := by
  have hlog : Log 4 movedLog
      ((Call.realloc 0x100000 5).run ((Call.write 0x100001 [7]).run
        ((Call.alloc 3).run (forPointers 4)).2).2).2 :=
    .call (.call (.call .start (by decide) rfl) (by decide) rfl) (by decide) rfl
  obtain ⟨h, -, -, -, -, -, -, hreleased, -, -⟩ := log_refines_heap (.inl rfl) hlog
  have hmem : (Call.realloc 0x100000 5, .ok (.address 0x200000)) ∈ movedLog := by simp [movedLog]
  obtain ⟨⟨n, hn⟩, hrefused⟩ := hreleased hmem ⟨rfl, by decide⟩
  exact ⟨_, hlog, rfl, rfl, hrefused hn (Nat.zero_le n) rfl (by decide) rfl,
    hrefused hn (Nat.zero_le n) rfl (by decide) rfl⟩

end Memory

end TypedIR
