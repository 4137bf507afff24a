import TypedIR.Trace.Output

/-
  What a ring keeps.

  The event that came as number `n` (from 0) is at position `n % capacity` of the ring,
  as long as fewer than `capacity` events came after it (`Ring.Holds`). Until the ring is
  full this is the order of the buffer; afterwards the oldest event is where the next one
  will go, so the buffer is read from there on and around its end (`Ring.Holds.events`).

  What is proved of a tracer (`Tracing.ring_keeps_tail`): of the events it is given it
  keeps the last ones that pass its level, as many as it has room for; it has counted the
  others of them as lost; and it writes those that it keeps, oldest first. Events that do
  not pass move nothing. Which events pass is said apart from the code, by the number of
  the most detailed scope that a level reaches (`Event.Passes`). All of this is about rings
  that can be made: the machine makes no object of more than 2^48 bytes.
-/

namespace TypedIR.Trace

/-! ## What passes -/

/-- The number of the most detailed scope that a level reaches: that of contexts for
`phase`, that of functions for `detail`, any for `debug`. The other levels reach none. -/
def Level.reach? : Level → Option Nat
  | .phase => some 2
  | .detail => some 3
  | .debug => some 255
  | _ => none

/-- An event passes a level if its scope is not beyond what the level reaches. A heartbeat
passes every level. -/
def Event.Passes (e : Event) (l : Level) : Prop :=
  e.kind = .heartbeat ∨ ∃ n ∈ l.reach?, e.scope.code.toNat ≤ n

theorem Level.keeps_iff (l : Level) (e : Event) : l.keeps e = true ↔ e.Passes l := by
  have hall : e.scope.code.toNat ≤ 255 := Nat.le_of_lt_succ e.scope.code.toNat_lt
  have hcontext : Scope.context.code.toNat = 2 := rfl
  have hfunction : Scope.function.code.toNat = 3 := rfl
  cases l <;> simp [keeps, admits, Event.Passes, reach?, UInt8.le_iff_toNat_le, hcontext,
    hfunction, or_comm]
  exact .inr hall

instance (e : Event) (l : Level) : Decidable (e.Passes l) :=
  decidable_of_iff _ (l.keeps_iff e)

theorem filter_keeps (l : Level) (es : List Event) :
    es.filter l.keeps = es.filter fun e => e.Passes l :=
  List.filter_congr fun e _ => Bool.eq_iff_iff.2 ((l.keeps_iff e).trans decide_eq_true_iff.symm)

namespace Ring

/-- The ring was given the events `es`, and nothing else. -/
structure Holds (r : Ring) (es : List Event) : Prop where
  pos : 0 < r.capacity
  total : r.total = es.length
  size : r.buffer.size = min es.length r.capacity
  /-- One of the last `capacity` events is where its number says. -/
  placed : ∀ n < es.length, es.length ≤ n + r.capacity → r.buffer[n % r.capacity]? = es[n]?

/-- A ring that can be made: it has the room that was asked for, and nothing in it. -/
theorem made (capacity : Int) (level : Level) :
    let c := if capacity ≤ 0 then 4096 else capacity.toNat
    match make? capacity level with
    | none => largestObject < 104 * c
    | some r => 104 * c ≤ largestObject ∧ r.level = level ∧ r.capacity = c ∧ r.Holds [] := by
  intro c
  have hmake : make? capacity level =
      if 104 * c ≤ largestObject then some { level, capacity := c } else none := rfl
  rw [hmake]
  by_cases hfits : 104 * c ≤ largestObject
  · rw [if_pos hfits]
    refine ⟨hfits, rfl, rfl, ?_, rfl, by simp, by simp⟩
    show 0 < c
    simp only [c]
    split <;> omega
  · rw [if_neg hfits]
    exact Nat.not_le.1 hfits

theorem mod_ne {n k c : Nat} (hlt : n < k) (hnear : k < n + c) : n % c ≠ k % c := by
  intro heq
  have hzero : (k - n) % c = 0 := Nat.sub_mod_eq_zero_of_mod_eq heq.symm
  rw [Nat.mod_eq_of_lt (by omega)] at hzero
  omega

variable {r : Ring} {es : List Event}

theorem buffer_push_of_room (hroom : r.buffer.size < r.capacity) (e : Event) :
    (r.push e).buffer = r.buffer.push e :=
  if_pos hroom

theorem buffer_push_of_full (hfull : r.buffer.size = r.capacity) (e : Event) :
    (r.push e).buffer = r.buffer.setIfInBounds (r.total % r.capacity) e :=
  if_neg (by omega)

theorem Holds.push (h : r.Holds es) (e : Event) : (r.push e).Holds (es ++ [e]) := by
  have hsize := h.size
  have hpos := h.pos
  have hlength : (es ++ [e]).length = es.length + 1 := by simp
  have hcapacity : (r.push e).capacity = r.capacity := rfl
  have htotal : (r.push e).total = (es ++ [e]).length := by simp [Ring.push, h.total]
  by_cases hroom : r.buffer.size < r.capacity
  · have hlen : r.buffer.size = es.length := by omega
    refine ⟨hpos, htotal, ?_, fun n hn hlate => ?_⟩ <;> rw [buffer_push_of_room hroom]
    · rw [Array.size_push]
      omega
    · have hposition : n % r.capacity = n := Nat.mod_eq_of_lt (by omega)
      rw [hcapacity, hposition, Array.getElem?_push, hlen]
      split
      · rename_i hlast
        simp [hlast]
      · have hold := h.placed n (by omega) (by omega)
        rw [hposition] at hold
        rw [hold, List.getElem?_append_left (by omega)]
  · have hfull : r.buffer.size = r.capacity := by omega
    refine ⟨hpos, htotal, ?_, fun n hn hlate => ?_⟩ <;> rw [buffer_push_of_full hfull]
    · rw [Array.size_setIfInBounds]
      omega
    · rw [hcapacity, h.total, Array.getElem?_setIfInBounds]
      rw [hlength] at hn hlate
      rcases Nat.lt_succ_iff_lt_or_eq.1 hn with hearlier | rfl
      · -- an earlier event is overwritten only once `capacity` events came after it
        rw [if_neg (mod_ne hearlier (by omega)).symm, h.placed n hearlier (by omega),
          List.getElem?_append_left hearlier]
      · rw [if_pos rfl, if_pos (by rw [hfull]; exact Nat.mod_lt _ hpos),
          List.getElem?_concat_length]

theorem Holds.events (h : r.Holds es) : r.events = es.drop (es.length - r.capacity) := by
  have hsize := h.size
  have hpos := h.pos
  simp only [Ring.events, h.total]
  split
  · rename_i hfits
    rw [Nat.sub_eq_zero_of_le hfits, List.drop_zero]
    apply List.ext_getElem?
    intro i
    rw [Array.getElem?_toList]
    by_cases hi : i < es.length
    · have hold := h.placed i hi (by omega)
      rwa [Nat.mod_eq_of_lt (by omega)] at hold
    · rw [Array.getElem?_eq_none (by omega), List.getElem?_eq_none (by omega)]
  · rename_i hmore
    have hfull : r.buffer.size = r.capacity := by omega
    have hhead : es.length % r.capacity < r.capacity := Nat.mod_lt _ hpos
    apply List.ext_getElem?
    intro i
    rw [List.getElem?_drop]
    by_cases hi : i < r.capacity
    · have hold := h.placed (es.length - r.capacity + i) (by omega) (by omega)
      -- the number of the event is `i` more than that of the oldest one
      have hposition : (es.length - r.capacity + i) % r.capacity =
          (es.length % r.capacity + i) % r.capacity := by
        rw [← Nat.add_mod_right, show es.length - r.capacity + i + r.capacity = es.length + i by
          omega, Nat.mod_add_mod]
      rw [← hold, hposition]
      have hback : (r.buffer.toList.drop (es.length % r.capacity)).length =
          r.capacity - es.length % r.capacity := by simp [hfull]
      by_cases hround : es.length % r.capacity + i < r.capacity
      · rw [List.getElem?_append_left (by omega), List.getElem?_drop, Array.getElem?_toList,
          Nat.mod_eq_of_lt hround]
      · have hwrapped : (es.length % r.capacity + i) % r.capacity =
            es.length % r.capacity + i - r.capacity := by
          rw [Nat.mod_eq_sub_mod (by omega), Nat.mod_eq_of_lt (by omega)]
        rw [List.getElem?_append_right (by omega), List.getElem?_take_of_lt (by omega),
          Array.getElem?_toList, hback, hwrapped]
        congr 1
        omega
    · rw [List.getElem?_eq_none (by simp; omega), List.getElem?_eq_none (by omega)]

end Ring

namespace Tracing

variable {t : Tracing} {id : TracerId} {r : Ring}

theorem tracer_add (t : Tracing) (tr : Tracer) : (t.add tr).2.tracer (t.add tr).1 = tr := by
  simp [add, tracer, Array.getD]

theorem tracer_update (hthere : t.tracer id ≠ .nop) (tr : Tracer) :
    (t.update id tr).tracer id = tr := by
  have hlt : id < t.tracers.size := by
    refine Nat.lt_of_not_le fun hout => hthere ?_
    simp [tracer, Array.getD, Nat.not_lt.2 hout]
  simp [tracer, update, Array.getD, hlt]

theorem tracer_deliver (hring : t.tracer id = .ring r) (e : Event) :
    (t.deliver id e).tracer id = .ring (if r.level.keeps e then r.push e else r) := by
  simp only [deliver, deliverWithin, hring]
  split
  · exact tracer_update (by simp [hring]) _
  · exact hring

theorem holds_delivered (es before : List Event) (hring : t.tracer id = .ring r)
    (h : r.Holds before) :
    ∃ r', (es.foldl (·.deliver id ·) t).tracer id = .ring r' ∧ r'.capacity = r.capacity ∧
      r'.Holds (before ++ es.filter r.level.keeps) := by
  induction es generalizing t r before with
  | nil => exact ⟨r, hring, rfl, by simpa using h⟩
  | cons e es ih =>
    have hnext := tracer_deliver hring e
    rw [List.foldl_cons, List.filter_cons]
    by_cases hkept : r.level.keeps e
    · rw [if_pos hkept] at hnext ⊢
      simpa [Ring.push] using ih (before ++ [e]) hnext (h.push e)
    · rw [if_neg hkept] at hnext ⊢
      exact ih before hnext h

/-- A ring keeps exactly the tail. Of the events it was given, `kept` are those that pass
its level. It has counted them all, gives the last `c` of them, oldest first, and says of
the others that they are lost. No ring is made for more events than one object can hold. -/
theorem ring_keeps_tail (t : Tracing) (capacity : Int) (level : Level) (es : List Event) :
    let c := if capacity ≤ 0 then 4096 else capacity.toNat
    let kept := es.filter fun e => e.Passes level
    match Ring.make? capacity level with
    | none => largestObject < 104 * c
    | some ring =>
      let id := (t.add (.ring ring)).1
      let started := (t.add (.ring ring)).2
      104 * c ≤ largestObject ∧ ∃ r, (es.foldl (·.deliver id ·) started).ring? id = some r ∧
        r.total = kept.length ∧
        r.events = kept.drop (kept.length - c) ∧
        r.events.length = min c kept.length ∧
        r.dropped = kept.length - c ∧
        ∀ format, r.dump format =
          String.join ((kept.drop (kept.length - c)).map (·.render format)) := by
  intro c kept
  have hmade := Ring.made capacity level
  cases hring : Ring.make? capacity level with
  | none => simpa only [hring] using hmade
  | some ring =>
    simp only [hring] at hmade
    obtain ⟨hfits, rfl, hc, hempty⟩ := hmade
    obtain ⟨r, hr, hcapacity, h⟩ := holds_delivered es [] (tracer_add t (.ring ring)) hempty
    rw [List.nil_append, filter_keeps] at h
    have hc : r.capacity = c := hcapacity.trans hc
    have hevents : r.events = kept.drop (kept.length - c) := hc ▸ h.events
    refine ⟨hfits, r, ?_, h.total, hevents, ?_, ?_, fun format => ?_⟩
    · simp only [ring?, ringWithin]
      simp only [tracer] at hr
      rw [hr]
    · rw [hevents, List.length_drop]
      omega
    · rw [Ring.dropped, h.total, hc]
    · rw [Ring.dump, hevents]

/-- A ring for 2^62 events crashes whoever asks for it. -/
theorem huge_ring_not_made :
    Ring.make? 4611686018427387904 .debug = none ∧
      (({} : Tracing).create {} [] { level := .debug, mode := .ring, ringSize := 4611686018427387904 } true).1 =
        .error .crashed :=
  ⟨by decide +kernel, by rfl⟩

end Tracing

end TypedIR.Trace
