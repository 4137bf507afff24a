import TypedIR.Llvm.Lower
import TypedIR.Proofs.Outcome
import TypedIR.Proofs.TypeGrowth

/-
  What lowering writes.

  Between the ends of blocks, lowering does two things only: it writes
  instructions at the end of the block that grows, and it declares functions
  whose names stand for nothing yet. `Lowering.Performs` says of a run which of
  these events it is made of, and that each fits where it happens: results are
  numbered one after the other, an operand that names a result has the type of
  that result, and a call has a callee.

  The events of an operation are found by walking through its text
  (`Keeps Quiet` for operations that call nothing). Of every instruction that
  is no label, branch, return or call it is shown that it writes something and
  calls nothing (`emits_lowerInsn`).
-/

namespace TypedIR.Llvm

/-! ## Types of operands and results -/

def LType.ofRep? (r : Rep) : Option LType :=
  match r.cls with
  | .void => some .void
  | .int | .uint =>
    if r.size = 1 ∨ r.size = 2 ∨ r.size = 4 ∨ r.size = 8 then some (.int (8 * r.size.toNat)) else none
  | .float => some (if r.size = 4 then .float else .double)
  | .pointer => some .address
  | .struct => some (.bytes (Word.ofInt r.size).toNat)
  | .other _ => none

namespace Instr

def operands : Instr → List Operand
  | .slot _ _ => []
  | .alloca _ n => [n]
  | .load _ _ p => [p]
  | .store x p => [x, p]
  | .binary _ _ a b => [a, b]
  | .negate _ a => [a]
  | .compare _ _ a b => [a, b]
  | .cast _ _ a _ => [a]
  | .element _ _ p i => [p, i]
  | .call _ _ args => args

def resultType? (m : Module) : Instr → Option LType
  | .slot _ _ | .store _ _ => none
  | .alloca _ _ => some .address
  | .load _ t _ => some t
  | .binary _ _ a _ | .negate _ a => some a.type
  | .compare _ _ _ _ => some (.int 1)
  | .cast _ _ _ t => some t
  | .element _ t _ _ => some (.pointer t)
  | .call _ c _ => m.functions[c]?.map (·.ret)

def slot? : Instr → Option ValueId
  | .slot v _ => some v
  | _ => none

def call? : Instr → Option (Nat × List LType)
  | .call _ c args => some (c, args.map (·.type))
  | _ => none

end Instr

/-! ## Events -/

/-- What lowering does between the ends of blocks. -/
inductive Event where
  | write (i : Instr)
  | declare (g : Function)

def Event.instr? : Event → Option Instr
  | .write i => some i
  | .declare _ => none

def Event.function? : Event → Option Function
  | .write _ => none
  | .declare g => some g

def Event.call? (e : Event) : Option (Nat × List LType) := e.instr?.bind (·.call?)

namespace Lowering

def Defines (s : Lowering) (n : Nat) (t : LType) : Prop :=
  ∃ (k : Nat) (b : Block), s.body.blocks[k]? = some b ∧
    ∃ i ∈ b.instrs, i.temp? = some n ∧ i.resultType? s.module = some t

/-- An operand that names a result has the type of the result. One without a
type stands for the result of a call that gives nothing. -/
def Knows (s : Lowering) (x : Operand) : Prop :=
  ∀ n t, x = .named (.temp n) t → t = .void ∨ s.Defines n t

/-- An instruction that fits where it is written. -/
structure Accepts (s : Lowering) (i : Instr) : Prop where
  noSlot : i.slot? = none
  temp : ∀ n, i.temp? = some n → n = s.temps
  operands : ∀ x ∈ i.operands, s.Knows x
  callee : ∀ d c args, i = .call d c args →
    ∃ g, s.module.functions[c]? = some g ∧ (d = none ↔ g.ret = .void)

def written (s : Lowering) (i : Instr) : Lowering :=
  { s with
    temps := s.temps + i.temp?.toList.length
    body := { s.body with
      blocks := s.body.blocks.modify s.current fun b => { b with instrs := b.instrs.push i } } }

def declared (s : Lowering) (g : Function) : Lowering :=
  { s with
    module := { s.module with functions := s.module.functions.push g }
    names := (g.name, s.module.functions.size) :: s.names }

def Grounded (s : Lowering) : Prop := s.current < s.body.blocks.size

/-- A run that is made of events. -/
inductive Performs : Lowering → List Event → Lowering → Prop
  | nil (s : Lowering) : Performs s [] s
  | write {s s' : Lowering} {i : Instr} {es : List Event} (hi : s.Accepts i)
      (h : Performs (s.written i) es s') : Performs s (.write i :: es) s'
  | declare {s s' : Lowering} {g : Function} {es : List Event} (hb : g.body = none)
      (hg : s.names.lookup g.name = none) (h : Performs (s.declared g) es s') :
      Performs s (.declare g :: es) s'

variable {s s' s'' : Lowering} {es es' : List Event}

theorem Performs.noSlot (h : s.Performs es s') : ∀ i ∈ es.filterMap Event.instr?, i.slot? = none := by
  induction h with
  | nil => exact List.forall_mem_nil _
  | write hi _ ih => exact List.forall_mem_cons.mpr ⟨hi.noSlot, ih⟩
  | declare _ _ _ ih => exact ih

theorem Performs.trans (h : s.Performs es s') (h' : s'.Performs es' s'') :
    s.Performs (es ++ es') s'' := by
  induction h with
  | nil => exact h'
  | write hi _ ih => exact .write hi (ih h')
  | declare hb hg _ ih => exact .declare hb hg (ih h')

theorem getElem?_written (i : Instr) (k : Nat) :
    (s.written i).body.blocks[k]? = if s.current = k then
      (s.body.blocks[k]?).map fun b => { b with instrs := b.instrs.push i } else s.body.blocks[k]? :=
  Array.getElem?_modify

theorem Defines.written {n : Nat} {t : LType} {i : Instr} (h : s.Defines n t) :
    (s.written i).Defines n t := by
  obtain ⟨k, b, hb, j, hj, hn, ht⟩ := h
  by_cases hk : s.current = k
  · refine ⟨k, { b with instrs := b.instrs.push i }, ?_, j, Array.mem_push_of_mem i hj, hn, ht⟩
    rw [getElem?_written, if_pos hk, hb]
    rfl
  · exact ⟨k, b, by rwa [getElem?_written, if_neg hk], j, hj, hn, ht⟩

theorem Defines.declared {n : Nat} {t : LType} {g : Function} (h : s.Defines n t) :
    (s.declared g).Defines n t := by
  obtain ⟨k, b, hb, j, hj, hn, ht⟩ := h
  refine ⟨k, b, hb, j, hj, hn, ?_⟩
  cases j with
  | call d c args =>
    obtain ⟨f, hf, rfl⟩ := Option.map_eq_some_iff.mp ht
    exact Option.map_eq_some_iff.mpr ⟨f, TypeTable.getElem?_push_of_some hf, rfl⟩
  | _ => exact ht

theorem Performs.defines {n : Nat} {t : LType} (h : s.Performs es s') (hd : s.Defines n t) :
    s'.Defines n t := by
  induction h with
  | nil => exact hd
  | write _ _ ih => exact ih hd.written
  | declare _ _ _ ih => exact ih hd.declared

theorem Performs.knows {x : Operand} (h : s.Performs es s') (hx : s.Knows x) : s'.Knows x :=
  fun n t hn => (hx n t hn).imp_right h.defines

theorem Performs.grounded (h : s.Performs es s') (hs : s.Grounded) : s'.Grounded := by
  induction h with
  | nil => exact hs
  | write _ _ ih => exact ih (by simpa [Grounded, Lowering.written] using hs)
  | declare _ _ _ ih => exact ih hs

theorem getElem?_of_lt {α : Type} {xs : Array α} {k : Nat} (h : k < xs.size) :
    ∃ x, xs[k]? = some x := ⟨xs[k], Array.getElem?_eq_getElem h⟩

theorem defines_written {n : Nat} {t : LType} {i : Instr} (hs : s.Grounded) (hi : i.temp? = some n)
    (ht : i.resultType? s.module = some t) : (s.written i).Defines n t := by
  obtain ⟨b, hb⟩ := getElem?_of_lt hs
  refine ⟨s.current, { b with instrs := b.instrs.push i }, ?_, i, Array.mem_push_self, hi, ht⟩
  rw [getElem?_written, if_pos rfl, hb]
  rfl

def Quiet (s s' : Lowering) : Prop :=
  ∃ is : List Instr, s.Performs (is.map .write) s' ∧ ∀ i ∈ is, i.call? = none

instance : Std.Refl Quiet := ⟨fun s => ⟨[], .nil s, List.forall_mem_nil _⟩⟩

instance : Trans Quiet Quiet Quiet where
  trans := by
    rintro s s' s'' ⟨is, h, hq⟩ ⟨is', h', hq'⟩
    refine ⟨is ++ is', List.map_append ▸ h.trans h', fun i hi => ?_⟩
    exact (List.mem_append.mp hi).elim (hq i) (hq' i)

/-- A run that writes something, declares these functions and makes these
calls. -/
def Makes (gs : List Function) (calls : List (Nat × List LType)) (s s' : Lowering) : Prop :=
  ∃ es, s.Performs es s' ∧ es.filterMap Event.instr? ≠ [] ∧
    es.filterMap Event.function? = gs ∧ es.filterMap Event.call? = calls

theorem functions_of_writes (is : List Instr) :
    (is.map Event.write).filterMap Event.function? = [] := by
  simp [List.filterMap_eq_nil_iff, Event.function?]

theorem calls_of_quiet {is : List Instr} (h : ∀ i ∈ is, i.call? = none) :
    (is.map Event.write).filterMap Event.call? = [] := by
  simpa [List.filterMap_eq_nil_iff, Event.call?, Event.instr?] using h

variable {gs : List Function} {calls : List (Nat × List LType)}

theorem Makes.after (h : s.Quiet s') (h' : s'.Makes gs calls s'') : s.Makes gs calls s'' := by
  obtain ⟨is, his, hq⟩ := h
  obtain ⟨es, hes, hsome, rfl, rfl⟩ := h'
  refine ⟨is.map .write ++ es, his.trans hes, fun h => hsome ?_, ?_, ?_⟩
  · rw [List.filterMap_append] at h
    exact (List.append_eq_nil_iff.mp h).2
  · rw [List.filterMap_append, functions_of_writes, List.nil_append]
  · rw [List.filterMap_append, calls_of_quiet hq, List.nil_append]

theorem Makes.before (h : s.Makes gs calls s') (h' : s'.Quiet s'') : s.Makes gs calls s'' := by
  obtain ⟨es, hes, hsome, rfl, rfl⟩ := h
  obtain ⟨is, his, hq⟩ := h'
  refine ⟨es ++ is.map .write, hes.trans his, fun h => hsome ?_, ?_, ?_⟩
  · rw [List.filterMap_append] at h
    exact (List.append_eq_nil_iff.mp h).1
  · rw [List.filterMap_append, functions_of_writes, List.append_nil]
  · rw [List.filterMap_append, calls_of_quiet hq, List.append_nil]

def Declares (gs : List Function) (s s' : Lowering) : Prop :=
  (gs = [] ∧ s' = s) ∨
    ∃ g, gs = [g] ∧ g.body = none ∧ s.names.lookup g.name = none ∧ s' = s.declared g

theorem Declares.makes {gs' : List Function} (h : s.Declares gs s') (h' : s'.Makes gs' calls s'') :
    s.Makes (gs ++ gs') calls s'' := by
  rcases h with ⟨rfl, rfl⟩ | ⟨g, rfl, hb, hg, rfl⟩
  · exact h'
  · obtain ⟨es, hes, hsome, rfl, rfl⟩ := h'
    exact ⟨.declare g :: es, .declare hb hg hes, hsome, rfl, rfl⟩

theorem Declares.grounded (h : s.Declares gs s') (hs : s.Grounded) : s'.Grounded := by
  rcases h with ⟨-, rfl⟩ | ⟨g, -, -, -, rfl⟩
  · exact hs
  · exact hs

theorem Declares.knows {x : Operand} (h : s.Declares gs s') (hx : s.Knows x) : s'.Knows x := by
  rcases h with ⟨-, rfl⟩ | ⟨g, -, hb, hg, rfl⟩
  · exact hx
  · exact (Performs.declare hb hg (.nil _)).knows hx

theorem Accepts.makes {i : Instr} (hi : s.Accepts i) : s.Makes [] i.call?.toList (s.written i) :=
  ⟨[.write i], .write hi (.nil _), List.cons_ne_nil _ _, rfl, by
    cases h : i.call? <;> simp [Event.call?, Event.instr?, h]⟩

theorem Performs.lookup {n : String} {c : Nat} (h : s.Performs es s')
    (hn : s.names.lookup n = some c) : s'.names.lookup n = some c := by
  induction h with
  | nil => exact hn
  | write _ _ ih => exact ih hn
  | @declare s s' g es _ hg _ ih =>
    refine ih ?_
    have hne : n ≠ g.name := by
      rintro rfl
      rw [hg] at hn
      cases hn
    rw [Lowering.declared, List.lookup_cons, beq_false_of_ne hne]
    exact hn

theorem Performs.functions {k : Nat} {g : Function} (h : s.Performs es s')
    (hg : s.module.functions[k]? = some g) : s'.module.functions[k]? = some g := by
  induction h with
  | nil => exact hg
  | write _ _ ih => exact ih hg
  | declare _ _ _ ih => exact ih (TypeTable.getElem?_push_of_some hg)

theorem Performs.self_eq (h : s.Performs es s') : s'.self = s.self := by
  induction h with
  | nil => rfl
  | write _ _ ih => exact ih
  | declare _ _ _ ih => exact ih

theorem Quiet.lookup {n : String} {c : Nat} (h : s.Quiet s') (hn : s.names.lookup n = some c) :
    s'.names.lookup n = some c := by
  obtain ⟨is, h, -⟩ := h
  exact h.lookup hn

theorem Quiet.knows {x : Operand} (h : s.Quiet s') (hx : s.Knows x) : s'.Knows x := by
  obtain ⟨is, h, -⟩ := h
  exact h.knows hx

theorem Quiet.grounded (h : s.Quiet s') (hs : s.Grounded) : s'.Grounded := by
  obtain ⟨is, h, -⟩ := h
  exact h.grounded hs

theorem knows_of_ne {x : Operand} (h : ∀ n t, x ≠ .named (.temp n) t) : s.Knows x :=
  fun n t hx => absurd hx (h n t)

theorem knows_slot (v : ValueId) (t : LType) : s.Knows (.named (.slot v) t) := by
  intro n t' h
  cases h

def Holds (s : Lowering) (x : Operand) (t : LType) : Prop := s.Knows x ∧ x.type = t

theorem Holds.mono {x : Operand} {t : LType} (h : s.Holds x t) (hq : s.Quiet s') : s'.Holds x t :=
  ⟨hq.knows h.1, h.2⟩

end Lowering

namespace LowerM

open Lowering

variable {s : Lowering} {α : Type}

theorem fail' {t : String} {ok : α → Lowering → Prop} :
    Keeps Quiet (LowerM.fail t : LowerM α) s ok :=
  Keeps.throw' (Std.Refl.refl s)

theorem crash' {ok : α → Lowering → Prop} : Keeps Quiet (LowerM.crash : LowerM α) s ok :=
  Keeps.throw' (Std.Refl.refl s)

theorem quiet_typeOf (r : Rep) :
    Keeps Quiet (typeOf r) s fun t s' => s = s' ∧ LType.ofRep? r = some t := by
  unfold typeOf LType.ofRep? intType
  cases r.cls with
  | void | float | pointer | struct => exact .pure' (Std.Refl.refl s) ⟨rfl, rfl⟩
  | int | uint =>
    dsimp only
    exact .ite' (fun h => .pure' (Std.Refl.refl s) ⟨rfl, if_pos h⟩) fun _ => fail'
  | other n => exact fail'

theorem quiet_repOfValue (f : Func) (v : ValueId) :
    Keeps Quiet (repOfValue f v) s fun r s' => s = s' ∧ ∃ i, f.values[v]? = some i ∧ i.rep = r := by
  unfold repOfValue
  split
  · next i hi => exact .pure' (Std.Refl.refl s) ⟨rfl, i, hi, rfl⟩
  · exact crash'

theorem quiet_repOf (e : Engine) (id : TypeId) :
    Keeps Quiet (repOf e id) s fun r s' => s = s' ∧
      ((e.types.findRep e.target id).run e.layouts : Except Cause Rep × Layout.Cache).1 = .ok r := by
  unfold repOf
  split
  · next r hr => exact .pure' (Std.Refl.refl s) ⟨rfl, hr⟩
  · exact .throw' (Std.Refl.refl s)

/-! ## Instructions -/

theorem noSlot_of_temp {i : Instr} {n : Nat} (h : i.temp? = some n) : i.slot? = none := by
  cases i with
  | slot v t => cases h
  | _ => rfl

theorem quiet_result (hs : s.Grounded) {t : LType} {make : Nat → Instr}
    (htemp : ∀ n, (make n).temp? = some n) (hx : ∀ n, ∀ x ∈ (make n).operands, s.Knows x)
    (ht : ∀ n, (make n).resultType? s.module = some t) (hc : ∀ n, (make n).call? = none) :
    Keeps Quiet (result t make) s fun x s' =>
      s'.Holds x t ∧ x = .named (.temp s.temps) t ∧ s' = s.written (make s.temps) := by
  unfold result
  refine Ends.bind_get (Ends.bind_modify (Ends.bind_modify (Ends.pure' ?_)))
  have haccepts : s.Accepts (make s.temps) :=
    ⟨noSlot_of_temp (htemp _), fun n hn => Option.mem_unique hn (htemp _),
      hx _, fun d c args h => (nomatch h ▸ hc s.temps)⟩
  have heq : ({ s with
      temps := s.temps + 1
      body := { s.body with blocks := s.body.blocks.modify s.current fun b =>
        { b with instrs := b.instrs.push (make s.temps) } } } : Lowering) =
      s.written (make s.temps) := by
    simp [Lowering.written, htemp]
  dsimp only
  rw [heq]
  refine ⟨⟨[make s.temps], .write haccepts (.nil _), by simpa using hc _⟩, ⟨?_, rfl⟩, rfl, rfl⟩
  rintro n t' ⟨⟩
  exact .inr (defines_written hs (htemp _) (ht _))

theorem quiet_convert (hs : s.Grounded) {op : CastOp} {x : Operand} {t : LType}
    (hx : s.Knows x) : Keeps Quiet (convert op x t) s fun y s' => s'.Holds y t :=
  (quiet_result hs (fun _ => rfl) (by simpa [Instr.operands] using hx) (fun _ => rfl)
    fun _ => rfl).mono fun _ _ _ h => h.1

theorem quiet_binary (hs : s.Grounded) {op : BinaryOp} {a b : Operand} (ha : s.Knows a)
    (hb : s.Knows b) : Keeps Quiet (binary op a b) s fun y s' => s'.Holds y a.type :=
  (quiet_result hs (fun _ => rfl) (by simp [Instr.operands, ha, hb]) (fun _ => rfl)
    fun _ => rfl).mono fun _ _ _ h => h.1

theorem quiet_compare (hs : s.Grounded) {p : Predicate} {a b : Operand} (ha : s.Knows a)
    (hb : s.Knows b) : Keeps Quiet (compare p a b) s fun y s' => s'.Holds y (.int 1) := by
  have hresult : Keeps Quiet (result (.int 1) (.compare · p a b)) s fun y s' =>
      s'.Holds y (.int 1) :=
    (quiet_result hs (fun _ => rfl) (by simp [Instr.operands, ha, hb]) (fun _ => rfl)
      fun _ => rfl).mono fun _ _ _ h => h.1
  unfold compare
  split
  · exact .ite' (fun _ => crash') fun _ => hresult
  · exact .ite' (fun _ => crash') fun _ => hresult
  · exact .ite' (fun _ => hresult) fun _ => crash'
  · exact .ite' (fun _ => hresult) fun _ => crash'
  · exact crash'

theorem quiet_element (hs : s.Grounded) {t : LType} {base index : Operand} (hb : s.Knows base)
    (hi : s.Knows index) :
    Keeps Quiet (element t base index) s fun y s' => s'.Holds y (.pointer t) := by
  unfold element
  split
  · exact (quiet_result hs (fun _ => rfl) (by simp [Instr.operands, hb, hi]) (fun _ => rfl)
      fun _ => rfl).mono fun _ _ _ h => h.1
  · exact crash'

theorem accepts_store {x target : Operand} (hx : s.Knows x) (ht : s.Knows target) :
    s.Accepts (.store x target) :=
  ⟨rfl, nofun, by simp [Instr.operands, hx, ht], nofun⟩

theorem quiet_store {x target : Operand} (hx : s.Knows x) (ht : s.Knows target) :
    Keeps Quiet (store x target) s fun _ s' => s' = s.written (.store x target) := by
  unfold store
  refine .ite' (fun _ => Ends.modify' ⟨⟨[.store x target], ?_, by simp [Instr.call?]⟩, rfl⟩)
    fun _ => crash'
  exact .write (accepts_store hx ht) (.nil _)

/-! ## Values -/

theorem quiet_constant (v : ValueInfo) :
    Keeps Quiet (constant v) s fun x s' => s = s' ∧ ∃ t, LType.ofRep? v.rep = some t ∧ s.Holds x t := by
  unfold constant
  refine .bind' (quiet_typeOf _) ?_
  rintro t _ - ⟨rfl, ht⟩
  split
  · exact .pure' (Std.Refl.refl s) ⟨rfl, _, ht, knows_of_ne nofun, rfl⟩
  · exact .pure' (Std.Refl.refl s) ⟨rfl, _, ht, knows_of_ne nofun, rfl⟩
  · exact .pure' (Std.Refl.refl s) ⟨rfl, _, ht, knows_of_ne nofun, rfl⟩
  · next hc =>
    have haddress : LType.ofRep? v.rep = some .address := by
      unfold LType.ofRep?
      rw [hc]
    refine .pure' (Std.Refl.refl s) ⟨rfl, .address, haddress, ?_⟩
    split
    · exact ⟨knows_of_ne nofun, rfl⟩
    · exact ⟨knows_of_ne nofun, rfl⟩
  · exact fail'

theorem quiet_slotOf (f : Func) (v : ValueId) :
    Keeps Quiet (slotOf f v) s fun p s' => s = s' ∧ (∃ i, f.values[v]? = some i ∧ hasSlot i = true ∧
      LType.ofRep? i.rep = some p.1) ∧ p.2 = .named (.slot v) (.pointer p.1) := by
  unfold slotOf
  split
  · next i hi =>
    refine .ite' (fun hslot => ?_) fun _ => fail'
    refine .bind' (quiet_typeOf _) ?_
    rintro t _ - ⟨rfl, ht⟩
    refine .pure' (Std.Refl.refl s) ⟨rfl, ⟨i, ?_, hslot, ht⟩, rfl⟩
    split at hi
    · cases hi
    · exact hi
  · exact fail'

theorem quiet_operand (hs : s.Grounded) (f : Func) (v : ValueId) :
    Keeps Quiet (operand f v) s fun x s' => ∃ i t, f.values[v]? = some i ∧
      LType.ofRep? i.rep = some t ∧ s'.Holds x t := by
  unfold operand
  split
  · exact fail'
  · next i hi =>
    have hi' : f.values[v]? = some i := by
      split at hi
      · cases hi
      · exact hi
    refine .ite' (fun _ => ?_) fun _ => ?_
    · refine (quiet_constant i).mono ?_
      rintro x _ - ⟨rfl, t, ht, hx⟩
      exact ⟨i, t, hi', ht, hx⟩
    · refine .bind' (quiet_slotOf f v) ?_
      rintro ⟨t, slot⟩ _ - ⟨rfl, ⟨j, hj, -, ht⟩, hslot⟩
      obtain rfl := Option.mem_unique hi' hj
      dsimp only at ht hslot ⊢
      subst hslot
      refine (quiet_result hs (fun _ => rfl) ?_ (fun _ => rfl) fun _ => rfl).mono
        fun x s' _ h => ⟨i, t, hi', ht, h.1⟩
      simpa [Instr.operands] using knows_slot v _

theorem quiet_set {x : Operand} (hx : s.Knows x) (f : Func) (v : ValueId) :
    Keeps Quiet (set f v x) s fun _ s' => ∃ target, s' = s.written (.store x target) := by
  unfold set
  refine .bind' (quiet_slotOf f v) ?_
  rintro ⟨t, slot⟩ _ - ⟨rfl, -, hslot⟩
  dsimp only at hslot ⊢
  subst hslot
  exact (quiet_store hx (knows_slot v _)).mono fun _ _ _ h => ⟨_, h⟩

/-- A conversion of an operand of the type of one representation has the type
of the other. -/
theorem quiet_cast (hs : s.Grounded) {ptrInt : LType} {x : Operand} {source target : Rep}
    (hx : s.Knows x) :
    Keeps Quiet (cast ptrInt x source target) s fun y s' => s'.Knows y ∧
      (LType.ofRep? source = some x.type → LType.ofRep? target = some y.type) := by
  unfold cast
  refine .ite' (fun h => .pure' (Std.Refl.refl s) ⟨hx, fun ht => h ▸ ht⟩) fun _ => ?_
  refine .bind' (quiet_typeOf _) ?_
  rintro t _ - ⟨rfl, ht⟩
  refine .bind' (quiet_typeOf _) ?_
  rintro u _ - ⟨rfl, hu⟩
  have hone : ∀ {s' : Lowering} {y : Operand} (op), s'.Grounded → s'.Knows y →
      Keeps Quiet (convert op y u) s' fun y s' => s'.Knows y ∧
        (LType.ofRep? source = some x.type → LType.ofRep? target = some y.type) :=
    fun op hs' hy => (quiet_convert hs' hy).mono fun y s' _ h => ⟨h.1, fun _ => h.2 ▸ hu⟩
  have htwo : ∀ op op', Keeps Quiet (do convert op' (← convert op x ptrInt) u) s fun y s' =>
      s'.Knows y ∧ (LType.ofRep? source = some x.type → LType.ofRep? target = some y.type) :=
    fun op op' => .bind' (quiet_convert hs hx) fun y s' hq hy => hone op' (hq.grounded hs) hy.1
  refine .ite' (fun h => .pure' (Std.Refl.refl s) ⟨hx, fun ht' => ?_⟩) fun _ => ?_
  · rw [hu, ← h, ← ht, ht']
  refine .ite' (fun _ => fail') fun _ => ?_
  refine .ite' (fun _ => hone _ hs hx) fun _ => ?_
  refine .ite' (fun _ => .ite' (fun _ => htwo _ _) fun _ => hone _ hs hx) fun _ => ?_
  refine .ite' (fun _ => .ite' (fun _ => htwo _ _) fun _ => hone _ hs hx) fun _ => ?_
  refine .ite' (fun _ => hone _ hs hx) fun _ => ?_
  refine .ite' (fun _ => hone _ hs hx) fun _ => ?_
  exact .ite' (fun _ => hone _ hs hx) fun _ => hone _ hs hx

/-- What is read of a value as a representation has the type of the
representation. -/
theorem quiet_operandAs (hs : s.Grounded) (ptrInt : LType) (f : Func) (v : ValueId) (r : Rep) :
    Keeps Quiet (operandAs ptrInt f v r) s fun x s' => ∃ t, LType.ofRep? r = some t ∧ s'.Holds x t := by
  unfold operandAs
  refine .bind' (quiet_operand hs f v) ?_
  rintro x s₁ hq ⟨i, t, hi, ht, hx⟩
  refine .bind' (quiet_repOfValue f v) ?_
  rintro own _ - ⟨rfl, j, hj, rfl⟩
  obtain rfl := Option.mem_unique hi hj
  refine (quiet_cast (hq.grounded hs) hx.1).mono fun y s' _ ⟨hy, htype⟩ => ?_
  exact ⟨y.type, htype (hx.2 ▸ ht), hy, rfl⟩

theorem quiet_truth (hs : s.Grounded) {x : Operand} (hx : s.Knows x) (r : Rep) (want : Bool) :
    Keeps Quiet (truth x r want) s fun c s' => s'.Holds c (.int 1) := by
  unfold truth
  refine .bind' (quiet_typeOf _) ?_
  rintro t _ - ⟨rfl, -⟩
  split
  · exact quiet_compare hs hx (knows_of_ne nofun)
  · exact quiet_compare hs hx (knows_of_ne nofun)
  · exact quiet_compare hs hx (knows_of_ne nofun)
  · exact quiet_compare hs hx (knows_of_ne nofun)
  · exact fail'

theorem quiet_addressAt (hs : s.Grounded) {base : Operand} (hb : s.Knows base) (offset : Int)
    (t : LType) : Keeps Quiet (addressAt base offset t) s fun p s' => s'.Holds p (.pointer t) := by
  unfold addressAt
  refine .ite' (fun _ => quiet_convert hs hb) fun _ => ?_
  refine .bind' (quiet_element hs hb (knows_of_ne nofun)) fun p s' hq hp => ?_
  exact quiet_convert (hq.grounded hs) hp.1

/-! ## Instructions of the function -/

theorem ends_after {β : Type} {act : LowerM α} {k : α → LowerM β} {known : α → Lowering → Prop}
    {after : β → Lowering → Prop} (h : Keeps Quiet act s known)
    (hk : ∀ a s', s.Quiet s' → known a s' → Ends (k a) s' after fun _ _ => True) :
    Ends (act >>= k) s after fun _ _ => True :=
  Ends.bind' (Ends.mono h (fun _ _ h => h) fun _ _ _ => trivial) fun a s' h => hk a s' h.1 h.2

/-- A run that writes something if it comes to its end. `post` says what it
declares and calls. -/
def Emits (post : List Function → List (Nat × List LType) → Lowering → Prop) (act : LowerM α)
    (s : Lowering) : Prop :=
  Ends act s (fun _ s' => ∃ gs calls, s.Makes gs calls s' ∧ post gs calls s') fun _ _ => True

def Silent (gs : List Function) (calls : List (Nat × List LType)) (_ : Lowering) : Prop :=
  gs = [] ∧ calls = []

namespace Emits

variable {β : Type} {act : LowerM α} {k : α → LowerM β} {known : α → Lowering → Prop}
  {post : List Function → List (Nat × List LType) → Lowering → Prop}

theorem bind' (h : Keeps Quiet act s known)
    (hk : ∀ a s', s.Quiet s' → known a s' → Emits post (k a) s') : Emits post (act >>= k) s := by
  refine ends_after h fun a s' hq ha => ?_
  refine (hk a s' hq ha).imp ?_
  rintro _ s'' ⟨gs, calls, hm, hpost⟩
  exact ⟨gs, calls, hm.after hq, hpost⟩

theorem of_throw {h : Halt Problem} : Emits post (throw h : LowerM α) s := Ends.throw' trivial

theorem ite' {c : Prop} [Decidable c] {other : LowerM α} (hpos : c → Emits post act s)
    (hneg : ¬ c → Emits post other s) : Emits post (if c then act else other) s :=
  Ends.ite' hpos hneg

end Emits

theorem emits_store {x target : Operand} (hx : s.Knows x) (ht : s.Knows target) :
    Emits Silent (store x target) s := by
  refine Ends.mono (quiet_store hx ht) ?_ fun _ _ _ => trivial
  rintro _ _ ⟨-, rfl⟩
  exact ⟨[], [], (accepts_store hx ht).makes, rfl, rfl⟩

theorem emits_set {x : Operand} (hx : s.Knows x) (f : Func) (v : ValueId) :
    Emits Silent (set f v x) s := by
  unfold set
  refine .bind' (quiet_slotOf f v) ?_
  rintro ⟨t, slot⟩ _ - ⟨rfl, -, hslot⟩
  dsimp only at hslot ⊢
  subst hslot
  exact emits_store hx (knows_slot v _)

theorem emits_setTruth (hs : s.Grounded) {c : Operand} (hc : s.Knows c) (f : Func) (v : ValueId) :
    Emits Silent (setTruth f v c) s := by
  unfold setTruth
  refine .bind' (quiet_repOfValue f v) ?_
  rintro r _ - ⟨rfl, -⟩
  refine .bind' (quiet_typeOf r) ?_
  rintro t _ - ⟨rfl, -⟩
  exact .bind' (quiet_convert hs hc) fun y s' _ hy => emits_set hy.1 f v

theorem emits_castSet (hs : s.Grounded) {ptrInt : LType} {x : Operand} {source target : Rep}
    (hx : s.Knows x) (f : Func) (v : ValueId) :
    Emits Silent (do set f v (← cast ptrInt x source target)) s :=
  .bind' (quiet_cast hs hx) fun _ _ _ ⟨hy, _⟩ => emits_set hy f v

theorem emits_castSetValue (hs : s.Grounded) {ptrInt : LType} {x : Operand} {source : Rep}
    (hx : s.Knows x) (f : Func) (v : ValueId) :
    Emits Silent (do set f v (← cast ptrInt x source (← repOfValue f v))) s := by
  refine .bind' (quiet_repOfValue f v) ?_
  rintro r _ - ⟨rfl, -⟩
  exact emits_castSet hs hx f v

theorem emits_operands {post : List Function → List (Nat × List LType) → Lowering → Prop} (hs : s.Grounded) {ptrInt : LType}
    {f : Func} {a b : ValueId} {r : Rep} {k : Operand → Operand → LowerM α}
    (hk : ∀ x y s' t, s'.Grounded → LType.ofRep? r = some t → s.Quiet s' → s'.Holds x t →
      s'.Holds y t → Emits post (k x y) s') :
    Emits post (do k (← operandAs ptrInt f a r) (← operandAs ptrInt f b r)) s := by
  refine .bind' (quiet_operandAs hs ptrInt f a r) fun x s₁ hq₁ ⟨t, ht, hx⟩ => ?_
  refine .bind' (quiet_operandAs (hq₁.grounded hs) ptrInt f b r) fun y s₂ hq₂ ⟨t', ht', hy⟩ => ?_
  obtain rfl := Option.mem_unique ht ht'
  exact hk x y s₂ t (hq₂.grounded (hq₁.grounded hs)) ht (Trans.trans hq₁ hq₂) (hx.mono hq₂) hy

theorem quiet_integerOp (hs : s.Grounded) {op : Opcode} (hop : op ≠ .pow) {r : Rep} {t : LType}
    {a b : Operand} (ha : s.Holds a t) (hb : s.Holds b t) :
    Keeps Quiet (integerOp op r a b) s fun y s' => s'.Holds y t := by
  have hone : ∀ o, Keeps Quiet (binary o a b) s fun y s' => s'.Holds y t := fun o =>
    ha.2 ▸ quiet_binary hs ha.1 hb.1
  unfold integerOp
  dsimp only
  split
  · exact hone _
  · exact hone _
  · exact hone _
  · exact hone _
  · exact hone _
  · exact hone _
  · exact hone _
  · exact hone _
  · exact absurd rfl hop
  · refine .bind' (quiet_typeOf r) ?_
    rintro u _ - ⟨rfl, -⟩
    split
    · refine .bind' (quiet_binary hs hb.1 (knows_of_ne nofun)) fun n s' hq hn => ?_
      have ha' := ha.mono hq
      exact ha'.2 ▸ quiet_binary (hq.grounded hs) ha'.1 hn.1
    · exact crash'
  · refine .bind' (quiet_typeOf r) ?_
    rintro u _ - ⟨rfl, -⟩
    split
    · refine .bind' (quiet_binary hs hb.1 (knows_of_ne nofun)) fun n s' hq hn => ?_
      have ha' := ha.mono hq
      exact ha'.2 ▸ quiet_binary (hq.grounded hs) ha'.1 hn.1
    · exact crash'
  · exact fail'

theorem quiet_floatOp (hs : s.Grounded) {op : Opcode} (hop : op ≠ .pow) {r : Rep} {t : LType}
    {a b : Operand} (ha : s.Holds a t) (hb : s.Holds b t) :
    Keeps Quiet (floatOp op r a b) s fun y s' => s'.Holds y t := by
  have hone : ∀ o, Keeps Quiet (binary o a b) s fun y s' => s'.Holds y t := fun o =>
    ha.2 ▸ quiet_binary hs ha.1 hb.1
  unfold floatOp
  split
  · exact hone _
  · exact hone _
  · exact hone _
  · exact hone _
  · exact hone _
  · exact absurd rfl hop
  · exact fail'

theorem emits_lowerBinary (hs : s.Grounded) (sc : Scene) {i : Insn} (hop : i.op ≠ .pow) :
    Emits Silent (lowerBinary sc i) s := by
  unfold lowerBinary
  extract_lets r
  refine emits_operands hs fun x y s₁ t hs₁ ht _ hx hy => ?_
  have hset : ∀ z s₂, s₁.Quiet s₂ → s₂.Holds z t →
      Emits Silent (do set sc.func i.dest (← cast sc.ptrInt z r i.rep)) s₂ :=
    fun z s₂ hq hz => emits_castSet (hq.grounded hs₁) hz.1 _ _
  refine .ite' (fun _ => .bind' (quiet_floatOp hs₁ hop hx hy) hset) fun _ => ?_
  exact .bind' (quiet_integerOp hs₁ hop hx hy) hset

theorem emits_lowerCompare (hs : s.Grounded) (sc : Scene) (i : Insn) :
    Emits Silent (lowerCompare sc i) s := by
  unfold lowerCompare
  refine emits_operands hs fun x y s₁ t hs₁ _ _ hx hy => ?_
  exact .bind' (quiet_compare hs₁ hx.1 hy.1) fun c s₂ hq hc =>
    emits_setTruth (hq.grounded hs₁) hc.1 _ _

theorem emits_lowerElement (hs : s.Grounded) (sc : Scene) (i : Insn) :
    Emits Silent (lowerElement sc i) s := by
  unfold lowerElement
  refine .bind' (quiet_operand hs _ _) fun base s₁ hq₁ ⟨_, _, _, _, hbase⟩ => ?_
  have hs₁ := hq₁.grounded hs
  refine .bind' (quiet_operandAs hs₁ _ _ _ _) fun index s₂ hq₂ ⟨_, _, hindex⟩ => ?_
  have hs₂ := hq₂.grounded hs₁
  refine .bind' (quiet_typeOf i.rep) ?_
  rintro t _ - ⟨rfl, ht⟩
  refine .bind' (quiet_convert hs₂ (hq₂.knows hbase.1)) fun q s₃ hq₃ hqx => ?_
  have hs₃ := hq₃.grounded hs₂
  refine .bind' (quiet_element hs₃ hqx.1 (hq₃.knows hindex.1)) fun p s₄ hq₄ hp => ?_
  have hs₄ := hq₄.grounded hs₃
  refine .ite' (fun _ => ?_) fun _ => ?_
  · refine .bind' (quiet_result hs₄ (fun _ => rfl) (by simpa [Instr.operands] using hp.1)
      (fun _ => rfl) fun _ => rfl) fun x s₅ hq₅ hx => ?_
    exact emits_castSetValue (hq₅.grounded hs₄) hx.1.1 _ _
  · split
    · refine .bind' (quiet_operandAs hs₄ _ _ _ _) fun x s₅ hq₅ ⟨_, _, hx⟩ => ?_
      exact emits_store hx.1 (hq₅.knows hp.1)
    · exact .of_throw

def isStraight : Opcode → Bool
  | .nop | .label | .branch | .branchIf | .branchIfNot | .ret | .call | .callNative | .math | .pow =>
    false
  | _ => true

theorem emits_lowerInsn (hs : s.Grounded) (sc : Scene) (pc : Nat) {i : Insn}
    (hop : isStraight i.op = true) : Emits Silent (lowerInsn sc pc i) s := by
  unfold lowerInsn
  refine .ite' (fun _ => ?_) fun hbinary => .ite' (fun _ => emits_lowerCompare hs sc i) fun hcompare => ?_
  · refine emits_lowerBinary hs sc fun h => ?_
    rw [h] at hop
    cases hop
  extract_lets f
  split
  case h_2 | h_3 =>
    refine .bind' (quiet_operandAs hs _ _ _ _) fun a s₁ hq₁ ⟨t, ht, ha⟩ => ?_
    have hs₁ := hq₁.grounded hs
    refine .bind' (quiet_typeOf i.rep) ?_
    rintro u _ - ⟨rfl, hu⟩
    obtain rfl := Option.mem_unique ht hu
    split
    · refine .bind' (quiet_result hs₁ (fun _ => rfl) (by simpa [Instr.operands] using ha.1)
        (fun _ => congrArg some ha.2) fun _ => rfl) fun y s₂ _ hy => ?_
      exact emits_set hy.1.1 f _
    · exact .bind' (quiet_binary hs₁ (knows_of_ne nofun) ha.1) fun y _ _ hy => emits_set hy.1 f _
    · exact .bind' (quiet_binary hs₁ ha.1 (knows_of_ne nofun)) fun y _ _ hy => emits_set hy.1 f _
    · exact .of_throw
  case h_4 | h_5 =>
    refine .bind' (quiet_operand hs f i.a) fun a s₁ hq₁ ⟨_, _, _, _, ha⟩ => ?_
    have hs₁ := hq₁.grounded hs
    refine .bind' (quiet_repOfValue f i.a) ?_
    rintro r _ - ⟨rfl, -⟩
    exact .bind' (quiet_truth hs₁ ha.1 r _) fun c s₂ hq₂ hc => emits_setTruth (hq₂.grounded hs₁) hc.1 _ _
  case h_6 | h_7 =>
    refine .bind' (quiet_repOfValue f i.dest) ?_
    rintro r _ - ⟨rfl, -⟩
    exact .bind' (quiet_operandAs hs _ _ _ _) fun x _ _ ⟨_, _, hx⟩ => emits_set hx.1 f _
  case h_8 =>
    refine .bind' (quiet_slotOf f i.a) ?_
    rintro ⟨t, slot⟩ _ - ⟨rfl, -, hslot⟩
    dsimp only at hslot ⊢
    subst hslot
    exact .bind' (quiet_convert hs (knows_slot _ _)) fun y _ _ hy => emits_set hy.1 f _
  case h_9 =>
    refine .bind' (quiet_operand hs f i.a) fun base s₁ hq₁ ⟨_, _, _, _, hbase⟩ => ?_
    have hs₁ := hq₁.grounded hs
    refine .bind' (quiet_typeOf i.rep) ?_
    rintro t _ - ⟨rfl, ht⟩
    refine .bind' (quiet_addressAt hs₁ hbase.1 _ _) fun p s₂ hq₂ hp => ?_
    have hs₂ := hq₂.grounded hs₁
    refine .bind' (quiet_result hs₂ (fun _ => rfl) (by simpa [Instr.operands] using hp.1)
      (fun _ => rfl) fun _ => rfl) fun x s₃ hq₃ hx => ?_
    exact emits_castSetValue (hq₃.grounded hs₂) hx.1.1 _ _
  case h_10 =>
    refine .bind' (quiet_operand hs f i.a) fun base s₁ hq₁ ⟨_, _, _, _, hbase⟩ => ?_
    have hs₁ := hq₁.grounded hs
    refine .bind' (quiet_typeOf i.rep) ?_
    rintro t _ - ⟨rfl, -⟩
    refine .bind' (quiet_operandAs hs₁ _ _ _ _) fun x s₂ hq₂ ⟨_, _, hx⟩ => ?_
    have hs₂ := hq₂.grounded hs₁
    exact .bind' (quiet_addressAt hs₂ (hq₂.knows hbase.1) _ _) fun p s₃ hq₃ hp =>
      emits_store (hq₃.knows hx.1) hp.1
  case h_11 | h_12 => exact emits_lowerElement hs sc i
  case h_13 =>
    refine .bind' (quiet_operandAs hs _ _ _ _) fun n s₁ hq₁ ⟨_, _, hn⟩ => ?_
    refine .bind' (quiet_result (hq₁.grounded hs) (fun _ => rfl)
      (by simpa [Instr.operands] using hn.1) (fun _ => rfl) fun _ => rfl) fun y _ _ hy => ?_
    exact emits_set hy.1.1 f _
  case h_22 => exact .of_throw
  all_goals
    next h =>
    rw [h] at hop
    cases hop

end LowerM

end TypedIR.Llvm
