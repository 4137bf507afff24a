import TypedIR.Proofs.ControlFlow
import TypedIR.Proofs.FoundedTables
import TypedIR.Proofs.HashConsing

/-
  What emitters do to the function under construction.

  An emitter adds values and labels, marks values, places labels at the end of
  the stream and appends instructions, and never appends a return without an
  operand to a function that has a result. That is all most proofs about built
  functions need (`Func.Edits`). Along the way it may add types, and what types and
  values rest on stays as it was (`Bench.Edits`).
-/

namespace TypedIR

namespace Func

/-- The smallest changes of a function. -/
inductive Edit (f : Func) : Func → Prop
  | value (v : ValueInfo) : Edit f (f.addValue v).2
  | mark (v : ValueId) : Edit f (f.mark v)
  | label : Edit f f.addLabel.2
  | place (l : LabelId) : Edit f (f.place l)
  | push {i : Insn} (hi : i.op = .ret → i.a = 0 → f.ret.cls = .void) : Edit f (f.push i)

def Edits : Func → Func → Prop := Relation.ReflTransGen Edit

def ReturnsOperands (f : Func) : Prop :=
  ∀ i ∈ f.insns, i.op = .ret → i.a = 0 → f.ret.cls = .void

variable {f f' : Func}

theorem Edit.same (h : f.Edit f') : f'.id = f.id ∧ f'.ret = f.ret ∧ f'.compiled = f.compiled := by
  cases h <;> exact ⟨rfl, rfl, rfl⟩

theorem LabelsInside.push (h : f.LabelsInside) (i : Insn) : (f.push i).LabelsInside := by
  intro l pos hpos
  have hle := h l pos hpos
  simp only [Func.push, Array.size_push]
  omega

theorem LabelsInside.edit (h : f.LabelsInside) (he : f.Edit f') : f'.LabelsInside := by
  cases he with
  | value v => exact h
  | mark v => exact h
  | label =>
    intro l pos hpos
    have hpos : (f.labels.push (-1))[l]? = some pos := hpos
    rw [Array.getElem?_push] at hpos
    split at hpos
    · obtain rfl := Option.some.inj hpos
      exact Int.le_trans (by decide) (Int.natCast_nonneg f.insns.size)
    · exact h l pos hpos
  | place k =>
    refine LabelsInside.push (fun l pos hpos => ?_) _
    have hpos : (f.labels.setIfInBounds k f.insns.size)[l]? = some pos := hpos
    rw [Array.getElem?_setIfInBounds] at hpos
    split at hpos
    · split at hpos
      · obtain rfl := Option.some.inj hpos
        exact Int.le_refl _
      · cases hpos
    · exact h l pos hpos
  | push => exact h.push _

theorem ReturnsOperands.push (h : f.ReturnsOperands) {i : Insn}
    (hi : i.op = .ret → i.a = 0 → f.ret.cls = .void) : (f.push i).ReturnsOperands := by
  intro j hj
  rcases Array.mem_push.mp hj with hj | rfl
  · exact h j hj
  · exact hi

theorem ReturnsOperands.edit (h : f.ReturnsOperands) (he : f.Edit f') : f'.ReturnsOperands := by
  cases he with
  | value v => exact h
  | mark v => exact h
  | label => exact h
  | place l =>
    have hplaced : ({ f with labels := f.labels.setIfInBounds l f.insns.size } : Func)
      |>.ReturnsOperands := h
    exact hplaced.push nofun
  | push hi => exact h.push hi

namespace Edits

theorem refl (f : Func) : f.Edits f := Relation.ReflTransGen.refl

theorem of_edit (h : f.Edit f') : f.Edits f' := .single h

theorem trans {f'' : Func} (h : f.Edits f') (h' : f'.Edits f'') : f.Edits f'' :=
  Relation.ReflTransGen.trans h h'

theorem same (h : f.Edits f') : f'.id = f.id ∧ f'.ret = f.ret ∧ f'.compiled = f.compiled := by
  induction h with
  | refl => exact ⟨rfl, rfl, rfl⟩
  | tail _ he ih =>
    obtain ⟨hid, hret, hcompiled⟩ := he.same
    exact ⟨hid.trans ih.1, hret.trans ih.2.1, hcompiled.trans ih.2.2⟩

theorem alive (h : f.Edits f') : f'.destroyed = f.destroyed := by
  induction h with
  | refl => rfl
  | tail _ he ih => cases he <;> exact ih

theorem ctx (h : f.Edits f') : f'.ctx = f.ctx := by
  induction h with
  | refl => rfl
  | tail _ he ih => cases he <;> exact ih

theorem labelsInside (h : f.Edits f') (hf : f.LabelsInside) : f'.LabelsInside := by
  induction h with
  | refl => exact hf
  | tail _ he ih => exact ih.edit he

theorem returnsOperands (h : f.Edits f') (hf : f.ReturnsOperands) : f'.ReturnsOperands := by
  induction h with
  | refl => exact hf
  | tail _ he ih => exact ih.edit he

end Edits

end Func

/-- A run of an emitter edits the function of the bench, and the types that it adds are
kept apart from all others, are no integers and rest on what is there. -/
structure Bench.Edits (b b' : Bench) : Prop where
  func : b.func.Edits b'.func
  keyed : b.types.Keyed → b'.types.Keyed
  integers : b.types.IntegersFrom b'.types
  rests : b.Rests b'

instance : Std.Refl Bench.Edits := ⟨fun b => ⟨.refl b.func, id, .refl b.types, Std.Refl.refl b⟩⟩

instance : Trans Bench.Edits Bench.Edits Bench.Edits :=
  ⟨fun h h' => ⟨h.func.trans h'.func, h'.keyed ∘ h.keyed, h.integers.trans h'.integers,
    Trans.trans h.rests h'.rests⟩⟩

theorem Bench.Edits.of_edit {b : Bench} {f : Func} {notes : Array Trace.Note}
    (h : b.func.Edit f) (hk : b.Founded → f.OfTypes b.tables.LaidOut) :
    b.Edits { b with func := f, notes } :=
  ⟨.of_edit h, id, .refl b.types, .of_func hk⟩

/-- The function stays in its context, and the types that are added are kept apart from
all others, are no integers and rest on what is there. -/
structure Bench.InPlace (b b' : Bench) : Prop where
  ctx : b'.func.ctx = b.func.ctx
  keyed : b.types.Keyed → b'.types.Keyed
  integers : b.types.IntegersFrom b'.types
  rests : b.Rests b'

theorem Bench.Edits.inPlace {b b' : Bench} (h : b.Edits b') : b.InPlace b' :=
  ⟨h.func.ctx, h.keyed, h.integers, h.rests⟩

/-- Nothing is different but what is remembered of layouts. -/
structure Bench.Consults (b b' : Bench) : Prop where
  target : b'.target = b.target
  types : b'.types = b.types
  func : b'.func = b.func
  rests : b.Rests b'

instance : Std.Refl Bench.Consults := ⟨fun b => ⟨rfl, rfl, rfl, Std.Refl.refl b⟩⟩

instance : Trans Bench.Consults Bench.Consults Bench.Consults :=
  ⟨fun h h' => ⟨h'.target.trans h.target, h'.types.trans h.types, h'.func.trans h.func,
    Trans.trans h.rests h'.rests⟩⟩

theorem Bench.Consults.edits {b b' : Bench} (h : b.Consults b') : b.Edits b' := by
  refine ⟨?_, ?_, ?_, h.rests⟩
  · rw [h.func]
    exact .refl b.func
  · rw [h.types]
    exact id
  · rw [h.types]
    exact .refl b.types

namespace Emit

variable {α β : Type}

/-! ### Questions -/

theorem consults_fail (c : Cause) : Leaves Bench.Consults (fail c : EmitM α) :=
  .bind' .get' fun _ => .throw' _

theorem consults_typeText (id : TypeId) : Leaves Bench.Consults (typeText id) :=
  .bind' .get' fun _ => .pure' _

theorem consults_failText {c : String → Cause} (x : TypeId) :
    Leaves Bench.Consults (do fail (c (← typeText x)) : EmitM α) :=
  .bind' (consults_typeText x) fun _ => consults_fail _

theorem consults_failTexts {c : String → String → Cause} (x y : TypeId) :
    Leaves Bench.Consults (do fail (c (← typeText x) (← typeText y)) : EmitM α) :=
  .bind' (consults_typeText x) fun _ => consults_failText y

theorem consults_layoutOf (id : TypeId) : Leaves Bench.Consults (layoutOf id) :=
  .bind_get fun b => ⟨rfl, rfl, rfl, b.rests_asked id⟩

theorem ends_repOf (id : TypeId) (b : Bench) :
    Ends (repOf id) b (fun _ b' => b.Consults b' ∧ b'.tables.LaidOut id)
      fun _ => b.Consults := by
  refine .bind_get ?_
  have hrests := b.rests_findRep id
  have hlaid : ∀ r, ((b.types.findRep b.target id).run b.layouts).1 = .ok r →
      (Tables.mk b.target b.types ((b.types.findRep b.target id).run b.layouts).2).LaidOut id :=
    fun _ h => TypeTable.laidOut_of_findRep h
  revert hrests hlaid
  generalize (b.types.findRep b.target id).run b.layouts = answered
  obtain ⟨c | r, layouts⟩ := answered <;> intro hrests hlaid
  · exact .bind_set (.throw' ⟨rfl, rfl, rfl, hrests⟩)
  · exact .bind_set (.pure' ⟨⟨rfl, rfl, rfl, hrests⟩, hlaid r rfl⟩)

theorem consults_repOf (id : TypeId) : Leaves Bench.Consults (repOf id) :=
  fun b => ((ends_repOf id b).imp fun _ _ h => h.1).state

theorem consults_value (v : ValueId) : Leaves Bench.Consults (value v) := by
  refine .bind' .get' fun b => ?_
  cases b.func.value? v with
  | some info => exact .pure' info
  | none => exact consults_fail _

theorem consults_knownLabel (l : LabelId) : Leaves Bench.Consults (knownLabel l) := by
  refine .bind' .get' fun b => ?_
  cases b.func.label? l with
  | some pos => exact .pure' pos
  | none => exact consults_fail _

theorem consults_numeric? (type : TypeId) : Leaves Bench.Consults (numeric? type) := by
  refine .bind' .get' fun b => ?_
  dsimp only
  cases b.types.find? (b.types.underlying type) with
  | none => exact .pure' _
  | some d => exact .ite' (.bind' (consults_layoutOf _) fun _ => .pure' _) (.pure' _)

theorem consults_promoteUnary? (type : TypeId) : Leaves Bench.Consults (promoteUnary? type) := by
  refine .bind' (consults_numeric? type) fun n => ?_
  cases n with
  | none => exact .pure' _
  | some n => exact .pure' _

theorem consults_commonType (op : Opcode) (x y : TypeId) : Leaves Bench.Consults (commonType op x y) := by
  refine .bind' (consults_numeric? x) fun nx => .bind' (consults_numeric? y) fun ny => ?_
  rcases nx with _ | nx
  · exact consults_failTexts x y
  rcases ny with _ | ny
  · exact consults_failTexts x y
  refine .ite' (.ite' (.pure' _) ?_) ?_
  · exact .ite' (.bind' (consults_fail _) fun _ => .pure' _) (.pure' _)
  refine .ite' (.pure' _) (.ite' (.pure' _) (.ite' (.pure' _) (.ite' (.pure' _) ?_)))
  exact .bind' (consults_numeric? _) fun _ => .bind' (consults_numeric? _) fun _ => .pure' _

/-! ### Edits -/

theorem edits_fail (c : Cause) : Leaves Bench.Edits (fail c : EmitM α) :=
  (consults_fail c).mono fun _ _ => Bench.Consults.edits

theorem edits_typeText (id : TypeId) : Leaves Bench.Edits (typeText id) :=
  (consults_typeText id).mono fun _ _ => Bench.Consults.edits

theorem edits_failText {c : String → Cause} (x : TypeId) :
    Leaves Bench.Edits (do fail (c (← typeText x)) : EmitM α) :=
  (consults_failText x).mono fun _ _ => Bench.Consults.edits

theorem edits_failTexts {c : String → String → Cause} (x y : TypeId) :
    Leaves Bench.Edits (do fail (c (← typeText x) (← typeText y)) : EmitM α) :=
  (consults_failTexts x y).mono fun _ _ => Bench.Consults.edits

theorem edits_repOf (id : TypeId) : Leaves Bench.Edits (repOf id) :=
  (consults_repOf id).mono fun _ _ => Bench.Consults.edits

theorem edits_value (v : ValueId) : Leaves Bench.Edits (value v) :=
  (consults_value v).mono fun _ _ => Bench.Consults.edits

theorem edits_knownLabel (l : LabelId) : Leaves Bench.Edits (knownLabel l) :=
  (consults_knownLabel l).mono fun _ _ => Bench.Consults.edits

theorem edits_numeric? (type : TypeId) : Leaves Bench.Edits (numeric? type) :=
  (consults_numeric? type).mono fun _ _ => Bench.Consults.edits

theorem edits_promoteUnary? (type : TypeId) : Leaves Bench.Edits (promoteUnary? type) :=
  (consults_promoteUnary? type).mono fun _ _ => Bench.Consults.edits

theorem edits_commonType (op : Opcode) (x y : TypeId) : Leaves Bench.Edits (commonType op x y) :=
  (consults_commonType op x y).mono fun _ _ => Bench.Consults.edits

theorem ends_addValue {v : ValueInfo} {b : Bench} (hv : b.tables.LaidOut v.type) :
    Ends (addValue v) b (fun _ => b.Edits) fun _ => b.Edits :=
  .bind_get (.bind_set (.pure' (.of_edit (.value v) fun hb => hb.values.addValue hv)))

/-- Walks over the representation of a type: values of the type can be added then. -/
theorem edits_withRep (type : TypeId) {k : Rep → EmitM α}
    (h : ∀ r b, b.tables.LaidOut type →
      Ends (k r) b (fun _ => b.Edits) fun _ => b.Edits) :
    Leaves Bench.Edits (repOf type >>= k) := by
  intro b
  refine Ends.state (.bind' ((ends_repOf type b).imp_stop fun _ _ h => h.edits) ?_)
  intro r b₁ ⟨h₁, hlaid⟩
  exact (h r b₁ hlaid).mono (fun _ _ h => Trans.trans h₁.edits h) fun _ _ h => Trans.trans h₁.edits h

theorem edits_temp (type : TypeId) : Leaves Bench.Edits (temp type) :=
  edits_withRep type fun _ _ hlaid => ends_addValue hlaid

theorem edits_push {i : Insn} (hi : i.op ≠ .ret) : Leaves Bench.Edits (push i) :=
  .modify' fun _ => .of_edit (.push fun h => absurd h hi) fun hb => hb.values.congr rfl

theorem edits_compute (type : TypeId) {g : ValueId → Insn} (hg : ∀ dest, (g dest).op ≠ .ret) :
    Leaves Bench.Edits (do
      let dest ← temp type
      push (g dest)
      pure dest) :=
  .bind' (edits_temp type) fun dest => .bind' (edits_push (hg dest)) fun _ => .pure' dest

theorem edits_coerce (v : ValueId) (type : TypeId) : Leaves Bench.Edits (coerce v type) := by
  refine .bind' (edits_value v) fun vi => .ite' (.pure' v) ?_
  refine .bind' (edits_repOf type) fun want => .ite' (.pure' v) ?_
  refine .ite' (.bind' (edits_typeText _) fun _ => .bind' (edits_typeText _) fun _ =>
    .bind' (edits_fail _) fun _ => ?_) ?_ <;>
  exact edits_compute type nofun

theorem edits_coerceOffset (v : ValueId) (pointer : TypeId) :
    Leaves Bench.Edits (coerceOffset v pointer) := by
  refine .bind' (edits_value v) fun vi => .bind' (edits_numeric? _) fun n => ?_
  cases n with
  | none => exact edits_failTexts _ _
  | some n => exact .ite' (.pure' v) (.ite' (edits_coerce v _) (edits_coerce v _))

theorem edits_binary {op : Opcode} (hop : op ≠ .ret) (x y : ValueId) :
    Leaves Bench.Edits (binary op x y) := by
  refine .bind' (edits_value x) fun vx => .bind' (edits_value y) fun vy => ?_
  extract_lets k
  have hk : ∀ type, Leaves Bench.Edits (k type) := by
    intro type
    refine .bind' (edits_repOf type) fun rep => ?_
    have hto : ∀ v, Leaves Bench.Edits
        ((if rep.cls = .pointer then coerceOffset else coerce) v type) := by
      intro v
      split
      · exact edits_coerceOffset v type
      · exact edits_coerce v type
    have hrest := Leaves.bind' (hto x) fun cx => Leaves.bind' (hto y) fun cy =>
      edits_compute type (g := fun dest => { op, dest, a := cx, b := cy, rep }) fun _ => hop
    exact .ite' (.bind' (edits_typeText _) fun _ => .bind' (edits_fail _) fun _ => hrest) hrest
  clear_value k
  refine .ite' (.bind' (edits_promoteUnary? _) fun t => ?_) (.bind' (edits_commonType op _ _) hk)
  cases t with
  | none => exact .bind' (edits_typeText _) fun _ => .bind' (edits_fail _) hk
  | some t => exact hk t

theorem edits_unary {op : Opcode} (hop : op ≠ .ret) (x : ValueId) :
    Leaves Bench.Edits (unary op x) := by
  refine .bind' (edits_value x) fun vx => .bind' (edits_promoteUnary? _) fun t => ?_
  cases t with
  | none => exact edits_failText _
  | some type =>
    refine .bind' (edits_repOf type) fun rep => ?_
    have hrest := Leaves.bind' (edits_coerce x type) fun cx =>
      edits_compute type (g := fun dest => { op, dest, a := cx, rep }) fun _ => hop
    exact .ite' (.bind' (edits_typeText _) fun _ => .bind' (edits_fail _) fun _ => hrest) hrest

theorem edits_compare {op : Opcode} (hop : op ≠ .ret) (x y : ValueId) :
    Leaves Bench.Edits (compare op x y) := by
  refine .bind' (edits_value x) fun vx => .bind' (edits_value y) fun vy => ?_
  refine .bind' (edits_commonType op _ _) fun type => .bind' (edits_repOf type) fun rep => ?_
  refine .bind' (edits_coerce x type) fun cx => .bind' (edits_coerce y type) fun cy => ?_
  exact edits_compute _ fun _ => hop

theorem edits_test {op : Opcode} (hop : op ≠ .ret) (x : ValueId) :
    Leaves Bench.Edits (test op x) := by
  refine .bind' (edits_value x) fun vx => ?_
  have hrest := edits_compute Builtin.bool.id
    (g := fun dest => { op, dest, a := x, rep := vx.rep }) fun _ => hop
  exact .ite' (.bind' (edits_typeText _) fun _ => .bind' (edits_fail _) fun _ => hrest) hrest

theorem edits_convert (x : ValueId) (type : TypeId) : Leaves Bench.Edits (convert x type) := by
  refine .bind' (edits_value x) fun vx => .bind' (edits_repOf type) fun want => ?_
  refine .ite' (.bind' (edits_typeText _) fun _ => .bind' (edits_typeText _) fun _ =>
    .bind' (edits_fail _) fun _ => ?_) ?_ <;>
  exact edits_compute type nofun

theorem edits_store (dest src : ValueId) : Leaves Bench.Edits (store dest src) := by
  refine .bind' (edits_value dest) fun vd => .bind' (edits_value src) fun vs => ?_
  have hcopy : Leaves Bench.Edits (do
      let cs ← coerce src vd.type
      push { op := .copy, dest, a := cs, rep := vd.rep }) :=
    .bind' (edits_coerce src _) fun cs => edits_push nofun
  have hstruct : Leaves Bench.Edits (push { op := .copy, dest, a := src, rep := vd.rep }) :=
    edits_push nofun
  refine .ite' (.bind' (edits_fail _) fun _ => ?_) ?_ <;>
  refine .ite' (.ite' (.bind' (edits_typeText _) fun _ => .bind' (edits_typeText _) fun _ =>
    .bind' (edits_fail _) fun _ => hstruct) hstruct) hcopy

theorem edits_markAddressable (v : ValueId) : Leaves Bench.Edits (markAddressable v) :=
  .modify' fun _ => .of_edit (.mark v) fun hb => hb.values.mark v

/-- The pointer type for the address of a value rests on the type of the value. -/
theorem edits_pointerFor {b : Bench} {v : ValueId} {vi : ValueInfo}
    (hv : b.func.value? v = some vi) :
    b.Edits { b with types := (b.types.intern (.pointer vi.type)).2 } := by
  refine ⟨.refl b.func, fun h => (h.registers_plain (.pointer vi.type)).keyed, .intern b.types rfl, ?_⟩
  refine .of_types fun hb => ?_
  have hmakes := hb.tables.ordered.makes_pointer (hb.values v vi hv).1
  exact ⟨hmakes.grows, hmakes.ordered⟩

theorem edits_addressOf (v : ValueId) : Leaves Bench.Edits (addressOf v) := by
  intro b
  have hvalue : Ends (value v) b (fun vi b' => b = b' ∧ b.func.value? v = some vi)
      fun _ => b.Edits := by
    refine .bind_get ?_
    cases hvi : b.func.value? v with
    | none => exact .bind_get (.throw' (Std.Refl.refl b))
    | some vi => exact .pure' ⟨rfl, rfl⟩
  refine Ends.state (.bind' hvalue ?_)
  rintro vi _ ⟨rfl, hvi⟩
  have hmarked : b.Edits { b with func := b.func.mark v } :=
    .of_edit (.mark v) fun hb => hb.values.mark v
  -- the mark is on the value whose address is taken, and its type is what it was
  have htype : (b.func.mark v).value? v = some { vi with addressable := true } := by
    rw [Func.value?_mark, if_pos rfl, hvi]
    rfl
  have hpointer := edits_pointerFor (b := { b with func := b.func.mark v }) htype
  refine .ite' (fun _ => .bind_get (.throw' (Std.Refl.refl b))) fun _ => ?_
  refine .bind_modify (.bind_get ?_)
  revert hpointer
  dsimp only
  generalize b.types.intern (.pointer vi.type) = interned
  obtain ⟨pointer, types⟩ := interned
  intro hpointer
  refine .bind_set ?_
  have hdone := (edits_compute pointer (g := fun dest => { op := .addressOf, dest, a := v })
    nofun).ends { b with func := b.func.mark v, types }
  exact hdone.mono (fun _ _ h => Trans.trans (Trans.trans hmarked hpointer) h)
    fun _ _ h => Trans.trans (Trans.trans hmarked hpointer) h

theorem edits_pointerOperand (v : ValueId) : Leaves Bench.Edits (pointerOperand v) := by
  refine .bind' (edits_value v) fun vi => .ite' (edits_failText _) (.pure' _)

theorem edits_loadRel (ptr : ValueId) (offset : Int) (type : TypeId) :
    Leaves Bench.Edits (loadRel ptr offset type) := by
  refine .bind' (edits_pointerOperand ptr) fun _ => .bind' (edits_repOf type) fun rep => ?_
  refine .ite' (.bind' (edits_fail _) fun _ => ?_) ?_ <;> exact edits_compute type nofun

theorem edits_storeRel (ptr : ValueId) (offset : Int) (v : ValueId) :
    Leaves Bench.Edits (storeRel ptr offset v) :=
  .bind' (edits_pointerOperand ptr) fun _ => .bind' (edits_value v) fun _ => edits_push nofun

theorem edits_loadElem (base index : ValueId) (type : TypeId) :
    Leaves Bench.Edits (loadElem base index type) := by
  refine .bind' (edits_pointerOperand base) fun _ => .bind' (edits_coerce index _) fun index => ?_
  refine .bind' (edits_repOf type) fun rep => ?_
  refine .ite' (.bind' (edits_fail _) fun _ => ?_) ?_ <;> exact edits_compute type nofun

theorem edits_storeElem (base index v : ValueId) : Leaves Bench.Edits (storeElem base index v) :=
  .bind' (edits_pointerOperand base) fun _ => .bind' (edits_coerce index _) fun _ =>
    .bind' (edits_value v) fun _ => edits_push nofun

theorem edits_alloca (size : ValueId) : Leaves Bench.Edits (alloca size) :=
  .bind' (edits_coerce size _) fun _ => edits_compute _ nofun

theorem edits_placeLabel (l : LabelId) : Leaves Bench.Edits (placeLabel l) := by
  refine .bind' (edits_knownLabel l) fun pos => ?_
  have hplace : Leaves Bench.Edits (do
      modify fun b =>
        { b with func := { b.func with
            labels := b.func.labels.setIfInBounds l b.func.insns.size } }
      push { op := .label, label := l }) :=
    fun b => .of_edit (.place l) fun hb => hb.values.congr rfl
  exact .ite' (.bind' (edits_fail _) fun _ => hplace) hplace

theorem edits_branch (l : LabelId) : Leaves Bench.Edits (branch l) :=
  .bind' (edits_knownLabel l) fun _ => edits_push nofun

theorem edits_branchOn {op : Opcode} (hop : op ≠ .ret) (cond : ValueId) (l : LabelId) :
    Leaves Bench.Edits (branchOn op cond l) := by
  refine .bind' (edits_knownLabel l) fun _ => .bind' (edits_value cond) fun vc => ?_
  refine .ite' (.bind' (edits_typeText _) fun _ => .bind' (edits_fail _) fun _ => ?_) ?_ <;>
    exact edits_push hop

theorem ends_fail {c : Cause} {k : α → EmitM β} {b : Bench} {ok : β → Bench → Prop}
    {stop : Failure → Bench → Prop} (h : ∀ err, stop err b) : Ends (fail c >>= k) b ok stop :=
  Ends.stopped (Ends.bind_get (Ends.throw' (h _)))

theorem ends_coerce {v : ValueId} (hv : v ≠ 0) (type : TypeId) (b : Bench) :
    Ends (coerce v type) b (fun v' b' => v' ≠ 0 ∧ b.Edits b') fun _ b' => b.Edits b' := by
  have hrep : ∀ b : Bench, 0 < b.func.values.size →
      Ends (repOf type) b (fun _ b' => 0 < b'.func.values.size) fun _ _ => True := by
    intro b hb
    refine .bind_get ?_
    rcases (b.types.findRep b.target type).run b.layouts with ⟨c | r, layouts⟩
    · exact Ends.bind_set (Ends.throw' True.intro)
    · exact Ends.bind_set (Ends.pure' hb)
  have hname : Ends (coerce v type) b (fun v' _ => v' ≠ 0) fun _ _ => True := by
    have hvalue : Ends (value v) b (fun _ b' => 0 < b'.func.values.size) fun _ _ => True := by
      refine .bind_get ?_
      cases hinfo : b.func.value? v with
      | some info => exact .pure' (Nat.zero_lt_of_lt (Func.value?_lt hinfo).2.2)
      | none => exact Ends.bind_get (Ends.throw' True.intro)
    refine .bind' hvalue fun vi b₁ h₁ => .ite' (fun _ => .pure' hv) fun _ => ?_
    refine .bind' (hrep b₁ h₁) fun want b₂ h₂ => .ite' (fun _ => .pure' hv) fun _ => ?_
    have htemp : Ends (temp type) b₂ (fun dest _ => dest ≠ 0) fun _ _ => True :=
      .bind' (hrep b₂ h₂) fun r b₃ h₃ =>
        Ends.bind_get (Ends.bind_set (Ends.pure' (Nat.ne_of_gt h₃)))
    have hconvert : Ends (do
        let dest ← temp type
        push { op := .convert, dest, a := v, type, rep := vi.rep }
        pure dest) b₂ (fun v' _ => v' ≠ 0) fun _ _ => True :=
      .bind' htemp fun dest b₃ h₃ => Ends.bind_modify (Ends.pure' h₃)
    refine .ite' (fun _ => ?_) fun _ => hconvert
    exact Ends.bind_get (Ends.bind_get (ends_fail fun _ => trivial))
  exact (hname.and' ((edits_coerce v type).ends b)).imp_stop fun _ _ h => h.2

theorem edits_ret (v : ValueId) : Leaves Bench.Edits (ret v) := by
  refine .bind_get fun b => Ends.state ?_
  have hplain : b.func.ret.cls = .void → Ends (push { op := .ret }) b
      (fun _ => b.Edits) fun _ => b.Edits :=
    fun hvoid => Ends.modify' (.of_edit (.push fun _ _ => hvoid) fun hb => hb.values.congr rfl)
  have hvalue : v ≠ 0 → Ends (do
      let result := (((← get).types.signature? b.func.sig).map (·.result)).getD 0
      let cv ← coerce v result
      push { op := .ret, a := cv, rep := b.func.ret }) b (fun _ => b.Edits) fun _ => b.Edits := by
    intro hv
    refine .bind_get (.bind' (ends_coerce hv _ b) fun cv b₁ ⟨hcv, h₁⟩ => ?_)
    have hpush : b₁.func.Edit (b₁.func.push { op := .ret, a := cv, rep := b.func.ret }) :=
      .push fun _ h0 => absurd h0 hcv
    exact Ends.modify' (Trans.trans h₁ (Bench.Edits.of_edit hpush fun hb => hb.values.congr rfl))
  refine .ite' (fun hv => ?_) fun hv => ?_
  · refine .ite' (fun _ => ?_) fun hvoid => hplain (by simpa using hvoid)
    exact ends_fail fun _ => Std.Refl.refl b
  · refine .ite' (fun _ => ?_) fun _ => hvalue hv
    exact ends_fail fun _ => Std.Refl.refl b

theorem edits_coerceArgs (args : List ValueId) (params : List TypeId) :
    Leaves Bench.Edits (coerceArgs args params) := by
  induction args generalizing params with
  | nil => exact .pure' _
  | cons a args ih =>
    cases params with
    | nil => exact .pure' _
    | cons p params =>
      exact .bind' (edits_coerce a p) fun _ => .bind' (ih params) fun _ => .pure' _

theorem edits_callArgs (s : Signature) (args : List ValueId) :
    Leaves Bench.Edits (callArgs s args) :=
  .ite' (.bind' (edits_fail _) fun _ => edits_coerceArgs _ _) (edits_coerceArgs _ _)

theorem edits_call (callee : FuncId) (sig : TypeId) (rep : Rep) (args : List ValueId) :
    Leaves Bench.Edits (call callee sig rep args) :=
  .bind' .get' fun _ => .bind' (edits_callArgs _ args) fun _ => edits_compute _ nofun

theorem edits_callNative (native : String) (sig : TypeId) (args : List ValueId) :
    Leaves Bench.Edits (callNative native sig args) := by
  refine .bind' .get' fun b => ?_
  cases b.types.signature? sig with
  | none => exact edits_failText _
  | some s =>
    have hrest := Leaves.bind' (edits_callArgs s args) fun args =>
      Leaves.bind' (edits_repOf s.result) fun rep => edits_compute s.result
        (g := fun dest => { op := .callNative, dest, args, native, type := sig, rep }) nofun
    exact .ite' (.bind' (edits_fail _) fun _ => hrest) hrest

theorem edits_allFloat32 (args : List ValueId) : Leaves Bench.Edits (allFloat32 args) := by
  induction args with
  | nil => exact .pure' _
  | cons a args ih => exact .bind' (edits_value a) fun _ => .bind' ih fun _ => .pure' _

theorem edits_coerceAll (type : TypeId) (args : List ValueId) :
    Leaves Bench.Edits (coerceAll type args) := by
  induction args with
  | nil => exact .pure' _
  | cons a args ih => exact .bind' (edits_coerce a type) fun _ => .bind' ih fun _ => .pure' _

theorem edits_math (op : MathOp) (args : List ValueId) : Leaves Bench.Edits (math op args) := by
  have hrest : Leaves Bench.Edits (do
      let type := if ← allFloat32 args then Builtin.float32.id else Builtin.float64.id
      let args ← coerceAll type args
      let rep ← repOf type
      let dest ← temp type
      push { op := .math, dest, args, math := op, rep }
      pure dest) :=
    .bind' (edits_allFloat32 args) fun _ => .bind' (edits_coerceAll _ args) fun _ =>
      .bind' (edits_repOf _) fun _ => edits_compute _ nofun
  exact .ite' (.bind' (edits_fail _) fun _ => hrest) hrest

theorem edits_createLocal (type : TypeId) : Leaves Bench.Edits (createLocal type) := by
  refine edits_withRep type fun rep b hlaid => .ite' (fun _ => ?_) fun _ => ends_addValue hlaid
  exact ends_fail fun _ => Std.Refl.refl b

theorem edits_constant (type : TypeId) (bits : Word) (want : Class) :
    Leaves Bench.Edits (constant type bits want) := by
  refine edits_withRep type fun rep b hlaid => .ite' (fun _ => ?_) fun _ => ends_addValue hlaid
  exact .bind_get (ends_fail fun _ => Std.Refl.refl b)

theorem edits_setAddressable (v : ValueId) : Leaves Bench.Edits (setAddressable v) := by
  refine .bind' (edits_value v) fun vi => ?_
  exact .ite' (.bind' (edits_fail _) fun _ => edits_markAddressable v) (edits_markAddressable v)

theorem edits_newLabel : Leaves Bench.Edits newLabel :=
  .bind_get fun _ => .of_edit .label fun hb => hb.values.congr rfl

end Emit

end TypedIR
