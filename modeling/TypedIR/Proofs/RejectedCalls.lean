import TypedIR.Proofs.BuiltLayouts

/-
  What a rejected emitter leaves behind.

  Emitters convert their operands one after the other, and some of their checks
  come later, so an emitter that is rejected may have added conversions. It has
  added nothing else: the values, labels and instructions that were there are what
  they were, and each conversion sets a value of its own (`Func.Converts`). There
  is one lemma for each emitter, which also says with which opcode its instruction
  is appended if it is not rejected (`Emit.Tidy`).

  One emitter gives more away. The address of a value is taken by marking the value
  first; when the pointer type has no representation then, because the layouts
  remember a refusal of its number from before it was made, the mark stays
  (`Engine.Reached.rejected`, `marked_by_rejection`).
-/

namespace TypedIR

theorem Ends.of_error {ε σ α : Type} {act : ExceptT ε (StateM σ) α} {s s' : σ} {e : ε}
    {ok : α → σ → Prop} {stop : ε → σ → Prop} (h : Ends act s ok stop)
    (hrun : (act.run s : Except ε α × σ) = (.error e, s')) : stop e s' := by
  unfold Ends at h
  rwa [hrun] at h

/-! ## Conversions -/

/-- The function has got values and conversions that set them, and is otherwise
what it was. -/
structure Func.Converts (f f' : Func) : Prop where
  same : f' = { f with values := f'.values, insns := f'.insns }
  values : ∃ vs : Array ValueInfo, f'.values = f.values ++ vs
  insns : ∃ added : Array Insn, f'.insns = f.insns ++ added ∧ ∀ i ∈ added,
    i.op = .convert ∧ f.values.size ≤ i.dest ∧ i.dest < f'.values.size

namespace Func.Converts

variable {f f' f'' : Func}

theorem refl (f : Func) : f.Converts f := ⟨rfl, ⟨#[], by simp⟩, ⟨#[], by simp, by simp⟩⟩

theorem size_le (h : f.Converts f') : f.values.size ≤ f'.values.size := by
  obtain ⟨vs, hvs⟩ := h.values
  simp [hvs]

theorem trans (h : f.Converts f') (h' : f'.Converts f'') : f.Converts f'' := by
  obtain ⟨vs, hvs⟩ := h.values
  obtain ⟨vs', hvs'⟩ := h'.values
  obtain ⟨added, hadded, hconv⟩ := h.insns
  obtain ⟨added', hadded', hconv'⟩ := h'.insns
  refine ⟨?_, ⟨vs ++ vs', ?_⟩, ⟨added ++ added', ?_, fun i hi => ?_⟩⟩
  · rw [h'.same, h.same]
  · rw [hvs', hvs, Array.append_assoc]
  · rw [hadded', hadded, Array.append_assoc]
  · rcases Array.mem_append.mp hi with hi | hi
    · obtain ⟨hop, hlo, hhi⟩ := hconv i hi
      exact ⟨hop, hlo, Nat.lt_of_lt_of_le hhi h'.size_le⟩
    · obtain ⟨hop, hlo, hhi⟩ := hconv' i hi
      exact ⟨hop, Nat.le_trans h.size_le hlo, hhi⟩

theorem of_convert (f : Func) (v : ValueInfo) {i : Insn} (hop : i.op = .convert)
    (hdest : i.dest = f.values.size) : f.Converts ((f.addValue v).2.push i) := by
  refine ⟨rfl, ⟨#[{ v with slot := none }], rfl⟩, ⟨#[i], rfl, fun j hj => ?_⟩⟩
  obtain rfl : j = i := by simpa using hj
  refine ⟨hop, Nat.le_of_eq hdest.symm, ?_⟩
  simp [Func.addValue, Func.push, hdest]

theorem value? (h : f.Converts f') {v : ValueId} {info : ValueInfo} (hv : f.value? v = some info) :
    f'.value? v = some info := by
  obtain ⟨vs, hvs⟩ := h.values
  obtain ⟨hpos, hget, hlt⟩ := Func.value?_lt hv
  refine Func.value?_of_pos hpos ?_
  rw [hvs, Array.getElem?_append_left hlt, hget]

end Func.Converts

def Bench.Converts (b b' : Bench) : Prop := b.func.Converts b'.func

instance : Std.Refl Bench.Converts := ⟨fun b => .refl b.func⟩

instance : Trans Bench.Converts Bench.Converts Bench.Converts := ⟨fun h h' => h.trans h'⟩

/-- The values are there and have the representations that they had, and what else the
function has got are conversions and instructions of one opcode. -/
structure Func.Adds (op : Opcode) (f f' : Func) : Prop where
  rep : ∀ {v r}, f.rep? v = some r → f'.rep? v = some r
  insns : ∀ i ∈ f'.insns, i ∈ f.insns ∨ i.op = .convert ∨ i.op = op

namespace Func

variable {op : Opcode} {f f' f'' : Func}

theorem Adds.trans (h : f.Adds op f') (h' : f'.Adds op f'') : f.Adds op f'' :=
  ⟨fun hr => h'.rep (h.rep hr), fun i hi => (h'.insns i hi).elim (h.insns i) .inr⟩

theorem Adds.refl (f : Func) : f.Adds op f := ⟨fun hr => hr, fun _ hi => .inl hi⟩

theorem Converts.adds (h : f.Converts f') (op : Opcode) : f.Adds op f' := by
  refine ⟨fun {v r} hr => ?_, fun i hi => ?_⟩
  · obtain ⟨info, hv, rfl⟩ := value?_of_rep? hr
    exact rep?_of_value? (h.value? hv)
  · obtain ⟨added, hadded, hconv⟩ := h.insns
    rw [hadded] at hi
    exact (Array.mem_append.mp hi).imp_right fun hnew => .inl (hconv i hnew).1

theorem adds_value (f : Func) (info : ValueInfo) : f.Adds op (f.addValue info).2 := by
  refine ⟨fun {v r} hr => ?_, fun _ hi => .inl hi⟩
  obtain ⟨old, hv, rfl⟩ := value?_of_rep? hr
  obtain ⟨hpos, hget, hlt⟩ := value?_lt hv
  refine rep?_of_value? (value?_of_pos hpos ?_)
  exact (Array.getElem?_push_lt hlt).trans (Array.getElem?_eq_getElem hlt ▸ hget)

theorem adds_mark (f : Func) (v : ValueId) : f.Adds op (f.mark v) := by
  refine ⟨fun {w r} hr => ?_, fun _ hi => .inl hi⟩
  obtain ⟨old, hv, rfl⟩ := value?_of_rep? hr
  unfold rep?
  rw [value?_mark]
  split
  · next h =>
    subst h
    rw [hv]
    rfl
  · rw [hv]
    rfl

theorem adds_push (f : Func) {i : Insn} (hop : i.op = op) : f.Adds op (f.push i) := by
  refine ⟨fun hr => hr, fun j hj => ?_⟩
  rcases Array.mem_push.mp hj with hj | rfl
  · exact .inl hj
  · exact .inr (.inr hop)

theorem adds_place (f : Func) (l : LabelId) : f.Adds .label (f.place l) :=
  ⟨fun hr => hr, (f.adds_push (i := { op := .label, label := l }) rfl).insns⟩

end Func

/-- What the function under construction has got are conversions and instructions
of one opcode. -/
def Bench.Adds (op : Opcode) (b b' : Bench) : Prop := b.func.Adds op b'.func

namespace Bench

variable {op : Opcode} {b b' : Bench}

theorem Consults.converts (h : b.Consults b') : b.Converts b' := by
  unfold Converts
  rw [h.func]
  exact .refl b.func

end Bench

namespace Emit

variable {α β : Type}

theorem converts_fail (c : Cause) : Leaves Bench.Converts (fail c : EmitM α) :=
  (consults_fail c).mono fun _ _ => Bench.Consults.converts

theorem converts_failText {c : String → Cause} (x : TypeId) :
    Leaves Bench.Converts (do fail (c (← typeText x)) : EmitM α) :=
  (consults_failText x).mono fun _ _ => Bench.Consults.converts

theorem converts_failTexts {c : String → String → Cause} (x y : TypeId) :
    Leaves Bench.Converts (do fail (c (← typeText x) (← typeText y)) : EmitM α) :=
  (consults_failTexts x y).mono fun _ _ => Bench.Consults.converts

theorem converts_typeText (id : TypeId) : Leaves Bench.Converts (typeText id) :=
  (consults_typeText id).mono fun _ _ => Bench.Consults.converts

theorem converts_repOf (id : TypeId) : Leaves Bench.Converts (repOf id) :=
  (consults_repOf id).mono fun _ _ => Bench.Consults.converts

theorem converts_value (v : ValueId) : Leaves Bench.Converts (value v) :=
  (consults_value v).mono fun _ _ => Bench.Consults.converts

theorem converts_knownLabel (l : LabelId) : Leaves Bench.Converts (knownLabel l) :=
  (consults_knownLabel l).mono fun _ _ => Bench.Consults.converts

theorem converts_numeric? (type : TypeId) : Leaves Bench.Converts (numeric? type) :=
  (consults_numeric? type).mono fun _ _ => Bench.Consults.converts

theorem converts_promoteUnary? (type : TypeId) : Leaves Bench.Converts (promoteUnary? type) :=
  (consults_promoteUnary? type).mono fun _ _ => Bench.Consults.converts

theorem converts_commonType (op : Opcode) (x y : TypeId) :
    Leaves Bench.Converts (commonType op x y) :=
  (consults_commonType op x y).mono fun _ _ => Bench.Consults.converts

theorem converts_pointerOperand (v : ValueId) : Leaves Bench.Converts (pointerOperand v) :=
  .bind' (converts_value v) fun _ => .ite' (converts_failText _) (.pure' _)

/-- The value of a conversion and the conversion come together: nothing can fail
once the value is there. -/
theorem converts_compute (type : TypeId) {g : ValueId → Insn} (hop : ∀ dest, (g dest).op = .convert)
    (hdest : ∀ dest, (g dest).dest = dest) :
    Leaves Bench.Converts (do
      let dest ← temp type
      push (g dest)
      pure dest) := by
  intro b
  have htemp : Ends (temp type) b (fun dest b' => b.func.Converts (b'.func.push (g dest)))
      fun _ b' => b.Converts b' := by
    refine .bind' (((converts_repOf type).ends b).imp fun _ _ h => h) ?_
    intro r b₁ h₁
    exact .bind_get (.bind_set (.pure' (h₁.trans (.of_convert b₁.func _ (hop _) (hdest _)))))
  exact Ends.state (.bind' htemp fun dest b₁ h₁ => .bind_modify (.pure' h₁))

theorem converts_coerce (v : ValueId) (type : TypeId) : Leaves Bench.Converts (coerce v type) := by
  refine .bind' (converts_value v) fun vi => .ite' (.pure' v) ?_
  refine .bind' (converts_repOf type) fun want => .ite' (.pure' v) ?_
  refine .ite' (.bind' (converts_typeText _) fun _ => .bind' (converts_typeText _) fun _ =>
    .bind' (converts_fail _) fun _ => ?_) ?_ <;>
  exact converts_compute type (fun _ => rfl) fun _ => rfl

theorem converts_coerceOffset (v : ValueId) (pointer : TypeId) :
    Leaves Bench.Converts (coerceOffset v pointer) := by
  refine .bind' (converts_value v) fun vi => .bind' (converts_numeric? _) fun n => ?_
  cases n with
  | none => exact converts_failTexts _ _
  | some n => exact .ite' (.pure' v) (.ite' (converts_coerce v _) (converts_coerce v _))

theorem converts_coerceArgs (args : List ValueId) (params : List TypeId) :
    Leaves Bench.Converts (coerceArgs args params) := by
  induction args generalizing params with
  | nil => exact .pure' _
  | cons a args ih =>
    cases params with
    | nil => exact .pure' _
    | cons p params =>
      exact .bind' (converts_coerce a p) fun _ => .bind' (ih params) fun _ => .pure' _

theorem converts_callArgs (s : Signature) (args : List ValueId) :
    Leaves Bench.Converts (callArgs s args) :=
  .ite' (.bind' (converts_fail _) fun _ => converts_coerceArgs _ _) (converts_coerceArgs _ _)

theorem converts_allFloat32 (args : List ValueId) : Leaves Bench.Converts (allFloat32 args) := by
  induction args with
  | nil => exact .pure' _
  | cons a args ih => exact .bind' (converts_value a) fun _ => .bind' ih fun _ => .pure' _

theorem converts_coerceAll (type : TypeId) (args : List ValueId) :
    Leaves Bench.Converts (coerceAll type args) := by
  induction args with
  | nil => exact .pure' _
  | cons a args ih => exact .bind' (converts_coerce a type) fun _ => .bind' ih fun _ => .pure' _

/-! ## Emitters -/

/-- An emitter that is rejected leaves conversions only, and appends instructions of
one opcode behind its conversions otherwise. -/
def TidyOn (op : Opcode) (act : EmitM α) (b : Bench) : Prop :=
  Ends act b (fun _ b' => b.Adds op b') fun _ b' => b.Converts b'

def Tidy (op : Opcode) (act : EmitM α) : Prop := ∀ b, TidyOn op act b

variable {op : Opcode} {act : EmitM α}

theorem Tidy.bind {k : α → EmitM β} (h : Leaves Bench.Converts act) (hk : ∀ a, Tidy op (k a)) :
    Tidy op (act >>= k) := by
  intro b
  refine .bind' ((h.ends b).imp fun _ _ h => h) fun a b₁ h₁ => ?_
  exact (hk a b₁).mono (fun _ _ h => (Func.Converts.adds h₁ op).trans h) fun _ _ h => Trans.trans h₁ h

theorem Tidy.ite {c : Prop} [Decidable c] {other : EmitM α} (hpos : Tidy op act)
    (hneg : Tidy op other) : Tidy op (if c then act else other) :=
  fun b => .ite' (fun _ => hpos b) fun _ => hneg b

theorem Tidy.get {k : Bench → EmitM α} (h : ∀ b, TidyOn op (k b) b) : Tidy op (get >>= k) := h

theorem Tidy.of_converts (h : Leaves Bench.Converts act) : Tidy op act :=
  fun b => (h.ends b).imp fun _ _ h => Func.Converts.adds h op

theorem Tidy.unless {c : Prop} [Decidable c] {cause : Cause} (h : Tidy op act) :
    Tidy op (if c then (do let _ ← (fail cause : EmitM β); act) else act) :=
  .ite (.bind (converts_fail _) fun _ => h) h

theorem Tidy.unlessText {c : Prop} [Decidable c] {cause : String → Cause} {x : TypeId}
    (h : Tidy op act) :
    Tidy op (if c then (do let s ← typeText x; let _ ← (fail (cause s) : EmitM β); act) else act) :=
  .ite (.bind (converts_typeText _) fun _ => .bind (converts_fail _) fun _ => h) h

theorem Tidy.unlessTexts {c : Prop} [Decidable c] {cause : String → String → Cause} {x y : TypeId}
    (h : Tidy op act) :
    Tidy op (if c then (do
      let s ← typeText x
      let t ← typeText y
      let _ ← (fail (cause s t) : EmitM β)
      act) else act) :=
  .ite (.bind (converts_typeText _) fun _ => .bind (converts_typeText _) fun _ =>
    .bind (converts_fail _) fun _ => h) h

theorem tidy_push {i : Insn} (hop : i.op = op) : Tidy op (push i) :=
  fun b => Ends.modify' (b.func.adds_push hop)

theorem ends_temp (type : TypeId) (b : Bench) :
    Ends (temp type) b (fun _ b' => ∃ info, b'.func = (b.func.addValue info).2)
      fun _ b' => b.Converts b' := by
  refine .bind' (((consults_repOf type).ends b).imp_stop fun _ _ h => h.converts) ?_
  intro r b₁ h₁
  exact .bind_get (.bind_set (.pure' ⟨{ type, rep := r }, by rw [← h₁.func]; rfl⟩))

/-- An instruction that computes a fresh value: all that can fail comes before the
value is there. -/
theorem ends_compute (type : TypeId) (g : ValueId → Insn) (b : Bench) :
    Ends (do
      let dest ← temp type
      push (g dest)
      pure dest) b
      (fun dest b' => ∃ info, b'.func = (b.func.addValue info).2.push (g dest))
      fun _ b' => b.Converts b' := by
  refine .bind' (ends_temp type b) fun dest b₁ h₁ => .bind_modify (.pure' ?_)
  obtain ⟨info, h₁⟩ := h₁
  exact ⟨info, by rw [← h₁]⟩

theorem tidy_compute (type : TypeId) {g : ValueId → Insn} (hop : ∀ dest, (g dest).op = op) :
    Tidy op (do
      let dest ← temp type
      push (g dest)
      pure dest) := by
  refine fun b => (ends_compute type g b).imp fun dest b' h => ?_
  obtain ⟨info, h⟩ := h
  unfold Bench.Adds
  rw [h]
  exact (b.func.adds_value info).trans (Func.adds_push _ (hop dest))

theorem tidy_addValue (v : ValueInfo) : Tidy op (addValue v) :=
  fun b => .bind_get (.bind_set (.pure' (b.func.adds_value v)))

theorem tidy_markAddressable (v : ValueId) : Tidy op (markAddressable v) :=
  fun b => Ends.modify' (b.func.adds_mark v)

theorem tidy_binary (op : Opcode) (x y : ValueId) : Tidy op (binary op x y) := by
  refine .bind (converts_value x) fun vx => .bind (converts_value y) fun vy => ?_
  extract_lets k
  have hk : ∀ type, Tidy op (k type) := by
    intro type
    refine .bind (converts_repOf type) fun rep => .unlessText ?_
    have hto : ∀ v, Leaves Bench.Converts
        ((if rep.cls = .pointer then coerceOffset else coerce) v type) := by
      intro v
      split
      · exact converts_coerceOffset v type
      · exact converts_coerce v type
    exact .bind (hto x) fun cx => .bind (hto y) fun cy => tidy_compute type fun _ => rfl
  clear_value k
  refine .ite (.bind (converts_promoteUnary? _) fun t => ?_) (.bind (converts_commonType op _ _) hk)
  cases t with
  | none => exact .bind (converts_typeText _) fun _ => .bind (converts_fail _) hk
  | some t => exact hk t

theorem tidy_unary (op : Opcode) (x : ValueId) : Tidy op (unary op x) := by
  refine .bind (converts_value x) fun vx => .bind (converts_promoteUnary? _) fun t => ?_
  cases t with
  | none => exact .of_converts (converts_failText _)
  | some type =>
    refine .bind (converts_repOf type) fun rep => .unlessText ?_
    exact .bind (converts_coerce x type) fun cx => tidy_compute type fun _ => rfl

theorem tidy_compare (op : Opcode) (x y : ValueId) : Tidy op (compare op x y) := by
  refine .bind (converts_value x) fun vx => .bind (converts_value y) fun vy => ?_
  refine .bind (converts_commonType op _ _) fun type => .bind (converts_repOf type) fun rep => ?_
  refine .bind (converts_coerce x type) fun cx => .bind (converts_coerce y type) fun cy => ?_
  exact tidy_compute _ fun _ => rfl

theorem tidy_test (op : Opcode) (x : ValueId) : Tidy op (test op x) :=
  .bind (converts_value x) fun _ => .unlessText (tidy_compute _ fun _ => rfl)

theorem tidy_convert (x : ValueId) (type : TypeId) : Tidy .convert (convert x type) :=
  .bind (converts_value x) fun _ => .bind (converts_repOf type) fun _ =>
    .unlessTexts (tidy_compute _ fun _ => rfl)

theorem tidy_store (dest src : ValueId) : Tidy .copy (store dest src) := by
  refine .bind (converts_value dest) fun vd => .bind (converts_value src) fun vs => .unless ?_
  refine .ite (.unlessTexts (tidy_push rfl)) ?_
  exact .bind (converts_coerce src _) fun cs => tidy_push rfl

theorem tidy_loadRel (ptr : ValueId) (offset : Int) (type : TypeId) :
    Tidy .loadRel (loadRel ptr offset type) :=
  .bind (converts_pointerOperand ptr) fun _ => .bind (converts_repOf type) fun _ =>
    .unless (tidy_compute _ fun _ => rfl)

theorem tidy_storeRel (ptr : ValueId) (offset : Int) (v : ValueId) :
    Tidy .storeRel (storeRel ptr offset v) :=
  .bind (converts_pointerOperand ptr) fun _ => .bind (converts_value v) fun _ => tidy_push rfl

theorem tidy_loadElem (base index : ValueId) (type : TypeId) :
    Tidy .loadElem (loadElem base index type) :=
  .bind (converts_pointerOperand base) fun _ => .bind (converts_coerce index _) fun _ =>
    .bind (converts_repOf type) fun _ => .unless (tidy_compute _ fun _ => rfl)

theorem tidy_storeElem (base index v : ValueId) : Tidy .storeElem (storeElem base index v) :=
  .bind (converts_pointerOperand base) fun _ => .bind (converts_coerce index _) fun _ =>
    .bind (converts_value v) fun _ => tidy_push rfl

theorem tidy_alloca (size : ValueId) : Tidy .alloca (alloca size) :=
  .bind (converts_coerce size _) fun _ => tidy_compute _ fun _ => rfl

theorem tidy_placeLabel (l : LabelId) : Tidy .label (placeLabel l) :=
  .bind (converts_knownLabel l) fun _ => .unless fun _ => .bind_modify (Ends.modify' (Func.adds_place _ l))

theorem tidy_branch (l : LabelId) : Tidy .branch (branch l) :=
  .bind (converts_knownLabel l) fun _ => tidy_push rfl

theorem tidy_branchOn (op : Opcode) (cond : ValueId) (l : LabelId) :
    Tidy op (branchOn op cond l) :=
  .bind (converts_knownLabel l) fun _ => .bind (converts_value cond) fun _ =>
    .unlessText (tidy_push rfl)

theorem tidy_ret (v : ValueId) : Tidy .ret (ret v) := by
  unfold ret
  refine .get fun b => ?_
  dsimp only
  have hnone : Tidy .ret (push { op := .ret }) := tidy_push rfl
  refine .ite' (fun _ => hnone.unless b) fun _ => Tidy.unless (.get fun b₁ => ?_) b
  exact Tidy.bind (converts_coerce v _)
    (fun cv => tidy_push (i := { op := .ret, a := cv, rep := b.func.ret }) rfl) b₁

theorem tidy_defaultReturn : Tidy .ret defaultReturn :=
  .get fun b => .ite' (fun _ => .pure' (.refl b.func)) fun _ =>
    .bind_modify (.pure' (Func.adds_push _ rfl))

theorem tidy_call (callee : FuncId) (sig : TypeId) (rep : Rep) (args : List ValueId) :
    Tidy .call (call callee sig rep args) :=
  .get fun b => Tidy.bind (converts_callArgs _ args) (fun args =>
    tidy_compute _ (g := fun dest => { op := .call, dest, args, callee, type := sig, rep })
      fun _ => rfl) b

theorem tidy_callNative (native : String) (sig : TypeId) (args : List ValueId) :
    Tidy .callNative (callNative native sig args) := by
  refine .get fun b => ?_
  cases b.types.signature? sig with
  | none => exact Tidy.of_converts (converts_failText _) b
  | some s =>
    refine Tidy.unless (.bind (converts_callArgs s args) fun args => ?_) b
    exact .bind (converts_repOf s.result) fun rep => tidy_compute _ fun _ => rfl

theorem tidy_math (op : MathOp) (args : List ValueId) : Tidy .math (math op args) := by
  refine .unless (.bind (converts_allFloat32 args) fun _ => ?_)
  refine .bind (converts_coerceAll _ args) fun _ => .bind (converts_repOf _) fun _ => ?_
  exact tidy_compute _ fun _ => rfl

theorem tidy_createLocal (type : TypeId) : Tidy op (createLocal type) :=
  .bind (converts_repOf type) fun _ => .unless (tidy_addValue _)

theorem tidy_constant (type : TypeId) (bits : Word) (want : Class) :
    Tidy op (constant type bits want) :=
  .bind (converts_repOf type) fun _ => .unlessText (tidy_addValue _)

theorem tidy_setAddressable (v : ValueId) : Tidy op (setAddressable v) :=
  .bind (converts_value v) fun _ => .unless (tidy_markAddressable v)

theorem tidy_newLabel : Tidy op newLabel :=
  .get fun _ => .bind_set (.pure' ⟨fun hr => hr, fun _ hi => .inl hi⟩)

/-! ## The address of a value -/

end Emit

/-- The layouts remember a refusal of the type that the address of a value has. -/
def Bench.RefusesAddress (b : Bench) (v : ValueId) : Prop :=
  ∃ info err, b.func.value? v = some info ∧
    b.layouts.lookup (b.types.intern (.pointer info.type)).1 = some (.error err)

/-- A pointer type has a representation, unless the layouts remember a refusal. -/
theorem TypeTable.findRep_pointer {target : Target} {t : TypeTable} {p x : TypeId}
    (hp : t.find? p = some (.pointer x)) {c : Layout.Cache}
    (hc : ∀ err, c.lookup p ≠ some (.error err)) :
    ∃ r, ((t.findRep target p).run c).1 = .ok r := by
  have hplain : t.underlying p = p := underlying_of_not_tagged hp nofun
  have hanswer : ∃ l, ((Layout.layoutOf target t p).run c).1 = .ok l := by
    unfold Layout.layoutOf
    rw [Layout.run_layoutWithin_succ]
    cases hlook : c.lookup p with
    | some answer =>
      cases answer with
      | ok l => exact ⟨l, rfl⟩
      | error err => exact absurd hlook (hc err)
    | none =>
      refine ⟨Layout.pointerLayout target, ?_⟩
      unfold Layout.workOut
      rw [hp]
      rfl
  obtain ⟨l, hl⟩ := hanswer
  rw [run_findRep, hplain, hp]
  refine ⟨{ cls := .pointer, size := l.size }, ?_⟩
  dsimp only
  rw [hl]
  unfold TypeTable.repOf
  rw [hplain, hp]
  rfl

namespace Emit

theorem ends_repOf_answer (id : TypeId) (b : Bench) :
    Ends (repOf id) b (fun _ b' => b'.func = b.func)
      fun _ b' => b'.func = b.func ∧ ∀ r, ((b.types.findRep b.target id).run b.layouts).1 ≠ .ok r := by
  refine .bind_get ?_
  rcases (b.types.findRep b.target id).run b.layouts with ⟨answer | r, layouts⟩
  · exact .bind_set (.throw' ⟨rfl, nofun⟩)
  · exact .bind_set (.pure' rfl)

/-- Taking the address of a value is rejected in two ways: before anything is done,
or because the pointer type is refused, when the value is marked already. -/
theorem ends_addressOf_tidy (v : ValueId) (b : Bench) :
    Ends (addressOf v) b (fun _ b' => b.Adds .addressOf b') fun _ b' =>
      b.Converts b' ∨ b'.func = b.func.mark v ∧ (b.Founded → b.RefusesAddress v) := by
  have hvalue : Ends (value v) b (fun vi b' => b = b' ∧ b.func.value? v = some vi)
      fun _ b' => b.Converts b' ∨ b'.func = b.func.mark v ∧ (b.Founded → b.RefusesAddress v) := by
    refine .bind_get ?_
    cases hvi : b.func.value? v with
    | none => exact .bind_get (.throw' (.inl (Std.Refl.refl b)))
    | some vi => exact .pure' ⟨rfl, rfl⟩
  refine .bind' hvalue ?_
  rintro vi _ ⟨rfl, hvi⟩
  refine .ite' (fun _ => .bind_get (.throw' (.inl (Std.Refl.refl b)))) fun _ => ?_
  refine .bind_modify (.bind_get ?_)
  dsimp only
  have hmade : b.Founded → (b.types.intern (.pointer vi.type)).2.find?
      (b.types.intern (.pointer vi.type)).1 = some (.pointer vi.type) :=
    fun hb => (hb.tables.ordered.makes_pointer (hb.values v vi hvi).1).found
  have hrefuses : ∀ err, b.layouts.lookup (b.types.intern (.pointer vi.type)).1 =
      some (.error err) → b.RefusesAddress v := fun err h => ⟨vi, err, hvi, h⟩
  revert hmade hrefuses
  generalize b.types.intern (.pointer vi.type) = interned
  obtain ⟨pointer, types⟩ := interned
  intro hmade hrefuses
  refine .bind_set ?_
  have hfound : b.Founded → ¬ b.RefusesAddress v →
      ∃ r, ((types.findRep b.target pointer).run b.layouts).1 = .ok r := fun hb hno =>
    TypeTable.findRep_pointer (hmade hb) fun err herr => hno (hrefuses err herr)
  have htemp : Ends (temp pointer) { b with func := b.func.mark v, types }
      (fun _ b' => ∃ info, b'.func = ((b.func.mark v).addValue info).2)
      fun _ b' => b.Converts b' ∨ b'.func = b.func.mark v ∧ (b.Founded → b.RefusesAddress v) := by
    refine .bind' ((ends_repOf_answer pointer _).imp_stop ?_) fun r b₁ h₁ => ?_
    · rintro _ b₁ ⟨h₁, hno⟩
      refine .inr ⟨h₁, fun hb => ?_⟩
      by_contra hanswered
      obtain ⟨r, hr⟩ := hfound hb hanswered
      exact hno r hr
    · have hsame : b₁.func = b.func.mark v := h₁
      exact .bind_get (.bind_set (.pure' ⟨{ type := pointer, rep := r }, by rw [← hsame]; rfl⟩))
  refine .bind' htemp fun dest b₁ h₁ => .bind_modify (.pure' ?_)
  obtain ⟨info, h₁⟩ := h₁
  have hadds : b.func.Adds .addressOf b₁.func := by
    rw [h₁]
    exact (b.func.adds_mark v).trans (Func.adds_value _ info)
  exact hadds.trans (Func.adds_push _ rfl)

end Emit

/-! ## The engine -/

def Engine.Alters (g : FuncId) (rel : Func → Func → Prop) (e e' : Engine) : Prop :=
  ∀ f, e.func? g = some f → ∃ f', e'.func? g = some f' ∧ rel f f'

/-- The layouts of the engine remember a refusal of the type that the address of a
value has. -/
def Engine.RefusesAddress (e : Engine) (g : FuncId) (v : ValueId) : Prop :=
  ∃ f info err, e.func? g = some f ∧ f.value? v = some info ∧
    e.layouts.lookup (e.types.intern (.pointer info.type)).1 = some (.error err)

namespace EngineM

variable {α β : Type} {g : FuncId} {op : Opcode}

/-- An operation that builds into `g` appends instructions of one opcode behind its
conversions, and leaves conversions only if it is rejected. -/
def Tidy (op : Opcode) (g : FuncId) (act : EngineM α) : Prop :=
  ∀ e, Ends act e (fun _ e' => e.Alters g (Func.Adds op) e')
    fun _ e' => e.Alters g Func.Converts e'

theorem alters_refl (e : Engine) : e.Alters g Func.Converts e := fun f hf => ⟨f, hf, .refl f⟩

theorem alters_put {e : Engine} {f : Func} {b : Bench} {rel : Func → Func → Prop}
    (hf : e.findOpen g = .ok f) (h : rel f b.func) : e.Alters g rel (e.put g b) := by
  intro f₁ hf₁
  obtain ⟨hfunc, -⟩ := findOpen_ok hf
  obtain rfl := Option.mem_unique hfunc hf₁
  exact ⟨b.func, by rw [Engine.func?_set hfunc g (e.put g b) rfl, if_pos rfl], h⟩

instance (rel : Func → Func → Prop) : Trans Engine.Still (Engine.Alters g rel) (Engine.Alters g rel) :=
  ⟨fun h h' f hf => h' f ((h.func? g).trans hf)⟩

theorem Into.tidy {act : EngineM α} (h : Into g (Bench.Adds op) Bench.Converts act) : Tidy op g act :=
  h.ends (fun _ _ (h : Engine.Still _ _) f hf => ⟨f, (h.func? g).trans hf, .refl f⟩) (fun _ _ _ hf hb => alters_put hf hb)
    fun _ _ _ hf hb => alters_put hf hb

end EngineM

theorem Opcode.isCompare_of_isBinary {op : Opcode} (h : op.isBinary = true) :
    op.isCompare = false := by
  cases op <;> first | rfl | cases h

open EngineM in
/-- Every operation that builds into a function is tidy, except that it may take the
address of a value. Operators of two operands come from the operation for them. -/
theorem Operation.tidy_perform {op : Operation} {g : FuncId} (h : op.writes? = some g)
    (haddr : ∀ v, op ≠ .addressOf g v) :
    ∃ o : Opcode, (o.isBinary = true → ∃ code a b, op = .binary g code a b) ∧
      EngineM.Tidy o g op.perform := by
  have quiet : ∀ {act : EngineM Unit} (o : Opcode), o.isBinary = false →
      Into g (Bench.Adds o) Bench.Converts act →
      ∃ o : Opcode, (o.isBinary = true → ∃ code a b, op = .binary g code a b) ∧
        EngineM.Tidy o g act :=
    fun o ho h => ⟨o, fun hb => absurd (ho.symm.trans hb) nofun, h.tidy⟩
  unfold perform
  cases op with
  | createValue _ type =>
    cases h
    exact quiet .label rfl (.discard (.emit (Emit.tidy_createLocal type)))
  | setAddressable _ v =>
    cases h; exact quiet .label rfl (.emit (Emit.tidy_setAddressable v))
  | constInt _ type n =>
    cases h; exact quiet .label rfl (.discard (.emit (Emit.tidy_constant type _ .int)))
  | constFloat32 _ type bits =>
    cases h; exact quiet .label rfl (.discard (.constFloat32 (Emit.tidy_constant _ _ _)))
  | constFloat64 _ type bits =>
    cases h; exact quiet .label rfl (.discard (.constFloat64 (Emit.tidy_constant _ _ _)))
  | newLabel => cases h; exact quiet .label rfl (.discard (.emit Emit.tidy_newLabel))
  | placeLabel _ l => cases h; exact quiet _ rfl (.emit (Emit.tidy_placeLabel l))
  | binary _ code a b =>
    cases h
    have hinto : EngineM.Into g _ _ (EngineM.binary g (.ofCode code) a b) :=
      .binary fun _ => Emit.tidy_binary (.ofCode code) a b
    exact ⟨.ofCode code, fun _ => ⟨code, a, b, rfl⟩, hinto.discard.tidy⟩
  | unary _ code a =>
    cases h
    by_cases hop : Opcode.ofCode code = .neg ∨ Opcode.ofCode code = .not
    · exact quiet _ (by rcases hop with h | h <;> rw [h] <;> rfl)
        (.discard (.unary fun _ => Emit.tidy_unary _ a))
    · exact quiet .label rfl (.discard (.unary fun h => absurd h hop))
  | compare _ code a b =>
    cases h
    by_cases hop : (Opcode.ofCode code).isCompare = true
    · exact quiet _ (Bool.eq_false_iff.mpr fun h => Bool.noConfusion
        (hop.symm.trans (Opcode.isCompare_of_isBinary h)))
        (.discard (.compare fun _ => Emit.tidy_compare _ a b))
    · exact quiet .label rfl (.discard (.compare fun h => absurd h hop))
  | toBool _ a => cases h; exact quiet _ rfl (.discard (.emit (Emit.tidy_test .toBool a)))
  | toNotBool _ a =>
    cases h; exact quiet _ rfl (.discard (.emit (Emit.tidy_test .toNotBool a)))
  | convert _ a type =>
    cases h; exact quiet _ rfl (.discard (.emit (Emit.tidy_convert a type)))
  | store _ dest src => cases h; exact quiet _ rfl (.emit (Emit.tidy_store dest src))
  | addressOf _ v => cases h; exact absurd rfl (haddr v)
  | loadRel _ ptr offset type =>
    cases h; exact quiet _ rfl (.discard (.emit (Emit.tidy_loadRel ptr offset type)))
  | storeRel _ ptr offset v =>
    cases h; exact quiet _ rfl (.emit (Emit.tidy_storeRel ptr offset v))
  | loadElem _ base index type =>
    cases h; exact quiet _ rfl (.discard (.emit (Emit.tidy_loadElem base index type)))
  | storeElem _ base index v =>
    cases h; exact quiet _ rfl (.emit (Emit.tidy_storeElem base index v))
  | alloca _ size => cases h; exact quiet _ rfl (.discard (.emit (Emit.tidy_alloca size)))
  | branch _ l => cases h; exact quiet _ rfl (.emit (Emit.tidy_branch l))
  | branchIf _ cond l =>
    cases h; exact quiet _ rfl (.emit (Emit.tidy_branchOn .branchIf cond l))
  | branchIfNot _ cond l =>
    cases h; exact quiet _ rfl (.emit (Emit.tidy_branchOn .branchIfNot cond l))
  | ret _ v => cases h; exact quiet _ rfl (.emit (Emit.tidy_ret v))
  | defaultReturn => cases h; exact quiet _ rfl (.discard (.emit Emit.tidy_defaultReturn))
  | call _ callee args => cases h; exact quiet _ rfl (.discard (.call fun sig rep => Emit.tidy_call callee sig rep args))
  | callNative _ name sig args =>
    cases h; exact quiet _ rfl (.discard (.emit (Emit.tidy_callNative name sig args)))
  | math _ op args =>
    cases h; exact quiet _ rfl (.discard (.emit (Emit.tidy_math (.ofCode op) args)))
  | _ => cases h

open EngineM in
/-- Taking an address is as tidy as any operation on an engine that is founded, unless
the layouts remember a refusal. -/
theorem EngineM.ends_addressOf_tidy {e : Engine} {g : FuncId} {v : ValueId} (he : e.Founded)
    (hno : ¬ e.RefusesAddress g v) :
    Ends (addressOf g v) e (fun _ e' => e.Alters g (Func.Adds .addressOf) e')
      fun _ e' => e.Alters g Func.Converts e' := by
  refine ends_emitInto (fun _ => alters_refl e) fun f hf => ?_
  obtain ⟨hfunc, -⟩ := findOpen_ok hf
  refine (Emit.ends_addressOf_tidy v _).mono (fun _ b hb => alters_put hf hb) fun _ b hb => ?_
  rcases hb with hb | ⟨-, hb⟩
  · exact alters_put hf hb
  · obtain ⟨info, err, hvalue, hlook⟩ := hb ⟨he.tables, he.values g f hfunc⟩
    exact absurd ⟨f, info, err, hfunc, hvalue, hlook⟩ hno

/-- A rejected call leaves dead conversions only. Other functions are what they were.
The function that the call builds into has got conversions at the end of its code,
each sets a value of its own that came with the call, and nothing that was there
before reads it; everything else of the function is what it was. The address of a
value is the exception: its type must not be one that the layouts remember to have
refused. -/
theorem Engine.Reached.rejected {e : Engine} (h : e.Reached) {op : Operation} {g : FuncId}
    (hw : op.writes? = some g) (haddr : ∀ v, op = .addressOf g v → ¬ e.RefusesAddress g v)
    {err : Failure} {e' : Engine}
    (hrun : (op.perform.run e : Except Failure Unit × Engine) = (.error err, e')) :
    (∀ fn, fn ≠ g → e'.func? fn = e.func? fn) ∧ (e.func? g = none → e'.func? g = none) ∧
      ∀ f, e.func? g = some f → ∃ f', e'.func? g = some f' ∧ f.Converts f' ∧
        ∀ i ∈ f'.insns, i ∉ f.insns → ∀ j ∈ f.insns, (∀ v ∈ j.operands, v < f.values.size) →
          i.dest ∉ j.operands := by
  have hwrites : Ends op.perform e (fun _ e' => e.Touches g e' ∧ ∃ f, e.findOpen g = .ok f)
      fun _ e' => e.Touches g e' := Operation.writes_perform hw e
  have htouches : e.Touches g e' := hwrites.of_error hrun
  have halters : e.Alters g Func.Converts e' := by
    by_cases haddress : ∃ v, op = .addressOf g v
    · obtain ⟨v, rfl⟩ := haddress
      cases hw
      have hends := EngineM.ends_addressOf_tidy h.founded (haddr v rfl)
      have hdone : Ends (discard (EngineM.addressOf g v)) e
          (fun _ e' => e.Alters g (Func.Adds .addressOf) e')
          fun _ e' => e.Alters g Func.Converts e' := hends.bind' fun _ _ h => .pure' h
      exact hdone.of_error hrun
    · obtain ⟨o, -, htidy⟩ := Operation.tidy_perform hw fun v hv => haddress ⟨v, hv⟩
      have hends : Ends op.perform e (fun _ e' => e.Alters g (Func.Adds o) e')
          fun _ e' => e.Alters g Func.Converts e' := htidy e
      exact hends.of_error hrun
  refine ⟨htouches.others, fun hnone => ?_, fun f hf => ?_⟩
  · have hhome := htouches.homes.home g
    rw [hnone, Option.map_none, Option.map_eq_none_iff] at hhome
    exact hhome
  · obtain ⟨f', hf', hconv⟩ := halters f hf
    refine ⟨f', hf', hconv, fun i hi hnew j hj hvalues hread => ?_⟩
    obtain ⟨added, hadded, hinsns⟩ := hconv.insns
    rw [hadded] at hi
    rcases Array.mem_append.mp hi with hold | hi
    · exact hnew hold
    · exact Nat.not_lt.mpr (hinsns i hi).2.1 (hvalues _ hread)

/-- The engine with a function that gives an integer and has a pointer and a byte. -/
def byteAtPointer : Engine :=
  (Engine.create .amd64 0 0 (.seeded 1) 0).after
    [.createContext, .buildStart 1, .signatureType 0 Builtin.int32.id [], .createFunction 1 18 "f",
      .createValue 1 Builtin.voidPtr.id, .createValue 1 Builtin.int8.id]

/-- The byte is converted to an index before it turns out that there is no value 9. -/
theorem stray_conversion : ∃ err e' f f', byteAtPointer.Reached ∧
    ((Operation.storeElem 1 1 2 9).perform.run byteAtPointer : Except Failure Unit × Engine) =
      (.error err, e') ∧
    byteAtPointer.func? 1 = some f ∧ e'.func? 1 = some f' ∧ f'.insns.size = f.insns.size + 1 ∧
    f.Converts f' := by
  have hreached : byteAtPointer.Reached := Engine.Built.reached ⟨_, _, _, _, _, rfl⟩
  have hfails : ((Operation.storeElem 1 1 2 9).perform.run byteAtPointer :
      Except Failure Unit × Engine).1.toOption = none := by decide +kernel
  have hsize : ∀ f ∈ byteAtPointer.func? 1,
      ∀ f' ∈ (byteAtPointer.performed (.storeElem 1 1 2 9)).func? 1,
        f'.insns.size = f.insns.size + 1 := by decide +kernel
  obtain ⟨f, hf⟩ : ∃ f, byteAtPointer.func? 1 = some f :=
    Option.isSome_iff_exists.mp (by decide +kernel)
  unfold Engine.performed at hsize
  revert hfails hsize
  generalize hrun : ((Operation.storeElem 1 1 2 9).perform.run byteAtPointer :
    Except Failure Unit × Engine) = r
  obtain ⟨err | a, e'⟩ := r
  · intro hfails hsize
    have haddr : ∀ v, Operation.storeElem 1 1 2 9 = .addressOf 1 v →
        ¬ byteAtPointer.RefusesAddress 1 v := fun v hv => Operation.noConfusion hv
    obtain ⟨f', hf', hconv, -⟩ := (hreached.rejected rfl haddr hrun).2.2 f hf
    exact ⟨err, e', f, f', hreached, rfl, hf, hf', hsize f hf f' hf', hconv⟩
  · intro hfails
    cases hfails

/-- The engine with a function that has a byte. The next type, which will have the
number 19, was asked about before. -/
def askedAhead : Engine :=
  (Engine.create .amd64 0 0 (.seeded 1) 0).after
    [.createContext, .buildStart 1, .signatureType 0 Builtin.int32.id [], .createFunction 1 18 "f",
      .createValue 1 Builtin.int8.id, .layoutOf 19]

/-- The address of the byte is rejected, as no layout is known of its type, and the byte
is addressable afterwards. -/
theorem marked_by_rejection : askedAhead.Reached ∧
    ((Operation.addressOf 1 1).perform.run askedAhead :
      Except Failure Unit × Engine).1.toOption = none ∧
    ((askedAhead.func? 1).bind (·.value? 1)).map (·.addressable) = some false ∧
    (((askedAhead.performed (.addressOf 1 1)).func? 1).bind (·.value? 1)).map (·.addressable) =
      some true := by
  refine ⟨Engine.Built.reached ⟨_, _, _, _, _, rfl⟩, ?_, ?_, ?_⟩ <;> decide +kernel

end TypedIR
