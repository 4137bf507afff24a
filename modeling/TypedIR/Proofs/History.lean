import TypedIR.Proofs.Engines

/-
  The engines that programs make.

  An operation is one call of the engine that runs no code and loads no image.
  Opcodes, intrinsics, tags and conventions are named by their codes. A history
  is a list of operations, performed one after the other whether or not the ones
  before succeeded, on a fresh engine. Every function of every such engine is
  typed (`Built.typed`).
-/

namespace TypedIR

/-- What the host and runs of compiled code may do to the host: anything but
give addresses another shape. -/
structure HostChange where
  apply : Host → Host
  shape : ∀ h, (apply h).memory.offsetBits = h.memory.offsetBits

/-- The calls of the engine. What runs of compiled code and the host's own use
of memory do to an engine is a change of its host. -/
inductive Operation where
  | createContext
  | destroyContext (ctx : ContextId)
  | buildStart (ctx : ContextId)
  | buildEnd (ctx : ContextId)
  | pointerType (target : TypeId)
  | structType (fields : List TypeId)
  | signatureType (abi : UInt8) (result : TypeId) (params : List TypeId)
  | taggedType (base : TypeId) (tag : UInt8) (data : String)
  | setFieldNames (id : TypeId) (names : List String)
  | layoutOf (id : TypeId)
  | changeHost (change : HostChange)
  | registerNative (name : String) (run : NativeFunc)
  | removeNative (name : String)
  | createFunction (ctx : ContextId) (sig : TypeId) (name : String)
  | createValue (fn : FuncId) (type : TypeId)
  | setAddressable (fn : FuncId) (v : ValueId)
  | constInt (fn : FuncId) (type : TypeId) (n : Int)
  | constFloat32 (fn : FuncId) (type : TypeId) (bits : UInt32)
  | constFloat64 (fn : FuncId) (type : TypeId) (bits : Word)
  | newLabel (fn : FuncId)
  | placeLabel (fn : FuncId) (l : LabelId)
  | binary (fn : FuncId) (op : UInt8) (a b : ValueId)
  | unary (fn : FuncId) (op : UInt8) (a : ValueId)
  | compare (fn : FuncId) (op : UInt8) (a b : ValueId)
  | toBool (fn : FuncId) (a : ValueId)
  | toNotBool (fn : FuncId) (a : ValueId)
  | convert (fn : FuncId) (a : ValueId) (type : TypeId)
  | store (fn : FuncId) (dest src : ValueId)
  | addressOf (fn : FuncId) (v : ValueId)
  | loadRel (fn : FuncId) (ptr : ValueId) (offset : Int) (type : TypeId)
  | storeRel (fn : FuncId) (ptr : ValueId) (offset : Int) (v : ValueId)
  | loadElem (fn : FuncId) (base index : ValueId) (type : TypeId)
  | storeElem (fn : FuncId) (base index v : ValueId)
  | alloca (fn : FuncId) (size : ValueId)
  | branch (fn : FuncId) (l : LabelId)
  | branchIf (fn : FuncId) (cond : ValueId) (l : LabelId)
  | branchIfNot (fn : FuncId) (cond : ValueId) (l : LabelId)
  | ret (fn : FuncId) (v : ValueId)
  | defaultReturn (fn : FuncId)
  | call (fn callee : FuncId) (args : List ValueId)
  | callNative (fn : FuncId) (name : String) (sig : TypeId) (args : List ValueId)
  | math (fn : FuncId) (op : UInt8) (args : List ValueId)
  | compile (fn : FuncId)

namespace Operation

def perform : Operation → EngineM Unit
  | .createContext => discard EngineM.createContext
  | .destroyContext ctx => EngineM.destroyContext ctx
  | .buildStart ctx => EngineM.buildStart ctx
  | .buildEnd ctx => EngineM.buildEnd ctx
  | .pointerType target => discard (EngineM.pointerType target)
  | .structType fields => discard (EngineM.structType fields)
  | .signatureType abi result params =>
    discard (EngineM.signatureType (.ofCode abi) result params)
  | .taggedType base tag data => discard (EngineM.taggedType base (.ofCode tag) data)
  | .setFieldNames id names => EngineM.setFieldNames id names
  | .layoutOf id => discard (EngineM.layoutOf id)
  | .changeHost change => modify fun e => { e with host := change.apply e.host }
  | .registerNative name run => EngineM.registerNative name run
  | .removeNative name => EngineM.removeNative name
  | .createFunction ctx sig name => discard (EngineM.createFunction ctx sig name)
  | .createValue fn type => discard (EngineM.createValue fn type)
  | .setAddressable fn v => EngineM.setAddressable fn v
  | .constInt fn type n => discard (EngineM.constInt fn type n)
  | .constFloat32 fn type bits => discard (EngineM.constFloat32 fn type bits)
  | .constFloat64 fn type bits => discard (EngineM.constFloat64 fn type bits)
  | .newLabel fn => discard (EngineM.newLabel fn)
  | .placeLabel fn l => EngineM.placeLabel fn l
  | .binary fn op a b => discard (EngineM.binary fn (.ofCode op) a b)
  | .unary fn op a => discard (EngineM.unary fn (.ofCode op) a)
  | .compare fn op a b => discard (EngineM.compare fn (.ofCode op) a b)
  | .toBool fn a => discard (EngineM.toBool fn a)
  | .toNotBool fn a => discard (EngineM.toNotBool fn a)
  | .convert fn a type => discard (EngineM.convert fn a type)
  | .store fn dest src => EngineM.store fn dest src
  | .addressOf fn v => discard (EngineM.addressOf fn v)
  | .loadRel fn ptr offset type => discard (EngineM.loadRel fn ptr offset type)
  | .storeRel fn ptr offset v => EngineM.storeRel fn ptr offset v
  | .loadElem fn base index type => discard (EngineM.loadElem fn base index type)
  | .storeElem fn base index v => EngineM.storeElem fn base index v
  | .alloca fn size => discard (EngineM.alloca fn size)
  | .branch fn l => EngineM.branch fn l
  | .branchIf fn cond l => EngineM.branchIf fn cond l
  | .branchIfNot fn cond l => EngineM.branchIfNot fn cond l
  | .ret fn v => EngineM.ret fn v
  | .defaultReturn fn => discard (EngineM.defaultReturn fn)
  | .call fn callee args => discard (EngineM.call fn callee args)
  | .callNative fn name sig args => discard (EngineM.callNative fn name sig args)
  | .math fn op args => discard (EngineM.math fn (.ofCode op) args)
  | .compile fn => EngineM.compile fn

def AsksKnown (e : Engine) : Operation → Prop
  | .layoutOf id => (e.types.find? id).isSome
  | _ => True

end Operation

namespace Engine

def performed (e : Engine) (op : Operation) : Engine :=
  ((op.perform.run e : Except Failure Unit × Engine)).2

def after (e : Engine) (ops : List Operation) : Engine :=
  ops.foldl performed e

/-- Whether no operation of a history asks for the layout of a type that is not
there yet. -/
def AsksKnown (e : Engine) : List Operation → Prop
  | [] => True
  | op :: ops => op.AsksKnown e ∧ (e.performed op).AsksKnown ops

end Engine

variable {strict : Prop} {e : Engine}

theorem MathOp.ofCode_code_ofCode (n : UInt8) : ofCode (ofCode n).code = ofCode n := by
  have hall : ∀ n : Fin 256, ofCode (ofCode (UInt8.ofNat n)).code = ofCode (UInt8.ofNat n) := by
    decide +kernel
  simpa using hall ⟨n.toNat, n.toNat_lt⟩

open TypedIR.Keeps in
theorem Keeps.discard {α : Type} {act : EngineM α}
    (h : Keeps (Engine.Step strict) act e (fun _ _ => True)) :
    Keeps (Engine.Step strict) (Functor.discard act) e (fun _ _ => True) :=
  bind' h fun _ _ hs _ => pure' (.refl hs.typed) trivial

open EngineM in
open TypedIR.Keeps in
theorem Operation.keeps_perform (h : e.Typed strict) (op : Operation)
    (hask : strict → op.AsksKnown e) :
    Keeps (Engine.Step strict) op.perform e (fun _ _ => True) := by
  have emit : ∀ {α : Type} (fn : FuncId) {act : EmitM α},
      (∀ b : Bench, b.Typed strict e.heads →
        Keeps (Bench.Step strict e.heads) act b (fun _ _ => True)) →
      Keeps (Engine.Step strict) (emitInto fn act) e (fun _ _ => True) :=
    fun fn _ hact => keeps_emitInto h fn fun b _ _ hb => hact b hb
  unfold perform
  cases op with
  | createContext => exact .discard (keeps_createContext h)
  | destroyContext ctx => exact keeps_destroyContext h ctx
  | buildStart ctx => exact keeps_buildStart h ctx
  | buildEnd ctx => exact keeps_buildEnd h ctx
  | pointerType target => exact .discard (keeps_pointerType h target)
  | structType fields => exact .discard (keeps_structType h fields)
  | signatureType abi result params => exact .discard (keeps_signatureType h _ result params)
  | taggedType base tag data => exact .discard (keeps_taggedType h base _ data)
  | setFieldNames id names => exact keeps_setFieldNames h id names
  | layoutOf id =>
    refine .discard (mono (keeps_layoutOf h fun hs => ?_) fun _ _ _ _ => trivial)
    obtain ⟨d, hd⟩ := Option.isSome_iff_exists.mp (hask hs)
    exact (TypeTable.find?_lt hd).2
  | changeHost change =>
    exact mono (modify' (.of_same h rfl (change.shape _) rfl rfl rfl)) fun _ _ _ _ => trivial
  | registerNative name run => exact keeps_registerNative h name run
  | removeNative name => exact keeps_removeNative h name
  | createFunction ctx sig name => exact .discard (keeps_createFunction h ctx sig name)
  | createValue fn type => exact .discard (emit fn fun b hb => Emit.Keeps.createLocal hb type)
  | setAddressable fn v => exact emit fn fun b hb => Emit.Keeps.setAddressable hb v
  | constInt fn type n =>
    exact .discard (emit fn fun b hb => Emit.Keeps.constant hb type (Word.ofInt n) (.inl rfl))
  | constFloat32 fn type bits => exact .discard (keeps_constFloat32 h fn type bits)
  | constFloat64 fn type bits => exact .discard (keeps_constFloat64 h fn type bits)
  | newLabel fn => exact .discard (emit fn fun b hb => Emit.Keeps.newLabel hb)
  | placeLabel fn l => exact emit fn fun b hb => Emit.Keeps.placeLabel hb l
  | binary fn op x y =>
    refine .discard (ite' (fun _ => ?_) fun hop => ?_)
    · exact keeps_fail_bind h _
    · exact emit fn fun b hb => Emit.Keeps.binary hb (by simpa using hop) x y
  | unary fn op x =>
    refine .discard (ite' (fun _ => ?_) fun hop => ?_)
    · exact keeps_fail_bind h _
    · exact emit fn fun b hb => Emit.Keeps.unary hb (by grind) x
  | compare fn op x y =>
    refine .discard (ite' (fun _ => ?_) fun hop => ?_)
    · exact keeps_fail_bind h _
    · exact emit fn fun b hb => Emit.Keeps.compare hb (by simpa using hop) x y
  | toBool fn x => exact .discard (emit fn fun b hb => Emit.Keeps.test hb (.inl rfl) x)
  | toNotBool fn x => exact .discard (emit fn fun b hb => Emit.Keeps.test hb (.inr rfl) x)
  | convert fn x type => exact .discard (emit fn fun b hb => Emit.Keeps.convert hb x type)
  | store fn dest src => exact emit fn fun b hb => Emit.Keeps.store hb dest src
  | addressOf fn v => exact .discard (emit fn fun b hb => Emit.Keeps.addressOf hb v)
  | loadRel fn ptr offset type =>
    exact .discard (emit fn fun b hb => Emit.Keeps.loadRel hb ptr offset type)
  | storeRel fn ptr offset v => exact emit fn fun b hb => Emit.Keeps.storeRel hb ptr offset v
  | loadElem fn base index type =>
    exact .discard (emit fn fun b hb => Emit.Keeps.loadElem hb base index type)
  | storeElem fn base index v => exact emit fn fun b hb => Emit.Keeps.storeElem hb base index v
  | alloca fn size => exact .discard (emit fn fun b hb => Emit.Keeps.alloca hb size)
  | branch fn l => exact emit fn fun b hb => Emit.Keeps.branch hb l
  | branchIf fn cond l => exact emit fn fun b hb => Emit.Keeps.branchOn hb (.inl rfl) cond l
  | branchIfNot fn cond l => exact emit fn fun b hb => Emit.Keeps.branchOn hb (.inr rfl) cond l
  | ret fn v => exact emit fn fun b hb => Emit.Keeps.ret hb v
  | defaultReturn fn => exact .discard (emit fn fun b hb => Emit.Keeps.defaultReturn hb)
  | call fn callee args => exact .discard (keeps_call h fn callee args)
  | callNative fn name sig args =>
    exact .discard (emit fn fun b hb => Emit.Keeps.callNative hb name sig args)
  | math fn op args =>
    exact .discard (emit fn fun b hb => Emit.Keeps.math hb (MathOp.ofCode_code_ofCode op) args)
  | compile fn => exact keeps_compile h fn

namespace Engine

theorem step_performed (h : e.Typed strict) (op : Operation) (hask : strict → op.AsksKnown e) :
    Step strict e (e.performed op) := by
  have hrun := Operation.keeps_perform h op hask
  unfold Keeps Ends at hrun
  unfold performed
  rcases hr : (op.perform.run e : Except Failure Unit × Engine) with ⟨_ | _, e'⟩ <;> rw [hr] at hrun
  · exact hrun
  · exact hrun.1

theorem typed_create (target : Target) (maxSteps maxDepth : Int) (rng : Generator) (clock : Int) :
    (create target maxSteps maxDepth rng clock).Typed strict := by
  refine ⟨TypeTable.initial_ordered, Layout.honest_nil, ?_, ?_, ?_⟩ <;>
  · intro fn f hf
    have := (func?_lt hf).2.2
    simp [create] at this

theorem step_after (h : e.Typed strict) (ops : List Operation) (hask : strict → e.AsksKnown ops) :
    Step strict e (e.after ops) := by
  induction ops generalizing e with
  | nil => exact .refl h
  | cons op ops ih =>
    have hop := step_performed h op fun hs => (hask hs).1
    exact Trans.trans hop (ih hop.typed fun hs => (hask hs).2)

/-- Some history of operations leads to the engine from a fresh one. -/
def Built (target : Target) (e : Engine) : Prop :=
  ∃ maxSteps maxDepth rng clock ops, e = (create target maxSteps maxDepth rng clock).after ops

/-- After every history from a fresh engine all functions are typed, and
compiled functions are ready to run. -/
theorem Built.typed {target : Target} (h : Built target e) : e.Typed False := by
  obtain ⟨maxSteps, maxDepth, rng, clock, ops, rfl⟩ := h
  exact (step_after (typed_create target maxSteps maxDepth rng clock) ops nofun).typed

theorem Built.shape {target : Target} (h : Built target e) (h0 : target.ptrSize ≠ 0) :
    e.target = target ∧
      e.host.memory.offsetBits = (Memory.forPointers target.ptrSize).offsetBits := by
  obtain ⟨maxSteps, maxDepth, rng, clock, ops, rfl⟩ := h
  have hstep := step_after (typed_create target maxSteps maxDepth rng clock) ops
    fun h : False => h.elim
  exact ⟨hstep.scope.target.trans (if_neg h0), hstep.shape.trans (by simp [create, h0])⟩

end Engine

end TypedIR
