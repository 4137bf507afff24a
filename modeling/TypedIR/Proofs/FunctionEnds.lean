import Mathlib.Logic.Relation
import TypedIR.Llvm.Lower
import TypedIR.Proofs.CodeOperations

/-
  A compiled function never falls off its end.

  A client calls operations of the builder one after the other (`ClientCall`).
  Whatever it calls, what is known of functions stays known, so a function that
  compiled has code that control cannot leave, and gives a value where it has one
  to give: a frame of it is at an instruction always, and ends at a return
  (`Workspace.Reaches.never_falls_off`).

  The signature has to be one of the runtime the function is built in. With the
  signature of another runtime the builder and the engine have different results
  in mind, and the function ends without the value it should give
  (`ends_without_value`).
-/

namespace TypedIR

open BuildM

/-- What a client of the builder can call. Whole builds, statements and loops
with their bodies are sequences of these. Questions that only look at the
workspace are left out. -/
inductive ClientCall : {α : Type} → BuildM α → Prop
  | newRuntime (o : RuntimeOptions) : ClientCall (newRuntime o)
  | newContext (rt : RuntimeId) (uid : String) : ClientCall (newContext rt uid)
  | registerNative (rt : RuntimeId) (name : String) (params : List Ty) (ret : Ty)
      (variadic : Bool) (run : Option NativeFunc) :
      ClientCall (registerNative rt name params ret variadic run)
  | removeNative (rt : RuntimeId) (name : String) : ClientCall (removeNative rt name)
  | takeOutput (rt : RuntimeId) : ClientCall (takeOutput rt)
  | buildStart (c : CtxId) : ClientCall (buildStart c)
  | buildFinish (b : BuildId) : ClientCall (buildFinish b)
  | buildEnd (c : CtxId) : ClientCall (buildEnd c)
  | destroy (c : CtxId) : ClientCall (destroy c)
  | createType (rt : RuntimeId) (args : List HostValue) : ClientCall (createType rt args)
  | pointerTy (rt : RuntimeId) (target : Ty) : ClientCall (pointerTy rt target)
  | structTy (rt : RuntimeId) (fields : List Ty) : ClientCall (structTy rt fields)
  | signatureTy (rt : RuntimeId) (params : List Ty) (ret : Ty) (abi : Abi) :
      ClientCall (signatureTy rt params ret abi)
  | setFieldNames (t : Ty) (names : List String) : ClientCall (setFieldNames t names)
  | withName (t : Ty) (name : String) : ClientCall (withName t name)
  | layoutOf? (t : Ty) : ClientCall (layoutOf? t)
  | fieldType (t : Ty) (i : Int) : ClientCall (fieldType t i)
  | fieldOffset (t : Ty) (i : Int) : ClientCall (fieldOffset t i)
  | fieldName (t : Ty) (i : Int) : ClientCall (fieldName t i)
  | compatible (a b : Ty) : ClientCall (compatible a b)
  | newFunction (b : BuildId) (name : String) (sig : Ty) : ClientCall (newFunction b name sig)
  | startFunction (b : BuildId) (params : List Ty) (ret : Ty) :
      ClientCall (startFunction b params ret)
  | loadImage (b : BuildId) (img : Option Image) : ClientCall (loadImage b img)
  | compile (f : FnId) : ClientCall (compile f)
  | arg (f : FnId) (i : Int) : ClientCall (arg f i)
  | args (f : FnId) : ClientCall (args f)
  | wrapValue (f : FnId) (id : ValueId) : ClientCall (wrapValue f id)
  | listing (f : FnId) : ClientCall (listing f)
  | image (f : FnId) : ClientCall (image f)
  | call (f : FnId) (args : List HostValue) : ClientCall (call f args)
  | callMany (f : FnId) (sets : List (List HostValue)) (parent : Nat) :
      ClientCall (callMany f sets parent)
  | const (f : FnId) (t : Ty) (x : HostValue) : ClientCall (const f t x)
  | constInt (f : FnId) (t : Ty) (n : Int) : ClientCall (constInt f t n)
  | constUint (f : FnId) (t : Ty) (n : Nat) : ClientCall (constUint f t n)
  | constFloat (f : FnId) (t : Ty) (x : Double) : ClientCall (constFloat f t x)
  | constBool (f : FnId) (b : Bool) : ClientCall (constBool f b)
  | null (f : FnId) : ClientCall (null f)
  | constInt? (v : Val) : ClientCall (constInt? v)
  | constUint? (v : Val) : ClientCall (constUint? v)
  | constFloat? (v : Val) : ClientCall (constFloat? v)
  | constBool? (v : Val) : ClientCall (constBool? v)
  | numeric? (v : Val) : ClientCall (numeric? v)
  | declare (f : FnId) (t : Ty) : ClientCall (declare f t)
  | store (v : Val) (x : HostValue) : ClientCall (store v x)
  | address (v : Val) : ClientCall (address v)
  | setAddressable (v : Val) : ClientCall (setAddressable v)
  | toBool (v : Val) : ClientCall (toBool v)
  | toNotBool (v : Val) : ClientCall (toNotBool v)
  | cast (v : Val) (t : Ty) : ClientCall (cast v t)
  | binary (name : String) (op : Opcode) (v : Val) (x : HostValue) :
      ClientCall (binary name op v x)
  | compare (name : String) (op : Opcode) (v : Val) (x : HostValue) :
      ClientCall (compare name op v x)
  | unary (name : String) (op : Opcode) (v : Val) : ClientCall (unary name op v)
  | logical (name : String) (op : Opcode) (v : Val) (x : HostValue) :
      ClientCall (logical name op v x)
  | math (f : FnId) (op : MathOp) (args : List HostValue) : ClientCall (math f op args)
  | mload (v : Val) (offset : Int) (t : Ty) : ClientCall (mload v offset t)
  | mstore (v : Val) (x : HostValue) (offset : Int) : ClientCall (mstore v x offset)
  | deref (v : Val) (t : Option Ty) : ClientCall (deref v t)
  | loadElem (v : Val) (index : HostValue) (t : Option Ty) : ClientCall (loadElem v index t)
  | storeElem (v : Val) (index x : HostValue) : ClientCall (storeElem v index x)
  | field (v : Val) (i : Int) : ClientCall (field v i)
  | setField (v : Val) (i : Int) (x : HostValue) : ClientCall (setField v i x)
  | fieldNamed (v : Val) (name : String) : ClientCall (fieldNamed v name)
  | setFieldNamed (v : Val) (name : String) (x : HostValue) :
      ClientCall (setFieldNamed v name x)
  | alloca (f : FnId) (size : HostValue) : ClientCall (alloca f size)
  | stringz (f : FnId) (s : Text.Bytes) : ClientCall (stringz f s)
  | ret (f : FnId) (x : HostValue) : ClientCall (ret f x)
  | retVoid (f : FnId) : ClientCall (retVoid f)
  | callOther (f : FnId) (callee : Option FnId) (args : List HostValue) :
      ClientCall (callOther f callee args)
  | callNative (f : FnId) (name : String) (args : List HostValue) :
      ClientCall (callNative f name args)
  | callLibrary (f : FnId) (name : String) (args : List HostValue) :
      ClientCall (callLibrary f name args)
  | newLabel (f : FnId) : ClientCall (newLabel f)
  | placeLabel (l : Label) : ClientCall (placeLabel l)
  | jump (f : FnId) (l : Option Label) : ClientCall (jump f l)
  | jumpIf (f : FnId) (cond : Val) (l : Option Label) : ClientCall (jumpIf f cond l)
  | jumpIfNot (f : FnId) (cond : Val) (l : Option Label) : ClientCall (jumpIfNot f cond l)
  | breakLoop (f : FnId) : ClientCall (breakLoop f)
  | branchTest (b : Branch) : ClientCall b.test
  | branchTurn (b : Branch) : ClientCall b.turn
  | branchFinish (b : Branch) : ClientCall b.finish
  | loopStart (l : Loop) : ClientCall l.start
  | loopTest (l : Loop) (c : Val) (leaving : Bool) : ClientCall (l.test c leaving)
  | loopEnter (l : Loop) : ClientCall l.enter
  | loopLeave (l : Loop) : ClientCall l.leave
  | loopWithout (l : Loop) : ClientCall l.noCondition
  | loopFinish (l : Loop) : ClientCall l.finish

theorem ClientCall.goes {α : Type} {act : BuildM α} (h : ClientCall act) :
    Leaves Workspace.Goes act := by
  cases h with
  | newRuntime o => exact goes_newRuntime o
  | newContext rt uid => exact goes_newContext rt uid
  | registerNative rt name params ret variadic run => exact goes_registerNative rt name _ _ _ _
  | removeNative rt name => exact goes_removeNative rt name
  | takeOutput rt => exact goes_takeOutput rt
  | buildStart c => exact goes_buildStart c
  | buildFinish b => exact goes_buildFinish b
  | buildEnd c => exact goes_buildEnd c
  | destroy c => exact goes_destroy c
  | createType rt args => exact goes_createType rt args
  | pointerTy rt target => exact goes_pointerTy rt target
  | structTy rt fields => exact goes_structTy rt fields
  | signatureTy rt params ret abi => exact goes_signatureTy rt params ret abi
  | setFieldNames t names => exact goes_setFieldNames t names
  | withName t name => exact goes_withName t name
  | layoutOf? t => exact (asks_layoutOf? t).leaves
  | fieldType t i => exact leaves_fieldType t i
  | fieldOffset t i => exact leaves_fieldOffset t i
  | fieldName t i => exact leaves_fieldName t i
  | compatible a b => exact (asks_compatible a b).leaves
  | newFunction b name sig => exact goes_newFunction b name sig
  | startFunction b params ret => exact goes_startFunction b params ret
  | loadImage b img => exact goes_loadImage b img
  | compile f => exact goes_compile f
  | arg f i => exact goes_arg f i
  | args f => exact goes_args f
  | wrapValue f id => exact goes_wrapValue f id
  | listing f => exact goes_listing f
  | image f => exact goes_image f
  | call f args => exact goes_call f args
  | callMany f sets parent => exact goes_callMany f sets parent
  | const f t x => exact goes_const f t x
  | constInt f t n => exact goes_constInt f t n
  | constUint f t n => exact goes_constUint f t n
  | constFloat f t x => exact goes_constFloat f t x
  | constBool f b => exact goes_constBool f b
  | null f => exact goes_null f
  | constInt? v => exact goes_constInt? v
  | constUint? v => exact goes_constUint? v
  | constFloat? v => exact goes_constFloat? v
  | constBool? v => exact goes_constBool? v
  | numeric? v => exact goes_numeric? v
  | declare f t => exact goes_declare f t
  | store v x => exact goes_store v x
  | address v => exact goes_address v
  | setAddressable v => exact goes_setAddressable v
  | toBool v => exact goes_toBool v
  | toNotBool v => exact goes_toNotBool v
  | cast v t => exact goes_cast v t
  | binary name op v x => exact goes_binary name op v x
  | compare name op v x => exact goes_compare name op v x
  | unary name op v => exact goes_unary name op v
  | logical name op v x => exact goes_logical name op v x
  | math f op args => exact goes_math f op args
  | mload v offset t => exact goes_mload v offset t
  | mstore v x offset => exact goes_mstore v x offset
  | deref v t => exact goes_deref v t
  | loadElem v index t => exact goes_loadElem v index t
  | storeElem v index x => exact goes_storeElem v index x
  | field v i => exact goes_field v i
  | setField v i x => exact goes_setField v i x
  | fieldNamed v name => exact goes_fieldNamed v name
  | setFieldNamed v name x => exact goes_setFieldNamed v name x
  | alloca f size => exact goes_alloca f size
  | stringz f s => exact goes_stringz f s
  | ret f x => exact goes_ret f x
  | retVoid f => exact goes_retVoid f
  | callOther f callee args => exact goes_callOther f callee args
  | callNative f name args => exact goes_callNative f name args
  | callLibrary f name args => exact goes_callLibrary f name args
  | newLabel f => exact goes_newLabel f
  | placeLabel l => exact goes_placeLabel l
  | jump f l => exact goes_jump f l
  | jumpIf f cond l => exact goes_jumpIf f cond l
  | jumpIfNot f cond l => exact goes_jumpIfNot f cond l
  | breakLoop f => exact goes_breakLoop f
  | branchTest b => exact b.goes_test
  | branchTurn b => exact b.goes_turn
  | branchFinish b => exact b.goes_finish
  | loopStart l => exact l.goes_start
  | loopTest l c leaving => exact l.goes_test c leaving
  | loopEnter l => exact l.goes_enter
  | loopLeave l => exact l.goes_leave
  | loopWithout l => exact l.goes_noCondition
  | loopFinish l => exact l.goes_finish

/-! ## Sequences of calls -/

namespace Workspace

/-- What a client can do in one call; the call may also have stopped. -/
inductive Step (w : Workspace) : Workspace → Prop
  | call {α : Type} {act : BuildM α} (h : ClientCall act) :
      Step w (act.run w : Except Stop α × Workspace).2

/-- Some calls lead from one workspace to the other. -/
def Reaches : Workspace → Workspace → Prop := Relation.ReflTransGen Step

theorem Step.goes {w w' : Workspace} (h : w.Step w') : w.Goes w' := by
  cases h with
  | call h => exact h.goes w

theorem Reaches.goes {w w' : Workspace} (h : w.Reaches w') : w.Goes w' := by
  induction h with
  | refl => exact Std.Refl.refl w
  | tail _ hs ih => exact Trans.trans ih hs.goes

theorem linked_empty : ({} : Workspace).Linked := ⟨nofun, nofun, nofun⟩

/-- The ways to make a function that is built: of a signature of the runtime it
is built in, and of parameter and result types. -/
inductive Creates (w : Workspace) : BuildM FnId → Prop
  | ofSignature (b : BuildId) (name : String) {sig : Ty} (h : w.Owns b sig) :
      Creates w (newFunction b name sig)
  | ofTypes (b : BuildId) (params : List Ty) (ret : Ty) : Creates w (startFunction b params ret)

theorem Creates.makes {w w' : Workspace} {make : BuildM FnId} (h : w.Creates make) (hl : w.Linked)
    {fn : FnId} (hrun : (make.run w : Except Stop FnId × Workspace) = (.ok fn, w')) :
    w.Makes True fn w' := by
  cases h with
  | @ofSignature b name sig hown =>
    obtain ⟨hl', ⟨s, f, hs, hsound, hret⟩, hold⟩ := (ends_newFunction hl b name sig).ok_of_run hrun
    exact ⟨hl', ⟨s, f, hs, hsound, fun _ => hret hown⟩, hold⟩
  | ofTypes b params ret => exact (ends_startFunction hl b params ret).ok_of_run hrun

end Workspace

/-! ## Returns -/

/-- The instruction at a position is a return, with an operand if the function
gives a value. -/
def Func.AtReturn (f : Func) (pc : Nat) : Prop :=
  ∃ i, f.insns[pc]? = some i ∧ i.op = .ret ∧ (f.ret.cls ≠ .void → i.a ≠ 0)

/-- The function never falls off its end, whatever engine, limits, arguments and
memory it runs with, and whoever calls it: a frame of it is at an instruction,
a step that ends a frame of it is a return, and if a call of it gives a result,
a return did. -/
structure Func.EndsAtReturns (f : Func) : Prop where
  inside : ∀ {e : Engine} {root : Func} {args : List Word} {m : Machine},
    Machine.Visits e root args m → ∀ fr ∈ m.frames, fr.func = f → fr.pc < f.insns.size
  ends : ∀ {e : Engine} {root : Func} {args : List Word} {m m' : Machine} {fr : Frame}
    {rest : List Frame} {answer : Option Word}, Machine.Visits e root args m →
    m.frames = fr :: rest → fr.func = f →
    ((StepM.step e).run m : Except (Halt Failure) (Option Word) × Machine) = (.ok answer, m') →
    m'.frames.length < m.frames.length → f.AtReturn fr.pc
  result : ∀ {e : Engine} {fuel : Nat} {args : List Word} {bits : Word} {m' : Machine},
    Machine.call e fuel e.host f args = (.result bits, m') →
    ∃ m fr, Machine.Visits e f args m ∧ m.frames = [fr] ∧ fr.func = f ∧ f.AtReturn fr.pc ∧
      ((StepM.step e).run m : Except (Halt Failure) (Option Word) × Machine) = (.ok (some bits), m')

theorem Machine.Visits.single {e : Engine} {root : Func} {args : List Word} {m m' : Machine}
    {bits : Word} (h : Visits e root args m)
    (hs : ((StepM.step e).run m : Except (Halt Failure) (Option Word) × Machine) =
      (.ok (some bits), m')) : ∃ fr, m.frames = [fr] ∧ fr.func = root := by
  have hlands := StepM.lands_step e m
  unfold StepM.Lands Ends at hlands
  rw [hs] at hlands
  obtain ⟨f, pc, rest, hspots, hadvance, hend⟩ := hlands
  have hnil : m'.spots = [] := hend rfl
  rw [hnil] at hadvance
  have hrest : rest = [] := by
    cases hadvance with
    | ret => rfl
    | fall => rfl
  subst hrest
  have hroot := h.outermost (f, pc) (by rw [hspots]; rfl)
  obtain ⟨fr, hfr, hspot⟩ := List.map_eq_singleton_iff.mp hspots
  exact ⟨fr, hfr, (congrArg Prod.fst hspot).trans hroot⟩

theorem Func.Closed.endsAtReturns {f : Func} (hclosed : f.Closed) (hreturns : f.ReturnsOperands) :
    f.EndsAtReturns := by
  have hends : ∀ {e : Engine} {root : Func} {args : List Word} {m m' : Machine} {fr : Frame}
      {rest : List Frame} {answer : Option Word}, Machine.Visits e root args m →
      m.frames = fr :: rest → fr.func = f →
      ((StepM.step e).run m : Except (Halt Failure) (Option Word) × Machine) = (.ok answer, m') →
      m'.frames.length < m.frames.length → f.AtReturn fr.pc := by
    rintro e root args m m' fr rest answer h hfr rfl hs hlt
    obtain ⟨i, hi, hop⟩ := h.ends_at_return hfr hclosed hs hlt
    exact ⟨i, hi, hop, fun hcls ha => hcls (hreturns i (Array.mem_of_getElem? hi) hop ha)⟩
  refine ⟨?_, hends, ?_⟩
  · rintro e root args m h fr hfr rfl
    exact h.inside hfr hclosed
  · intro e fuel args bits m' hcall
    obtain ⟨m, h, hs⟩ := Machine.Visits.last_of_call hcall
    obtain ⟨fr, hfr, hf⟩ := h.single hs
    refine ⟨m, fr, h, hfr, hf, hends h hfr hf hs ?_, hs⟩
    simp [(Machine.frames_of_result hs).1, hfr]

/-- Compiled functions never fall off their ends. A client does anything, makes
a function, does anything, compiles the function, and does anything: then what
the function stands for is compiled, and ends at returns only. -/
theorem Workspace.Reaches.never_falls_off {w w₁ w₂ w₃ w₄ : Workspace} {make : BuildM FnId}
    {fn : FnId} (h : Reaches {} w) (hmake : w.Creates make)
    (hmade : (make.run w : Except Stop FnId × Workspace) = (.ok fn, w₁)) (h₁ : w₁.Reaches w₂)
    (hcompile : ((compile fn).run w₂ : Except Stop Unit × Workspace) = (.ok (), w₃))
    (h₃ : w₃.Reaches w₄) :
    ∃ s f, w₄.Has fn s f ∧ f.compiled = true ∧ f.EndsAtReturns := by
  obtain ⟨hl, -⟩ := h.goes linked_empty
  obtain ⟨hl₁, ⟨s₁, f₁, hs₁, hsound₁, hret₁⟩, -⟩ := hmake.makes hl hmade
  obtain ⟨hgo, hdone⟩ := (ends_compile (h₁.goes hl₁).1 fn).ok_of_run hcompile
  obtain ⟨hl₂, hgo₂⟩ := h₁.goes hl₁
  obtain ⟨s₂, f₂, hs₂, hg₂⟩ := hgo₂ fn s₁ f₁ hs₁
  obtain ⟨hl₃, hgo₃⟩ := hgo hl₂
  obtain ⟨s₃, f₃, hs₃, hg₃⟩ := hgo₃ fn s₂ f₂ hs₂
  obtain ⟨s₄, f₄, hs₄, hg₄⟩ := (h₃.goes hl₃).2 fn s₃ f₃ hs₃
  have hg := (hg₂.trans hg₃).trans hg₄
  have hcompiled : s₄.compiled = true := by
    obtain ⟨t, ht, hc⟩ := hdone
    obtain rfl := Option.mem_unique hs₃.1 ht
    exact hg₄.compiled hc
  have hsound := hg.sound hsound₁
  have hf := hsound.compiled hcompiled
  refine ⟨s₄, f₄, hs₄, hf, (hsound.closed hf).endsAtReturns (hsound.returns ?_ (.inr hf))⟩
  rw [hg.result, hg.ret]
  exact hret₁ trivial

/-! ## Two functions -/

def Workspace.after {α : Type} (w : Workspace) (act : BuildM α) : Workspace :=
  (act.run w : Except Stop α × Workspace).2

theorem Workspace.run_after {α : Type} {w : Workspace} {act : BuildM α} {x : Except Stop α}
    (h : (act.run w : Except Stop α × Workspace).1 = x) :
    (act.run w : Except Stop α × Workspace) = (x, w.after act) :=
  Prod.ext h rfl

def building : Workspace :=
  (({} : Workspace).after (newRuntime {})).after (newContext 0 "c") |>.after (buildStart 0)

def unwritten : Workspace := building.after (startFunction 0 [] (Builtin.int64.ty 0))

def compiledSeven : Workspace := (unwritten.after (ret 0 (.int .int 7))).after (compile 0)

theorem seven_never_falls_off :
    ∃ s f, compiledSeven.Has 0 s f ∧ f.compiled = true ∧ f.EndsAtReturns := by
  have hstart : Workspace.Reaches {} building :=
    ((Relation.ReflTransGen.refl.tail (.call (.newRuntime {}))).tail
      (.call (.newContext 0 "c"))).tail (.call (.buildStart 0))
  have hmade : ((startFunction 0 [] (Builtin.int64.ty 0)).run building :
      Except Stop FnId × Workspace) = (.ok 0, unwritten) := Workspace.run_after (by decide +kernel)
  have hcompile : ((compile 0).run (unwritten.after (ret 0 (.int .int 7))) :
      Except Stop Unit × Workspace) = (.ok (), compiledSeven) := Workspace.run_after (by decide +kernel)
  exact hstart.never_falls_off (.ofTypes 0 [] _) hmade (.single (.call (.ret 0 _))) hcompile .refl

/-- Types of two runtimes have the same number. The signature of the first is
one of a function that gives nothing, the one of the second gives an integer. -/
def mixedSignatures : BuildM FnId := do
  let first ← newRuntime {}
  let sig ← signatureTy first [] (Builtin.void.ty first) .cdecl
  let second ← newRuntime {}
  let _ ← signatureTy second [] (Builtin.int64.ty second) .cdecl
  let b ← buildStart (← newContext second "c")
  let f ← newFunction b "f" sig
  compile f
  pure f

/-- With the signature of another runtime, a function that gives an integer
compiles without code of its own. A call comes to its end and gives 0, by a
return without an operand. -/
theorem ends_without_value :
    ∃ w s f, (mixedSignatures.run {} : Except Stop FnId × Workspace) = (.ok 0, w) ∧
      w.Has 0 s f ∧ s.compiled = true ∧ f.ret.cls = .int ∧
      (∃ r, w.runtimes[s.runtime]? = some r ∧
        (Machine.call r.engine 5 r.engine.host f []).1 = .result 0) ∧ ¬ f.EndsAtReturns := by
  have hcheck : (mixedSignatures.run {} : Except Stop FnId × Workspace).1 = .ok 0 ∧
      ∃ s ∈ (({} : Workspace).after mixedSignatures).functions[(0 : Nat)]?, s.compiled = true ∧
      ∃ r ∈ (({} : Workspace).after mixedSignatures).runtimes[s.runtime]?,
      ∃ f ∈ r.engine.func? s.id, f.ret.cls = .int ∧ (∀ i ∈ f.insns, i.a = 0) ∧
        (Machine.call r.engine 5 r.engine.host f []).1 = .result 0 := by decide +kernel
  obtain ⟨hanswer, s, hs, hc, r, hr, f, hf, hcls, hbare, hcall⟩ := hcheck
  refine ⟨_, s, f, Workspace.run_after hanswer, ⟨hs, r, hr, hf⟩, hc, hcls, ⟨r, hr, hcall⟩, fun h => ?_⟩
  obtain ⟨m, fr, -, -, -, ⟨i, hi, -, hoperand⟩, -⟩ := h.result (Prod.ext hcall rfl)
  exact hoperand (by rw [hcls]; nofun) (hbare i (Array.mem_of_getElem? hi))

/-- In a module, the function of `mixedSignatures` gives 64 bits and ends by `ret void`. -/
theorem exports_without_value : (mixedSignatures.run {} : Except Stop FnId × Workspace).1 = .ok 0 ∧
    ∃ r ∈ (({} : Workspace).after mixedSignatures).runtimes[(1 : Nat)]?,
    ∃ f ∈ r.engine.func? 1, (Machine.call r.engine 5 r.engine.host f []).1 = .result 0 ∧
    ∃ g ∈ (({} : Llvm.Module).addFunction r.engine 1 {}).2.functions[(0 : Nat)]?, g.ret = .int 64 ∧
    ∃ b ∈ g.body, b.listed.head?.bind (·.terminator) = some (.ret none) := by decide +kernel

end TypedIR
