import TypedIR.Proofs.BuilderOperations

/-
  Operations of the builder that emit code keep what is known of functions.

  Each emits into the function it belongs to, after it has made operands of what
  it was given, and keeps its problem with that function.
-/

namespace TypedIR

open Workspace

namespace BuildM

/-! ## Constants and operands -/

theorem goes_constBits (f : FnId) (t : Ty) (n : Int) : Leaves Goes (constBits f t n) :=
  goes_emit f _ fun _ => .emits (Emit.edits_constant _ _ _)

theorem goes_constUnsigned (f : FnId) (t : Ty) (n : Nat) : Leaves Goes (constUnsigned f t n) :=
  .bind' (asks_widthOf t).leaves fun _ => .ite' (goes_rejectText f _ t _) <|
    .ite' (goes_rejectText f _ t _) (.ite' (.throw' _) (goes_constBits f t _))

theorem goes_constSigned (f : FnId) (t : Ty) (n : Int) : Leaves Goes (constSigned f t n) :=
  .bind' (asks_widthOf t).leaves fun _ => .ite' (goes_constBits f t n) (goes_rejectText f _ t _)

theorem goes_constInt (f : FnId) (t : Ty) (n : Int) : Leaves Goes (constInt f t n) :=
  .bind' (asks_isIntType t).leaves fun _ => .ite' (goes_rejectText f _ t _) <|
    .bind' (asks_isUnsignedLike t).leaves fun _ => .ite'
      (.ite' (goes_rejectText f _ t _) (goes_constUnsigned f t _)) (goes_constSigned f t n)

theorem goes_constUint (f : FnId) (t : Ty) (n : Nat) : Leaves Goes (constUint f t n) :=
  .bind' (asks_isIntType t).leaves fun _ => .ite' (goes_rejectText f _ t _) <|
    .bind' (asks_isSigned t).leaves fun _ => .ite'
      (.ite' (goes_constSigned f t n) (goes_rejectText f _ t _)) (goes_constUnsigned f t n)

theorem goes_constFloat (f : FnId) (t : Ty) (x : Double) : Leaves Goes (constFloat f t x) :=
  .bind' (asks_isFloat t).leaves fun _ => .ite' (goes_rejectText f _ t _) <|
    .bind' (asks_widthOf t).leaves fun _ => .ite'
      (goes_emit f _ fun _ => .edits_constFloat32 _ _)
      (goes_emit f _ fun _ => .edits_constFloat64 _ _)

theorem goes_constBool (f : FnId) (b : Bool) : Leaves Goes (constBool f b) :=
  .bind' (asks_function f).leaves fun _ => goes_constBits f _ _

theorem goes_null (f : FnId) : Leaves Goes (null f) :=
  .bind' (asks_function f).leaves fun _ => goes_constBits f _ _

theorem goes_const (f : FnId) (t : Ty) (x : HostValue) : Leaves Goes (const f t x) := by
  refine .bind' (asks_isFloat t).leaves fun b => ?_
  split
  · exact goes_constFloat f t _
  · split
    · exact .ite' (goes_constBool f _) (goes_constInt f t _)
    · exact .ite' (goes_constInt f t _) (goes_constUint f t _)
    · exact goes_constFloat f t _
    · exact goes_constFloat f t _
    · exact goes_rejectText f _ t _

theorem goes_operand? (f : FnId) (op : String) (x : HostValue) (like : Ty) :
    Leaves Goes (operand? f op x like) := by
  unfold operand?
  split
  · exact .ite' (.bind' (goes_keep f _) fun _ => .pure' _) <|
      .ite' (.bind' (asks_valText _).leaves fun _ => .bind' (goes_keep f _) fun _ => .pure' _) (.pure' _)
  · exact .bind' (goes_keep f _) fun _ => .pure' _
  · exact .bind' (asks_function f).leaves fun _ => .bind' (goes_const f _ _) fun _ => .pure' _

section

variable {f : FnId} {α : Type}

theorem goes_withOperand (f : FnId) (op : String) (x : HostValue) (like : Ty) {fallback : BuildM α}
    {k : Val → BuildM α} (hfallback : Leaves Goes fallback) (h : ∀ v, Leaves Goes (k v)) :
    Leaves Goes (do
      match ← operand? f op x like with
      | none => fallback
      | some v => k v) := by
  refine .bind' (goes_operand? f op x like) fun v => ?_
  cases v with
  | none => exact hfallback
  | some v => exact h v

theorem goes_operands? (f : FnId) (op : String) (xs : List (HostValue × Ty)) :
    Leaves Goes (operands? f op xs) := by
  induction xs with
  | nil => exact .pure' _
  | cons x rest ih =>
    refine goes_withOperand f op x.1 x.2 (.pure' _) fun v => .bind' ih fun vs => ?_
    cases vs <;> exact .pure' _

end

/-! ## What constants hold -/

theorem goes_isConstant (v : Val) : Leaves Goes (isConstant v) := by
  unfold isConstant
  cases v.fn with
  | none => exact .pure' _
  | some f => exact .bind' (asks_function f).leaves fun _ => .bind' (asks_engine _).leaves fun _ => .pure' _

theorem goes_constBits? (v : Val) : Leaves Goes (constBits? v) := by
  unfold constBits?
  cases v.fn with
  | none => exact .pure' _
  | some f =>
    exact .bind' (goes_isConstant v) fun _ => .bind' (asks_isIntType _).leaves fun _ => .ite' (.pure' _) <|
      .bind' (asks_function f).leaves fun _ => .bind' (asks_engine _).leaves fun _ => .pure' _

theorem goes_constInt? (v : Val) : Leaves Goes (constInt? v) := by
  refine .bind' (goes_constBits? v) fun n => ?_
  cases n with
  | none => exact .pure' _
  | some n =>
    exact .bind' (asks_isUnsignedLike _).leaves fun _ =>
      .ite' (.bind' (asks_widthOf _).leaves fun _ => .pure' _) (.pure' _)

theorem goes_constUint? (v : Val) : Leaves Goes (constUint? v) := by
  refine .bind' (goes_constBits? v) fun n => ?_
  cases n with
  | none => exact .pure' _
  | some n =>
    exact .bind' (asks_isUnsignedLike _).leaves fun _ =>
      .ite' (.bind' (asks_widthOf _).leaves fun _ => .pure' _) (.pure' _)

theorem goes_constFloat? (v : Val) : Leaves Goes (constFloat? v) := by
  unfold constFloat?
  cases v.fn with
  | none => exact .pure' _
  | some f =>
    exact .bind' (asks_isFloat _).leaves fun _ => .ite' (.pure' _) <| .bind' (asks_function f).leaves fun _ =>
      .bind' (asks_engine _).leaves fun _ => .bind' (asks_widthOf _).leaves fun _ => .ite' (.pure' _) (.pure' _)

theorem goes_constBool? (v : Val) : Leaves Goes (constBool? v) :=
  .ite' (.pure' _) (.bind' (goes_constBits? v) fun _ => .pure' _)

theorem goes_numeric? (v : Val) : Leaves Goes (numeric? v) :=
  .bind' (asks_isFloat _).leaves fun _ => .ite' (.bind' (goes_constFloat? v) fun _ => .pure' _) <|
    .bind' (asks_isUnsignedLike _).leaves fun _ => .ite' (.bind' (goes_constUint? v) fun _ => .pure' _) <|
      .ite' (.bind' (goes_constBool? v) fun _ => .pure' _)
        (.bind' (goes_constInt? v) fun _ => .pure' _)

/-! ## Values -/

theorem goes_declare (f : FnId) (t : Ty) : Leaves Goes (declare f t) :=
  .ite' (goes_emit f _ fun _ => .emits (Emit.edits_createLocal _))
    (goes_reject f _ _)

theorem goes_store (v : Val) (x : HostValue) : Leaves Goes (store v x) :=
  goes_onValue v _ _ fun f => goes_withOperand f _ x _ (.pure' _) fun _ =>
    .bind' (goes_emitting f _ fun _ => .emits (Emit.edits_store _ _)) fun _ =>
      .pure' _

theorem goes_address (v : Val) : Leaves Goes (address v) :=
  goes_onValue v _ _ fun f =>
    goes_emit f _ fun _ => .emits (Emit.edits_addressOf _)

theorem goes_setAddressable (v : Val) : Leaves Goes (setAddressable v) :=
  goes_onValue v _ _ fun f =>
    .bind' (goes_emitting f _ fun _ => .emits (Emit.edits_setAddressable _)) fun _ => .pure' _

theorem goes_toBool (v : Val) : Leaves Goes (toBool v) :=
  goes_onValue v _ _ fun f => .ite' (.pure' _)
    (goes_emit f _ fun _ => .emits (Emit.edits_test (by decide) _))

theorem goes_toNotBool (v : Val) : Leaves Goes (toNotBool v) :=
  goes_onValue v _ _ fun f =>
    goes_emit f _ fun _ => .emits (Emit.edits_test (by decide) _)

theorem goes_cast (v : Val) (t : Ty) : Leaves Goes (cast v t) :=
  goes_onValue v _ _ fun f => .ite'
    (goes_emit f _ fun _ => .emits (Emit.edits_convert _ _))
    (goes_reject f _ _)

theorem goes_binary (name : String) (op : Opcode) (v : Val) (x : HostValue) :
    Leaves Goes (binary name op v x) :=
  goes_onValue v _ _ fun f => goes_withOperand f _ x _ (.pure' _) fun _ =>
    goes_emit f _ fun _ => .edits_binary _ _ _

theorem goes_compare (name : String) (op : Opcode) (v : Val) (x : HostValue) :
    Leaves Goes (compare name op v x) :=
  goes_onValue v _ _ fun f => goes_withOperand f _ x _ (.pure' _) fun _ =>
    goes_emit f _ fun _ => .edits_compare _ _ _

theorem goes_unary (name : String) (op : Opcode) (v : Val) : Leaves Goes (unary name op v) :=
  goes_onValue v _ _ fun f => goes_emit f _ fun _ => .edits_unary _ _

theorem goes_logical (name : String) (op : Opcode) (v : Val) (x : HostValue) :
    Leaves Goes (logical name op v x) :=
  goes_onValue v _ _ fun f => .bind' (asks_runtimeOf f).leaves fun _ =>
    goes_withOperand f _ x _ (.pure' _) fun _ => .bind' (goes_toBool v) fun _ =>
      .bind' (goes_toBool _) fun _ => .bind' (goes_binary _ _ _ _) fun _ => goes_toBool _

theorem goes_math (f : FnId) (op : MathOp) (xs : List HostValue) : Leaves Goes (math f op xs) := by
  refine .bind' (asks_runtimeOf f).leaves fun _ => .bind' (goes_operands? f _ _) fun vs => ?_
  cases vs with
  | none => exact .pure' _
  | some vs => exact goes_emit f _ fun _ => .emits (Emit.edits_math _ _)

theorem goes_pointee? (f : FnId) (v : Val) (op : String) (override : Option Ty) :
    Leaves Goes (pointee? f v op override) := by
  have hcomplaint : ∀ c : String → Complaint, Leaves Goes (do
      keep f (.complaint op (c (← tyText v.type)))
      pure none : BuildM (Option Ty)) := fun _ =>
    .bind' (asks_tyText _).leaves fun _ => .bind' (goes_keep f _) fun _ => .pure' _
  unfold pointee?
  cases override.filter (·.valid) with
  | some t => exact .pure' _
  | none =>
    refine .bind' (asks_targetOf? _).leaves fun t => ?_
    cases t with
    | none => exact hcomplaint _
    | some t => exact .ite' (hcomplaint _) (.pure' _)

theorem goes_withPointee (f : FnId) (v : Val) (op : String) (override : Option Ty)
    {fallback : Val} {k : Ty → BuildM Val} (h : ∀ t, Leaves Goes (k t)) :
    Leaves Goes (do
      match ← pointee? f v op override with
      | none => pure fallback
      | some t => k t) := by
  refine .bind' (goes_pointee? f v op override) fun t => ?_
  cases t with
  | none => exact .pure' _
  | some t => exact h t

theorem goes_mload (v : Val) (offset : Int) (t : Ty) : Leaves Goes (mload v offset t) :=
  goes_onValue v _ _ fun f => .ite'
    (goes_emit f _ fun _ => .emits (Emit.edits_loadRel _ _ _))
    (goes_reject f _ _)

theorem goes_mstore (v : Val) (x : HostValue) (offset : Int) : Leaves Goes (mstore v x offset) :=
  goes_onValue v _ _ fun f => .bind' (asks_runtimeOf f).leaves fun _ => .bind' (asks_targetOf? _).leaves fun _ =>
    goes_withOperand f _ x _ (.pure' _) fun _ =>
      .bind' (goes_emitting f _ fun _ => .emits (Emit.edits_storeRel _ _ _)) fun _ => .pure' _

theorem goes_deref (v : Val) (t : Option Ty) : Leaves Goes (deref v t) :=
  goes_onValue v _ _ fun f => goes_withPointee f v _ t fun _ => goes_mload v 0 _

theorem goes_loadElem (v : Val) (index : HostValue) (t : Option Ty) :
    Leaves Goes (loadElem v index t) :=
  goes_onValue v _ _ fun f => goes_withPointee f v _ t fun _ => .bind' (asks_runtimeOf f).leaves fun _ =>
    goes_withOperand f _ index _ (.pure' _) fun _ =>
      goes_emit f _ fun _ => .emits (Emit.edits_loadElem _ _ _)

theorem goes_fitted (v : Val) (t : Ty) : Leaves Goes (fitted v t) :=
  .bind' (asks_compatible _ t).leaves fun _ => .ite' (.pure' _) (goes_cast v t)

theorem goes_storeElem (v : Val) (index x : HostValue) : Leaves Goes (storeElem v index x) :=
  goes_onValue v _ _ fun f => goes_withPointee f v _ none fun target =>
    .bind' (asks_runtimeOf f).leaves fun _ => goes_withOperand f _ index _ (.pure' _) fun _ =>
      goes_withOperand f _ x _ (.pure' _) fun _ => .bind' (goes_fitted _ target) fun _ =>
        .ite' (.bind' (goes_emitting f _ fun _ => .emits (Emit.edits_storeElem _ _ _))
          fun _ => .pure' _) (.pure' _)

theorem goes_fieldPlace? (f : FnId) (v : Val) (op : String) (i : Int) :
    Leaves Goes (fieldPlace? f v op i) :=
  .ite' (.bind' (asks_tyText _).leaves fun _ => .bind' (goes_keep f _) fun _ => .pure' _) <|
    goes_guarded f _ (.bind' (leaves_fieldType _ i) fun _ => .bind' (leaves_fieldOffset _ i) fun _ =>
      .pure' _)

theorem goes_field (v : Val) (i : Int) : Leaves Goes (field v i) := by
  refine goes_onValue v _ _ fun f => .bind' (goes_fieldPlace? f v _ i) fun place => ?_
  rcases place with _ | ⟨t, off⟩
  · exact .pure' _
  · exact .bind' (goes_address v) fun _ => goes_mload _ off t

theorem goes_setField (v : Val) (i : Int) (x : HostValue) : Leaves Goes (setField v i x) := by
  refine goes_onValue v _ _ fun f => .bind' (goes_fieldPlace? f v _ i) fun place => ?_
  rcases place with _ | ⟨t, off⟩
  · exact .pure' _
  refine goes_withOperand f _ x t (.pure' _) fun o => .bind' (goes_fitted o t) fun o => ?_
  exact .ite' (.bind' (goes_address v) fun _ => .bind' (goes_mstore _ _ off) fun _ => .pure' _)
    (.pure' _)

theorem goes_fieldIndex? (f : FnId) (v : Val) (name : String) :
    Leaves Goes (fieldIndex? f v name) :=
  goes_guarded f _ (.bind' (leaves_findField _ name) fun _ => .pure' _)

theorem goes_fieldNamed (v : Val) (name : String) : Leaves Goes (fieldNamed v name) := by
  refine goes_onValue v _ _ fun f => .bind' (goes_fieldIndex? f v name) fun i => ?_
  cases i with
  | none => exact .pure' _
  | some i => exact goes_field v i

theorem goes_setFieldNamed (v : Val) (name : String) (x : HostValue) :
    Leaves Goes (setFieldNamed v name x) := by
  refine goes_onValue v _ _ fun f => .bind' (goes_fieldIndex? f v name) fun i => ?_
  cases i with
  | none => exact .pure' _
  | some i => exact goes_setField v i x

theorem goes_alloca (f : FnId) (size : HostValue) : Leaves Goes (alloca f size) :=
  .bind' (asks_runtimeOf f).leaves fun _ => goes_withOperand f _ size _ (.pure' _) fun _ =>
    goes_emit f _ fun _ => .emits (Emit.edits_alloca _)

theorem goes_storeBytes (f : FnId) (buffer : Val) (byte : Ty) (i : Nat) (bs : Text.Bytes) :
    Leaves Goes (storeBytes f buffer byte i bs) := by
  induction bs generalizing i with
  | nil => exact .pure' _
  | cons b rest ih =>
    exact .bind' (goes_constUint f byte _) fun _ => .bind' (goes_mstore buffer _ _) fun _ => ih _

theorem goes_stringz (f : FnId) (s : Text.Bytes) : Leaves Goes (stringz f s) :=
  .bind' (asks_runtimeOf f).leaves fun _ => .bind' (goes_alloca f _) fun buffer => .ite' (.pure' _) <|
    .bind' (goes_storeBytes f buffer _ 0 _) fun _ => goes_cast buffer _

theorem goes_ret (f : FnId) (x : HostValue) : Leaves Goes (ret f x) :=
  .bind' (asks_function f).leaves fun _ => goes_withOperand f _ x _ (.pure' _) fun _ =>
    goes_emitting f _ fun _ => .emits (Emit.edits_ret _)

theorem goes_retVoid (f : FnId) : Leaves Goes (retVoid f) :=
  goes_emitting f _ fun _ => .emits (Emit.edits_ret _)

theorem goes_callOther (f : FnId) (callee : Option FnId) (xs : List HostValue) :
    Leaves Goes (callOther f callee xs) := by
  refine .bind' (asks_runtimeOf f).leaves fun rt => ?_
  cases callee with
  | none => exact goes_reject f _ _
  | some g =>
    refine .bind' (asks_function g).leaves fun s => .ite' (goes_reject f _ _) (.ite' ?_ ?_)
    · exact .bind' (asks_functionName g).leaves fun _ => goes_reject f _ _
    · refine .bind' (goes_operands? f _ _) fun vs => ?_
      cases vs with
      | none => exact .pure' _
      | some vs => exact goes_emit f _ fun _ => .edits_call _ vs

theorem goes_stringArg (f : FnId) (s : Text.Bytes) : Leaves Goes (do
    let v ← stringz f s
    pure (if v.valid then some v else none)) :=
  .bind' (goes_stringz f s) fun _ => .pure' _

theorem goes_nativeArg? (f : FnId) (x : HostValue) (t : Ty) : Leaves Goes (nativeArg? f x t) := by
  unfold nativeArg?
  split
  · exact goes_stringArg f _
  · exact goes_operand? f _ _ t

theorem goes_extraArg? (f : FnId) (x : HostValue) : Leaves Goes (extraArg? f x) := by
  refine .bind' (asks_runtimeOf f).leaves fun rt => ?_
  split
  · exact goes_operand? f _ _ _
  · exact goes_stringArg f _
  · exact goes_operand? f _ _ _
  · exact goes_operand? f _ _ _
  · exact goes_operand? f _ _ _

theorem goes_nativeArgs? (f : FnId) (xs : List HostValue) (params : List Ty) :
    Leaves Goes (nativeArgs? f xs params) := by
  induction xs generalizing params with
  | nil => exact .pure' _
  | cons x rest ih =>
    cases params
    case' nil => refine .bind' (goes_extraArg? f x) fun v => ?_
    case' cons t params => refine .bind' (goes_nativeArg? f x t) fun v => ?_
    all_goals
      cases v with
      | none => exact .pure' _
      | some v =>
        refine .bind' (ih _) fun vs => ?_
        cases vs <;> exact .pure' _

theorem goes_callNative (f : FnId) (name : String) (xs : List HostValue) :
    Leaves Goes (callNative f name xs) := by
  refine .bind' (asks_runtimeOf f).leaves fun rt => .bind' (asks_runtime rt).leaves fun r => ?_
  cases r.natives.find? name with
  | none => exact goes_reject f _ _
  | some n =>
    refine .ite' (goes_reject f _ _) (.bind' (goes_nativeArgs? f xs _) fun vs => ?_)
    cases vs with
    | none => exact .pure' _
    | some vs =>
      refine .ite' ?_ (goes_emit f _ fun _ => .emits (Emit.edits_callNative _ _ _))
      have htype : ∀ v, Leaves Goes (valueType f v) := fun v => goes_guarded f _ <|
        .bind' (goes_onFunc f _ fun _ => EngineM.evolves_of_same (EngineM.quiet_valueInfo _ _))
          fun _ => .pure' _
      refine .bind' (.mapM' _ htype) fun extra => .bind' (asks_engine rt).leaves fun e => ?_
      cases e.types.extendSignature? n.sig.id extra with
      | none => exact goes_reject f _ _
      | some grown =>
        exact .bind' (goes_modifyRuntime rt fun _ => Engine.SameCode.evolves rfl) fun _ =>
          goes_emit f _ fun _ => .emits (Emit.edits_callNative _ _ _)

theorem goes_callLibrary (f : FnId) (name : String) (xs : List HostValue) :
    Leaves Goes (callLibrary f name xs) := by
  unfold callLibrary
  split
  · exact goes_callNative f _ _
  · exact .bind' (goes_null f) fun _ => goes_callNative f _ _
  · exact goes_callNative f _ _
  · exact goes_callNative f _ _

/-! ## Labels and jumps -/

theorem goes_keptProblem (f : FnId) {act : BuildM Unit} (h : Leaves Goes act) :
    Leaves Goes (keptProblem f act) := by
  refine .bind' (leaves_attempt h) fun outcome => ?_
  cases outcome with
  | ok u => exact .pure' _
  | error p => exact .bind' (goes_keep f p) fun _ => .pure' _

theorem goes_complaintOf (f : FnId) (op : String) (c : Complaint) :
    Leaves Goes (complaintOf f op c) :=
  .bind' (goes_keep f _) fun _ => .pure' _

theorem goes_problemOf (f : FnId) : Leaves Goes (problemOf f) :=
  .bind' (asks_function f).leaves fun _ => .pure' _

theorem goes_newLabel (f : FnId) : Leaves Goes (newLabel f) :=
  .bind' (goes_guarded f _ (goes_edited f _ fun _ => .emits Emit.edits_newLabel)) fun _ => .pure' _

theorem goes_placeLabel (l : Label) : Leaves Goes (placeLabel l) := by
  refine .ite' (goes_complaintOf _ _ _) (.bind' ?_ fun _ => .ite' (goes_complaintOf _ _ _) ?_)
  · exact .bind' (asks_function _).leaves fun _ => .bind' (asks_engine _).leaves fun _ => .pure' _
  · exact goes_keptProblem _ (goes_edited _ _ fun _ => .emits (Emit.edits_placeLabel _))

theorem goes_withTarget (f : FnId) (op : String) (l : Option Label)
    {k : LabelId → BuildM (Option Problem)} (h : ∀ l, Leaves Goes (k l)) :
    Leaves Goes (do
      match ← target? f op l with
      | none => problemOf f
      | some l => k l) := by
  have hkept : ∀ c, Leaves Goes (do
      keep f (.complaint op c)
      pure none : BuildM (Option LabelId)) :=
    fun _ => .bind' (goes_keep f _) fun _ => .pure' _
  have htarget : Leaves Goes (target? f op l) := by
    unfold target?
    cases l with
    | none => exact hkept _
    | some l => exact .ite' (hkept _) (.ite' (hkept _) (.pure' _))
  refine .bind' htarget fun l => ?_
  cases l with
  | none => exact goes_problemOf f
  | some l => exact h l

theorem goes_jump (f : FnId) (l : Option Label) : Leaves Goes (jump f l) :=
  goes_withTarget f _ l fun l => goes_keptProblem f
    (goes_edited f _ fun _ => .emits (Emit.edits_branch l))

theorem goes_jumpOn (f : FnId) (op : String) (cond : Val) (l : Option Label)
    {act : FuncId → ValueId → LabelId → EngineM Unit}
    (h : ∀ id v l, EngineM.EditsIn id (act id v l)) : Leaves Goes (jumpOn f op cond l act) :=
  goes_withTarget f op l fun l => .bind' (asks_runtimeOf f).leaves fun _ =>
    goes_withOperand f op _ _ (goes_problemOf f) fun _ =>
      goes_keptProblem f (goes_edited f op fun id => h id _ l)

theorem goes_jumpIf (f : FnId) (cond : Val) (l : Option Label) : Leaves Goes (jumpIf f cond l) :=
  goes_jumpOn f _ cond l fun _ _ _ => .emits (Emit.edits_branchOn (by decide) _ _)

theorem goes_jumpIfNot (f : FnId) (cond : Val) (l : Option Label) :
    Leaves Goes (jumpIfNot f cond l) :=
  goes_jumpOn f _ cond l fun _ _ _ => .emits (Emit.edits_branchOn (by decide) _ _)

theorem goes_breakLoop (f : FnId) : Leaves Goes (breakLoop f) := by
  refine .bind' (asks_function f).leaves fun s => ?_
  cases s.breaks with
  | nil => exact goes_complaintOf f _ _
  | cons l _ => exact goes_jump f _

theorem goes_modifyBreaks (f : FnId) (g : List Label → List Label) :
    Leaves Goes (modifyFunction f fun s => { s with breaks := g s.breaks }) :=
  goes_modifyFunction f fun _ _ =>
    ⟨rfl, rfl, rfl, rfl, fun h => h, fun h => h, fun h =>
      ⟨h.labels, h.closed, h.compiled, h.returns⟩⟩

end BuildM

/-! ## Statements -/

open BuildM

namespace Branch

theorem goes_test (b : Branch) : Leaves Goes b.test := by
  refine .bind' (asks_runtimeOf _).leaves fun _ => goes_withOperand _ _ _ _ ?_ fun c => ?_
  · exact .bind' (goes_problemOf _) fun _ => .pure' _
  · refine .bind' (goes_newLabel _) fun l => .bind' (goes_toBool c) fun c => .ite' ?_ ?_
    · exact .bind' (goes_jumpIf _ c _) fun _ => .pure' _
    · exact .bind' (goes_jumpIfNot _ c _) fun _ => .pure' _

theorem goes_turn (b : Branch) : Leaves Goes b.turn := by
  refine .ite' (.pure' _) ?_
  cases b.elseLabel with
  | none => exact .bind' (goes_complaintOf _ _ _) fun _ => .pure' _
  | some l =>
    refine .bind' (goes_newLabel _) fun done => .bind' (goes_jump _ _) fun p => ?_
    cases p with
    | some p => exact .pure' _
    | none => exact .bind' (goes_placeLabel l) fun _ => .pure' _

theorem goes_finish (b : Branch) : Leaves Goes b.finish := by
  refine .ite' (.pure' _) (.ite' (.bind' (goes_complaintOf _ _ _) fun _ => .pure' _) ?_)
  dsimp only
  rcases b.elseLabel with _ | l
  · exact .bind' (goes_complaintOf _ _ _) fun _ => .pure' _
  · rcases b.endLabel with _ | done
    · exact .bind' (goes_placeLabel l) fun _ => .pure' _
    · exact .bind' (goes_placeLabel done) fun _ => .pure' _

end Branch

namespace Loop

theorem goes_start (l : Loop) : Leaves Goes l.start :=
  .bind' (goes_newLabel _) fun _ => .bind' (goes_newLabel _) fun _ => .pure' _

theorem goes_test (l : Loop) (c : Val) (leaving : Bool) : Leaves Goes (l.test c leaving) := by
  have htest : Leaves Goes (do
      let c ← BuildM.toBool c
      let target := if leaving then l.bottom else l.top
      let problem ←
        if leaving != l.negate then BuildM.jumpIfNot l.fn c target
        else BuildM.jumpIf l.fn c target
      pure { l with problem }) :=
    .bind' (goes_toBool c) fun c => .ite' (.bind' (goes_jumpIfNot _ c _) fun _ => .pure' _)
      (.bind' (goes_jumpIf _ c _) fun _ => .pure' _)
  refine .ite' (.bind' (goes_problemOf _) fun p => ?_) htest
  cases p with
  | some p => exact .pure' _
  | none => exact .bind' (goes_complaintOf _ _ _) fun _ => .pure' _

theorem goes_enter (l : Loop) : Leaves Goes l.enter := by
  unfold enter
  rcases l.top with _ | top
  · exact .throw' _
  rcases l.bottom with _ | bottom
  · exact .throw' _
  refine .bind' (goes_placeLabel top) fun p => ?_
  cases p with
  | some p => exact .pure' _
  | none => exact .bind' (goes_modifyBreaks _ (bottom :: ·)) fun _ => .pure' _

theorem goes_leave (l : Loop) : Leaves Goes l.leave :=
  goes_modifyBreaks _ List.tail

theorem goes_noCondition (l : Loop) : Leaves Goes l.noCondition :=
  .bind' (goes_complaintOf _ _ _) fun _ => .pure' _

theorem goes_finish (l : Loop) : Leaves Goes l.finish := by
  refine .ite' (.pure' _) (.ite' (.bind' (goes_complaintOf _ _ _) fun _ => .pure' _) ?_)
  dsimp only
  rcases l.bottom with _ | bottom
  · exact .bind' (goes_complaintOf _ _ _) fun _ => .pure' _
  · exact .bind' (goes_placeLabel bottom) fun _ => .pure' _

end Loop

end TypedIR
