import TypedIR.Build.Control
import TypedIR.Proofs.MachineRuns
import TypedIR.Proofs.NewFunctions

/-
  Every operation of the builder keeps what is known of functions.

  The operations work through a few others: they ask and change engines, keep
  problems with functions, and emit code into the function they belong to. So
  one walk through their texts shows that functions stay sound. Here are the
  types, the runtimes and contexts, and calls; the operations that emit code
  come after them.
-/

namespace TypedIR

open Workspace

namespace BuildM

variable {α : Type}

/-! ## Parts of operations -/

theorem goes_complaining (op : String) {c : String → Complaint} {text : BuildM String}
    (h : Leaves Goes text) :
    Leaves Goes (do complain op (c (← text)) : BuildM α) :=
  .bind' h fun _ => leaves_complain _ _

theorem goes_checked {c : Prop} [Decidable c] {op : String} {cm : Complaint}
    {k : PUnit → BuildM α} (h : ∀ u, Leaves Goes (k u)) :
    Leaves Goes (if c then complain op cm >>= k else k ⟨⟩) :=
  .ite' (.bind' (leaves_complain _ _) h) (h ⟨⟩)

theorem goes_checkedText {c : Prop} [Decidable c] {op : String} {cm : String → Complaint}
    {text : BuildM String} {k : PUnit → BuildM α} (htext : Leaves Goes text)
    (h : ∀ u, Leaves Goes (k u)) :
    Leaves Goes (if c then text >>= fun t => complain op (cm t) >>= k else k ⟨⟩) :=
  .ite' (.bind' htext fun _ => .bind' (leaves_complain _ _) h) (h ⟨⟩)

theorem goes_onEngine (rt : RuntimeId) (op : String) {act : EngineM α}
    (h : Leaves Engine.Evolves act) : Leaves Goes (onEngine rt op act) :=
  leaves_onEngine rt op h

theorem goes_asking (rt : RuntimeId) (op : String) {act : EngineM α}
    (h : Leaves Engine.SameCode act) : Leaves Goes (onEngine rt op act) :=
  leaves_onEngine rt op (EngineM.evolves_of_same h)

theorem goes_onFunc (f : FnId) (op : String) {act : FuncId → EngineM α}
    (h : ∀ id, Leaves Engine.Evolves (act id)) : Leaves Goes (onFunc f op act) :=
  .bind' (asks_function f).leaves fun s => leaves_onEngine s.runtime op (h s.id)

theorem goes_edited (f : FnId) (op : String) {act : FuncId → EngineM α}
    (h : ∀ id, EngineM.EditsIn id (act id)) : Leaves Goes (onFunc f op act) :=
  goes_onFunc f op fun id => (h id).evolves

theorem goes_modifyFunction (f : FnId) {g : Function → Function}
    (hg : ∀ (s : Function) (fn : Func), s.Goes fn (g s) fn) :
    Leaves Goes (modifyFunction f g) :=
  .modify' fun _ => .of_modify hg f

theorem goes_modifyRuntime (rt : RuntimeId) {g : Runtime → Runtime}
    (hg : ∀ r : Runtime, r.engine.Evolves (g r).engine) : Leaves Goes (modifyRuntime rt g) := by
  refine .modify' fun w => .of_engines rfl fun rt' r hr => ?_
  have hget : (w.runtimes.modify rt g)[rt']? = some (if rt = rt' then g r else r) := by
    rw [Array.getElem?_modify, hr]
    split <;> rfl
  refine ⟨_, hget, ?_⟩
  split
  · exact hg r
  · exact Std.Refl.refl _

theorem goes_modify {g : Workspace → Workspace} (hf : ∀ w, (g w).functions = w.functions)
    (hr : ∀ w, (g w).runtimes = w.runtimes) : Leaves Goes (modify g : BuildM PUnit) :=
  .modify' fun w => .of_engines (hf w) fun _ r h => ⟨r, (hr w).symm ▸ h, Std.Refl.refl _⟩

theorem goes_modifyContext (c : CtxId) (g : Context → Context) :
    Leaves Goes (modifyContext c g) :=
  goes_modify (fun _ => rfl) fun _ => rfl

theorem goes_keep (f : FnId) (p : Problem) : Leaves Goes (keep f p) :=
  .bind' (asks_function f).leaves fun _ =>
    .ite' (.bind' (goes_modifyFunction f fun s fn => .of_problem s fn p) fun _ => (asks_trace _ _).leaves)
      (.pure' _)

theorem goes_guarded (f : FnId) (fallback : α) {act : BuildM α} (h : Leaves Goes act) :
    Leaves Goes (guarded f fallback act) := by
  refine .bind' (leaves_attempt h) fun outcome => ?_
  cases outcome with
  | ok a => exact .pure' a
  | error p => exact .bind' (goes_keep f p) fun _ => .pure' fallback

theorem goes_wrapValue (f : FnId) (id : ValueId) : Leaves Goes (wrapValue f id) :=
  .bind' (asks_function f).leaves fun _ =>
    .bind' (goes_asking _ _ (EngineM.quiet_valueInfo _ id)) fun _ =>
    .bind' (leaves_wrapType _ _) fun _ => .pure' _

theorem goes_emit (f : FnId) (op : String) {act : FuncId → EngineM ValueId}
    (h : ∀ id, EngineM.EditsIn id (act id)) : Leaves Goes (emit f op act) :=
  goes_guarded f _ (.bind' (goes_edited f op h) fun id => goes_wrapValue f id)

theorem goes_emitting (f : FnId) (op : String) {act : FuncId → EngineM Unit}
    (h : ∀ id, EngineM.EditsIn id (act id)) :
    Leaves Goes (guarded f () (onFunc f op act)) :=
  goes_guarded f _ (goes_edited f op h)

theorem goes_reject (f : FnId) (op : String) (c : Complaint) :
    Leaves Goes (reject f op c) :=
  .bind' (goes_keep f _) fun _ => .pure' _

theorem goes_rejectText (f : FnId) (op : String) (t : Ty) (c : String → Complaint) :
    Leaves Goes (do reject f op (c (← tyText t))) :=
  .bind' (asks_tyText t).leaves fun _ => goes_reject f op _

theorem goes_onValue (v : Val) (op : String) (fallback : Val) {act : FnId → BuildM Val}
    (h : ∀ f, Leaves Goes (act f)) : Leaves Goes (onValue v op fallback act) := by
  have hsubject : Leaves Goes (subject? v op) := by
    unfold subject?
    cases v.fn with
    | none => exact .pure' _
    | some f => exact .ite' (.pure' _) (.bind' (goes_keep f _) fun _ => .pure' _)
  refine .bind' hsubject fun f => ?_
  cases f with
  | none => exact .pure' _
  | some f => exact h f

/-! ## Types -/

theorem goes_pointerTy (rt : RuntimeId) (target : Ty) : Leaves Goes (pointerTy rt target) :=
  goes_checked fun _ =>
    .bind' (goes_asking rt _ (EngineM.quiet_pointerType _)) fun _ => leaves_wrapType rt _

theorem goes_validFields (i : Nat) (fields : List Ty) :
    Leaves Goes (validFields i fields) := by
  induction fields generalizing i with
  | nil => exact .pure' _
  | cons f rest ih => exact goes_checked fun _ => ih _

theorem goes_structTy (rt : RuntimeId) (fields : List Ty) :
    Leaves Goes (structTy rt fields) :=
  .bind' (goes_validFields 0 fields) fun _ =>
    .bind' (goes_asking rt _ (EngineM.quiet_structType _)) fun _ => leaves_wrapType rt _

theorem goes_signatureTy (rt : RuntimeId) (params : List Ty) (ret : Ty) (abi : Abi) :
    Leaves Goes (signatureTy rt params ret abi) :=
  leaves_signatureTy rt params ret abi
    (EngineM.evolves_of_same (EngineM.quiet_signatureType _ _ _))

theorem goes_primitiveType (rt : RuntimeId) (tag : Text.Bytes) :
    Leaves Goes (primitiveType rt tag) := by
  unfold primitiveType
  cases Builtin.ofTag? (Text.lossyText tag) with
  | some b => exact .pure' _
  | none => exact .throw' _

mutual

theorem goes_hostText : ∀ x : HostValue, Leaves Goes (hostText x)
  | .type t => by unfold hostText; exact (asks_tyText t).leaves
  | .value v => by unfold hostText; exact (asks_valText v).leaves
  | .types ts => by unfold hostText; exact .bind' (.mapM' ts fun t => (asks_tyText t).leaves) fun _ => .pure' _
  | .items xs => by unfold hostText; exact .bind' (goes_hostTexts xs) fun _ => .pure' _
  | .nothing | .bool _ | .int _ _ | .float32 _ | .float64 _ | .str _ | .numbers | .tag _
  | .abi _ => by unfold hostText; exact .pure' _

theorem goes_hostTexts : ∀ xs : List HostValue, Leaves Goes (hostText.hostTexts xs)
  | [] => by unfold hostText.hostTexts; exact .pure' _
  | x :: rest => by
    unfold hostText.hostTexts
    exact .bind' (goes_hostText x) fun _ => .bind' (goes_hostTexts rest) fun _ => .pure' _

end

theorem goes_typeOfTag (rt : RuntimeId) (tag : Text.Bytes) :
    Leaves Goes (typeOfTag rt tag) := by
  unfold typeOfTag
  split
  · exact goes_pointerTy rt _
  · exact goes_structTy rt _
  · exact .throw' _
  · exact goes_primitiveType rt tag

theorem goes_typeArg (rt : RuntimeId) (a : HostValue) : Leaves Goes (typeArg rt a) := by
  unfold typeArg
  split
  · exact .ite' (.pure' _) (.throw' _)
  · exact goes_typeOfTag rt _
  · exact goes_complaining _ (goes_hostText _)

theorem goes_typeArgs (rt : RuntimeId) (xs : List HostValue) :
    Leaves Goes (typeArgs rt xs) := by
  induction xs with
  | nil => exact .pure' _
  | cons a rest ih => exact .bind' (goes_typeArg rt a) fun _ => .bind' ih fun _ => .pure' _

theorem goes_abiArg (a : HostValue) : Leaves Goes (abiArg a) := by
  unfold abiArg
  split
  · exact .pure' _
  · split
    · exact .pure' _
    · exact .throw' _
  · exact goes_complaining _ (goes_hostText _)

theorem goes_pointerChain (rt : RuntimeId) (target : Ty) (xs : List HostValue) :
    Leaves Goes (pointerChain rt target xs) := by
  induction xs generalizing target with
  | nil => exact .pure' _
  | cons a rest ih =>
    exact goes_checkedText (goes_hostText a) fun _ =>
      .bind' (goes_pointerTy rt target) fun t => ih t

theorem goes_paramItems (a : HostValue) : Leaves Goes (paramItems a) := by
  unfold paramItems
  split <;> first | exact .pure' _ | exact .throw' _

theorem goes_createType (rt : RuntimeId) (xs : List HostValue) :
    Leaves Goes (createType rt xs) := by
  unfold createType
  split
  · exact .throw' _
  · exact .pure' _
  split
  · exact goes_complaining _ (goes_hostText _)
  split
  · split
    · exact goes_pointerTy rt _
    · exact .bind' (goes_typeArg rt _) fun _ => .bind' (goes_pointerChain rt _ _) fun _ =>
        goes_pointerTy rt _
  · exact .bind' (goes_typeArgs rt _) fun _ => goes_structTy rt _
  · split
    · refine goes_checked fun _ => ?_
      refine .bind' (goes_paramItems _) fun _ => .bind' (goes_typeArgs rt _) fun _ => ?_
      refine .bind' (goes_typeArg rt _) fun _ => ?_
      split
      · exact .bind' (.pure' _) fun _ => goes_signatureTy rt _ _ _
      · exact .bind' (goes_abiArg _) fun _ => goes_signatureTy rt _ _ _
    · exact .throw' _
  · exact goes_checked fun _ => goes_primitiveType rt _

theorem goes_setFieldNames (t : Ty) (names : List String) :
    Leaves Goes (setFieldNames t names) :=
  goes_checkedText (asks_tyText t).leaves fun _ => .bind' (asks_fieldCount t).leaves fun _ =>
    goes_checked fun _ => .bind' (asks_ownerOf t).leaves fun rt =>
      goes_asking rt _ (EngineM.quiet_setFieldNames _ names)

theorem goes_withName (t : Ty) (name : String) : Leaves Goes (withName t name) :=
  goes_checked fun _ => .bind' (asks_ownerOf t).leaves fun rt =>
    .bind' (goes_asking rt _ (EngineM.quiet_taggedType _ _ name)) fun _ => leaves_wrapType rt _

/-! ## Runtimes and contexts -/

theorem goes_registerNative (rt : RuntimeId) (name : String) (params : List Ty) (ret : Ty)
    (variadic : Bool) (run : Option NativeFunc) :
    Leaves Goes (registerNative rt name params ret variadic run) := by
  refine goes_checked fun _ => ?_
  cases run with
  | none => exact .throw' _
  | some run =>
    refine .bind' (goes_signatureTy rt _ _ _) fun _ => ?_
    refine .bind' (goes_modifyRuntime rt fun _ => Std.Refl.refl _) fun _ => ?_
    exact .bind' (goes_asking rt _ (EngineM.quiet_registerNative _ _)) fun _ => .pure' _

theorem goes_removeNative (rt : RuntimeId) (name : String) :
    Leaves Goes (removeNative rt name) :=
  .bind' (goes_modifyRuntime rt fun _ => Std.Refl.refl _) fun _ =>
    goes_asking rt _ (EngineM.quiet_removeNative _)

theorem goes_takeOutput (rt : RuntimeId) : Leaves Goes (takeOutput rt) :=
  .bind' (asks_engine rt).leaves fun _ =>
    .bind' (goes_modifyRuntime rt fun _ => Engine.SameCode.evolves rfl) fun _ => .pure' _

theorem goes_newRuntime (o : RuntimeOptions) : Leaves Goes (newRuntime o) := by
  have hpush : ∀ (r : Runtime), Leaves Goes
      (modify fun w => { w with runtimes := w.runtimes.push r } : BuildM PUnit) := by
    refine fun r => .modify' fun w => .of_engines rfl fun rt r' hr' => ⟨r', ?_, Std.Refl.refl _⟩
    obtain ⟨hlt, hget⟩ := Array.getElem?_eq_some_iff.mp hr'
    exact (Array.getElem?_push_lt hlt).trans (congrArg some hget)
  refine .bind' .get' fun w => .bind' (hpush _) fun _ => ?_
  refine .bind' (.forM' _ fun n => ?_) fun _ => .bind' (.forM' _ (goes_removeNative _)) fun _ =>
    .bind' (asks_trace _ _).leaves fun _ => .pure' _
  exact .bind' (goes_registerNative _ _ _ _ _ _) fun _ => .pure' _

theorem goes_newContext (rt : RuntimeId) (uid : String) : Leaves Goes (newContext rt uid) :=
  .bind' (goes_asking rt _ EngineM.sameCode_createContext) fun _ => .bind' .get' fun _ =>
    .bind' (goes_modify (fun _ => rfl) fun _ => rfl) fun _ =>
    .bind' (asks_trace _ _).leaves fun _ => .pure' _

theorem goes_releaseLock (rt : RuntimeId) (c : CtxId) : Leaves Goes (releaseLock rt c) :=
  goes_modifyRuntime rt fun _ => by split <;> exact Std.Refl.refl _

theorem goes_buildStart (c : CtxId) : Leaves Goes (buildStart c) := by
  refine .bind' (leaves_context c) fun s => goes_checked fun _ => ?_
  refine .bind' (asks_runtime _).leaves fun r => ?_
  cases r.holder with
  | some holder =>
    exact goes_checked fun _ => .bind' (leaves_context _) fun _ => leaves_complain _ _
  | none =>
    refine .bind' (goes_modifyRuntime _ fun _ => Std.Refl.refl _) fun _ => ?_
    refine .bind' (asks_tryEngine _ (EngineM.evolves_of_same (EngineM.sameCode_buildStart _))).leaves
      fun answer => ?_
    cases answer with
    | error f => exact .bind' (goes_releaseLock _ c) fun _ => .throw' _
    | ok u =>
      exact .bind' .get' fun _ => .bind' (goes_modify (fun _ => rfl) fun _ => rfl) fun _ =>
        .bind' (asks_trace _ _).leaves fun _ => .bind' (goes_modifyContext c _) fun _ => .pure' _

theorem goes_markEnded (b : BuildId) (c : CtxId) : Leaves Goes (markEnded b c) :=
  .bind' (goes_modify (fun _ => rfl) fun _ => rfl) fun _ => goes_modifyContext c _

theorem goes_buildFinish (b : BuildId) : Leaves Goes (buildFinish b) := by
  refine .bind' (leaves_build b) fun s => .bind' (leaves_context _) fun c => ?_
  refine goes_checked fun _ => .bind' (goes_markEnded b _) fun _ => ?_
  refine .bind' (asks_tryEngine _ (EngineM.evolves_of_same (EngineM.sameCode_buildEnd _))).leaves
    fun answer => ?_
  refine .bind' (goes_releaseLock _ _) fun _ => .bind' (asks_trace _ _).leaves fun _ => ?_
  cases answer with
  | ok u => exact .pure' _
  | error f => exact .throw' _

theorem goes_buildEnd (c : CtxId) : Leaves Goes (buildEnd c) := by
  refine .bind' (leaves_context c) fun s => ?_
  cases s.build with
  | none => exact .throw' _
  | some b => exact goes_buildFinish b

theorem goes_destroy (c : CtxId) : Leaves Goes (destroy c) := by
  refine .bind' (leaves_context c) fun s => .ite' (.pure' _) ?_
  have hrest : Leaves Goes (do
      modifyContext c ({ · with destroyed := true })
      trace s.runtime (.point .context "context_destroy" s.uid)
      onEngine s.runtime "destroy" (EngineM.destroyContext s.id)) :=
    .bind' (goes_modifyContext c _) fun _ => .bind' (asks_trace _ _).leaves fun _ =>
      goes_onEngine _ _ (EngineM.evolves_destroyContext _)
  cases s.build with
  | some b =>
    exact .bind' (goes_markEnded b c) fun _ => .bind' (asks_trace _ _).leaves fun _ =>
      .bind' (goes_releaseLock _ c) fun _ => hrest
  | none => exact hrest

/-! ## Functions and their calls -/

theorem goes_of_linked {act : BuildM α} (h : ∀ w : Workspace, w.Linked →
    Ends act w (fun _ w' => w.Goes w') fun _ w' => w.Goes w') : Leaves Goes act :=
  fun w hl => (h w hl).state hl

theorem goes_newFunction (b : BuildId) (name : String) (sig : Ty) :
    Leaves Goes (newFunction b name sig) :=
  goes_of_linked fun _ hl => (ends_newFunction hl b name sig).imp fun _ _ h => h.goes

theorem goes_startFunction (b : BuildId) (params : List Ty) (ret : Ty) :
    Leaves Goes (startFunction b params ret) :=
  goes_of_linked fun _ hl => (ends_startFunction hl b params ret).imp fun _ _ h => h.goes

theorem goes_loadImage (b : BuildId) (img : Option Image) :
    Leaves Goes (loadImage b img) :=
  goes_of_linked fun _ hl => ends_loadImage hl b img

theorem goes_compile (f : FnId) : Leaves Goes (compile f) :=
  goes_of_linked fun _ hl => (ends_compile hl f).imp fun _ _ h => h.1

theorem goes_arg (f : FnId) (i : Int) : Leaves Goes (arg f i) :=
  .bind' (asks_function f).leaves fun _ => goes_checked fun _ =>
    .bind' (goes_asking _ _ (EngineM.quiet_paramValue _ i)) fun _ => goes_wrapValue f _

theorem goes_args (f : FnId) : Leaves Goes (args f) :=
  .bind' (asks_function f).leaves fun _ => .mapM' _ fun _ => goes_guarded f _ (goes_arg f _)

theorem goes_listing (f : FnId) : Leaves Goes (listing f) :=
  goes_onFunc f _ fun _ => EngineM.evolves_of_same (EngineM.quiet_ask _)

theorem goes_image (f : FnId) : Leaves Goes (image f) :=
  .bind' (asks_function f).leaves fun _ => goes_checkedText (asks_functionName f).leaves fun _ =>
    goes_onFunc f _ fun _ => EngineM.evolves_of_same (EngineM.quiet_ask _)

theorem goes_onMachine (rt : RuntimeId) (op : String) {act : RunM α}
    (h : Leaves Engine.SameCode act) : Leaves Goes (onMachine rt op act) := by
  refine .bind' (leaves_onEngineState rt fun e => (h e).evolves) fun answer => ?_
  rcases answer with (err | _) | a
  · exact .throw' _
  · exact .throw' _
  · exact .pure' a

theorem goes_marshalArgs (f : FnId) (s : Function) (name : String) (i : Nat)
    (params : List (Ty × Rep)) (xs : List HostValue) (bits temps : List Word) :
    Leaves Goes (marshalArgs f s name i params xs bits temps) := by
  induction params generalizing i xs bits temps with
  | nil => unfold marshalArgs; exact .pure' _
  | cons p params ih =>
    cases xs with
    | nil => exact .pure' _
    | cons a rest =>
      unfold marshalArgs
      split
      · refine .bind' (leaves_attempt (goes_onMachine _ _ (RunM.quiet_request _))) fun addr => ?_
        cases addr with
        | ok addr => exact ih _ _ _ _
        | error p => exact .pure' _
      · generalize marshal p.2 _ = m
        cases m with
        | ok w => exact ih _ _ _ _
        | error why => exact .pure' _

theorem goes_freeAll (rt : RuntimeId) (temps : List Word) :
    Leaves Goes (freeAll rt temps) := by
  induction temps with
  | nil => exact .pure' _
  | cons a rest ih =>
    exact .bind' (leaves_attempt (goes_onMachine _ _ (RunM.quiet_request _))) fun _ => ih

theorem goes_call (f : FnId) (xs : List HostValue) : Leaves Goes (call f xs) := by
  refine .bind' (asks_function f).leaves fun s => .bind' (asks_functionName f).leaves fun name => ?_
  refine goes_checked fun _ => goes_checked fun _ => ?_
  refine .bind' (goes_marshalArgs f s name 0 _ xs [] []) fun ⟨bits, temps⟩ => ?_
  cases bits with
  | error p => exact .bind_pure (.bind' (goes_freeAll _ temps) fun _ => .throw' _)
  | ok bits =>
    refine .bind' (leaves_attempt (goes_onMachine _ _ (RunM.quiet_apply _ _))) fun outcome => ?_
    refine .bind' (goes_freeAll _ temps) fun _ => ?_
    cases outcome with
    | ok res => exact .pure' _
    | error p => exact .throw' _

theorem goes_callEach (f : FnId) (i : Nat) (sets : List (List HostValue)) :
    Leaves Goes (callEach f i sets) := by
  induction sets generalizing i with
  | nil => exact .pure' _
  | cons xs rest ih =>
    refine .bind' (leaves_attempt (goes_call f xs)) fun outcome => ?_
    cases outcome with
    | error p => exact .throw' _
    | ok res => exact .bind' (ih _) fun _ => .pure' _

theorem goes_callMany (f : FnId) (sets : List (List HostValue)) (parent : Nat) :
    Leaves Goes (callMany f sets parent) := by
  refine .bind' (asks_function f).leaves fun s => .bind' (asks_runtime _).leaves fun r => ?_
  refine .bind' .get' fun w => .bind' (goes_modify (fun _ => rfl) fun _ => rfl) fun _ => ?_
  refine .bind' (asks_functionName f).leaves fun name => ?_
  refine .bind' (leaves_attempt (goes_callEach f 0 sets)) fun outcome => ?_
  refine .bind' (goes_modify (fun _ => rfl) fun _ => rfl) fun _ => ?_
  cases outcome with
  | ok res => exact .pure' _
  | error p => exact .throw' _

end BuildM

end TypedIR
