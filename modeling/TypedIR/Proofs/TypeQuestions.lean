import TypedIR.Build.Value
import TypedIR.Proofs.EngineEdits
import TypedIR.Proofs.Workspaces

/-
  What the builder asks before it does something.

  Questions about types and functions change nothing that functions are made
  of, and an answer is never a problem (`Asks`): where there is no answer the
  builder crashes. The questions about fields are the exception.
-/

namespace TypedIR

open Engine

namespace BuildM

variable {α : Type} {step : Workspace → Workspace → Prop} {sub : Engine → Engine → Prop}
  [Std.Refl step] [Trans step step step]

/-! ## Functions -/

theorem asks_runtimeOf (f : FnId) : Asks step (runtimeOf f) :=
  .bind' (asks_function f) fun _ => .pure' _

theorem asks_functionName (f : FnId) : Asks step (functionName f) := by
  refine .bind' (asks_function f) fun s => .bind' (asks_engine _) fun e => ?_
  cases e.findFunc s.id with
  | ok ef => exact .pure' _
  | error err => exact .pure' _

theorem asks_mustWrap (rt : RuntimeId) (id : TypeId) : Asks step (mustWrap rt id) := by
  refine .bind' (asks_table rt) fun t => ?_
  cases t.wrap? rt id with
  | some u => exact .pure' u
  | none => exact .throw' nofun

/-! ## Types -/

theorem asks_tyText (t : Ty) : Asks step (tyText t) := by
  unfold tyText
  cases t.owner with
  | some rt => exact .ite' (.bind' (asks_table rt) fun _ => .pure' _) (.pure' _)
  | none => exact .pure' _

theorem asks_valText (v : Val) : Asks step (valText v) :=
  .ite' (.bind' (asks_tyText _) fun _ => .pure' _) (.pure' _)

theorem asks_baseOf (t : Ty) : Asks step (baseOf t) := by
  unfold baseOf
  cases t.owner with
  | none => exact .pure' _
  | some rt => exact .bind' (asks_table rt) fun _ => .ite' (.pure' _) (.pure' _)

theorem asks_isInteger (t : Ty) : Asks step (isInteger t) :=
  .bind' (asks_baseOf t) fun _ => .pure' _

theorem asks_isFloat (t : Ty) : Asks step (isFloat t) :=
  .bind' (asks_baseOf t) fun _ => .pure' _

theorem asks_isSigned (t : Ty) : Asks step (isSigned t) :=
  .bind' (asks_baseOf t) fun _ => .pure' _

theorem asks_isUnsignedLike (t : Ty) : Asks step (isUnsignedLike t) :=
  .bind' (.bind' (asks_baseOf t) fun _ => .pure' _) fun _ => .pure' _

theorem asks_isIntType (t : Ty) : Asks step (isIntType t) :=
  .bind' (asks_isInteger t) fun _ => .pure' _

omit [Trans step step step] in
theorem asks_ownerOf (t : Ty) : Asks step (ownerOf t) := by
  unfold ownerOf
  cases t.owner with
  | none => exact .throw' nofun
  | some rt => exact .pure' rt

theorem asks_targetOf? (t : Ty) : Asks step (targetOf? t) :=
  .ite' (.pure' _) (.bind' (asks_ownerOf t) fun rt => .bind' (asks_table rt) fun _ => .pure' _)

theorem asks_fieldCount (t : Ty) : Asks step (fieldCount t) :=
  .ite' (.pure' _) (.bind' (asks_ownerOf t) fun rt => .bind' (asks_engine rt) fun _ => .pure' _)

theorem asks_signatureOf? (t : Ty) : Asks step (signatureOf? t) :=
  .ite' (.pure' _) (.bind' (asks_ownerOf t) fun rt => .bind' (asks_engine rt) fun _ => .pure' _)

theorem asks_abiOf (t : Ty) : Asks step (abiOf t) :=
  .bind' (asks_signatureOf? t) fun _ => .pure' _

theorem asks_paramsOf (t : Ty) : Asks step (paramsOf t) := by
  refine .bind' (asks_signatureOf? t) fun s => ?_
  cases s with
  | none => exact .pure' _
  | some s => exact .bind' (asks_ownerOf t) fun rt => .mapM' _ (asks_mustWrap rt)

theorem asks_returnOf (t : Ty) : Asks step (returnOf t) :=
  .ite' (.pure' _) (.bind' (asks_ownerOf t) fun rt => .bind' (asks_signatureOf? t) fun _ =>
    asks_mustWrap rt _)

/-! ## Fields -/

theorem leaves_complainText (op : String) (t : Ty) (c : String → Complaint) :
    Leaves step (do complain op (c (← tyText t)) : BuildM α) :=
  .bind' (asks_tyText t).leaves fun _ => .throw' _

theorem leaves_checkField (t : Ty) (op : String) (i : Int) : Leaves step (checkField t op i) := by
  have hrest : Leaves step (do
      let n ← fieldCount t
      if i < 0 ∨ n ≤ i then complain op (.fieldRange i n (← tyText t))) :=
    .bind' (asks_fieldCount t).leaves fun n => .ite' (leaves_complainText op t _) (.pure' _)
  exact .ite' (.bind' (asks_tyText t).leaves fun _ => .bind' (.throw' _) fun _ => hrest) hrest

theorem leaves_findField (t : Ty) (name : String) : Leaves step (findField t name) := by
  refine .ite' (.bind' (asks_tyText t).leaves fun _ => .bind_throw) ?_
  refine .bind' (asks_ownerOf t).leaves fun rt => .bind' (asks_engine rt).leaves fun e => ?_
  cases e.findField? t.id name with
  | some i => exact .pure' i
  | none => exact leaves_complainText _ t _

/-! ## Types built alike -/

theorem asks_allPairs {rel : Ty → Ty → BuildM Bool} (h : ∀ a b, Asks step (rel a b)) (as bs : List Ty) :
    Asks step (allPairs rel as bs) := by
  induction as generalizing bs with
  | nil => cases bs <;> exact .pure' _
  | cons a as ih =>
    cases bs with
    | nil => exact .pure' _
    | cons b bs => exact .bind' (h a b) fun _ => .ite' (ih bs) (.pure' _)

variable [Follows step sub] [Std.Refl sub] [Trans sub sub sub] [Asking sub]

include sub

theorem asks_layoutOf? (t : Ty) : Asks step (layoutOf? t) := by
  unfold layoutOf?
  cases t.owner with
  | none => exact .pure' _
  | some rt =>
    refine .ite' (.pure' _) (.bind' (asks_tryEngine rt (EngineM.quiet_layoutOf _)) fun answer => ?_)
    rcases answer with err | r | l <;> exact .pure' _

theorem asks_widthOf (t : Ty) : Asks step (widthOf t) :=
  .bind' (.bind' (asks_layoutOf? t) fun _ => .pure' _) fun _ => .pure' _

theorem leaves_fieldType (t : Ty) (i : Int) : Leaves step (fieldType t i) :=
  .bind' (leaves_checkField t _ i) fun _ => .bind' (asks_ownerOf t).leaves fun rt =>
    .bind' (leaves_onEngine rt _ (EngineM.quiet_field _ i)) fun _ => leaves_wrapType rt _

theorem leaves_fieldOffset (t : Ty) (i : Int) : Leaves step (fieldOffset t i) :=
  .bind' (leaves_checkField t _ i) fun _ => .bind' (asks_ownerOf t).leaves fun rt =>
    leaves_onEngine rt _ (EngineM.quiet_fieldOffset _ i)

theorem leaves_fieldName (t : Ty) (i : Int) : Leaves step (fieldName t i) :=
  .bind' (leaves_checkField t _ i) fun _ => .bind' (asks_ownerOf t).leaves fun rt =>
    .bind' (leaves_onEngine rt _ (EngineM.quiet_field _ i)) fun _ => .pure' _

theorem asks_offsetOrZero (t : Ty) (i : Nat) : Asks step (offsetOrZero t i) := by
  refine .bind' (.attempt (leaves_fieldOffset t i)) fun off => ?_
  cases off with
  | ok off => exact .pure' off
  | error p => exact .pure' _

theorem asks_fieldsAgree {rel : Ty → Ty → BuildM Bool} (h : ∀ a b, Asks step (rel a b)) (a b : Ty) (i k : Nat) :
    Asks step (fieldsAgree rel a b i k) := by
  induction k generalizing i with
  | zero => exact .pure' _
  | succ k ih =>
    refine .bind' (.attempt (leaves_fieldType a i)) fun fa => ?_
    refine .bind' (.attempt (leaves_fieldType b i)) fun fb => ?_
    refine .bind' (asks_offsetOrZero a i) fun oa => .bind' (asks_offsetOrZero b i) fun ob => ?_
    rcases fa with p | fa
    · exact .pure' _
    rcases fb with p | fb
    · exact .pure' _
    exact .ite' (.pure' _) (.bind' (h fa fb) fun _ => .ite' (ih _) (.pure' _))

theorem asks_compatibleWithin (n : Nat) (a b : Ty) :
    Asks step (compatibleWithin (fun _ _ => throw .crashed) n a b) := by
  induction n generalizing a b with
  | zero => exact .throw' nofun
  | succ n ih =>
    refine .ite' (.pure' _) (.ite' (.pure' _) ?_)
    cases a.kind with
    | void => exact .pure' _
    | bool => exact .pure' _
    | invalid => exact .pure' _
    | primitive => exact .bind' (asks_baseOf a) fun _ => .bind' (asks_baseOf b) fun _ => .pure' _
    | pointer =>
      refine .bind' (asks_targetOf? a) fun ta => .bind' (asks_targetOf? b) fun tb => ?_
      rcases ta with _ | ta
      · exact .pure' _
      rcases tb with _ | tb
      · exact .pure' _
      exact ih ta tb
    | struct =>
      exact .bind' (asks_fieldCount a) fun _ => .bind' (asks_fieldCount b) fun _ =>
        .ite' (.pure' _) (asks_fieldsAgree ih a b _ _)
    | signature =>
      have hparams := Asks.bind' (asks_paramsOf a) fun pa =>
        Asks.bind' (asks_paramsOf b) fun pb => asks_allPairs ih pa pb
      refine .bind' (asks_abiOf a) fun _ => .bind' (asks_abiOf b) fun _ => .ite' (.pure' _) ?_
      refine .bind' (asks_returnOf a) fun _ => .bind' (asks_returnOf b) fun _ => ?_
      exact .bind' (ih _ _) fun _ => .ite' (.pure' _) hparams

theorem asks_compatible (a b : Ty) : Asks step (compatible a b) := by
  have hsize : ∀ t, Asks step (tableSize t) := by
    intro t
    unfold tableSize
    cases t.owner with
    | none => exact .pure' _
    | some rt => exact .bind' (asks_table rt) fun _ => .pure' _
  exact .bind' (hsize a) fun _ => .bind' (hsize b) fun _ => asks_compatibleWithin _ a b

end BuildM

end TypedIR
