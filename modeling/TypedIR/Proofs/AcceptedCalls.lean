import TypedIR.Proofs.KeptProblems

/-
  What the engine accepts of an operation of the builder.

  There is one lemma for each operation on a function: if the function has no
  problem afterwards, then the engine took the instruction the operation stands
  for, on the operands that were given, and the answer is a value of the
  function.
-/

namespace TypedIR

open Engine Workspace

def Val.Tested (v a : Val) (id : FuncId) (ops : List Operation) : Prop :=
  if v.kind = .bool then a = v else .toBool id v.id ∈ ops

def Val.Fitted (v : Val) (t : TypeId) (a : Val) (id : FuncId) (ops : List Operation) : Prop :=
  a = v ∨ .convert id v.id t ∈ ops

theorem Val.Tested.mono {v a : Val} {id : FuncId} {ops ops' : List Operation}
    (h : v.Tested a id ops) (hsub : ops ⊆ ops') : v.Tested a id ops' := by
  unfold Val.Tested at h ⊢
  split at h
  · next hk => rwa [if_pos hk]
  · next hk =>
    rw [if_neg hk]
    exact hsub h

theorem Val.Fitted.mono {v a : Val} {t : TypeId} {id : FuncId} {ops ops' : List Operation}
    (h : v.Fitted t a id ops) (hsub : ops ⊆ ops') : v.Fitted t a id ops' :=
  h.imp_right fun h => hsub h

theorem Val.Own.of {f : FnId} {v : Val} (h : v.Own f) : v.Of f := .inr h.fn

theorem Val.Of.own {f : FnId} {v : Val} (h : v.Of f) (hvalid : v.valid = true) : v.Own f := by
  refine ⟨hvalid, h.resolve_left fun hnone => ?_⟩
  simp [Val.valid, hnone] at hvalid

namespace BuildM

variable {α : Type} {watched : Prop} {f : FnId} {v : Val}

/-! ## Operations on a value -/

theorem tends_onValue (hv : v.Of f) (op : String) {fallback : Val} {act : FnId → BuildM Val}
    {post : Val → FuncId → List Operation → Prop} (hfallback : fallback.Of f)
    (h : v.Own f → Tends watched f (act f) (Val.Of f) post) :
    Tends watched f (onValue v op fallback act) (Val.Of f) fun a id ops => v.Own f → post a id ops := by
  unfold onValue subject?
  rcases hv with hnone | hsome
  · rw [hnone]
    exact .pure' hfallback fun id hown => absurd (hnone.symm.trans hown.fn) nofun
  · rw [hsome]
    by_cases hvalid : v.valid = true
    · simp only [hvalid, if_true]
      exact (h ⟨hvalid, hsome⟩).mono (fun _ h => h) fun _ _ _ _ hpost _ => hpost
    · simp only [hvalid]
      have hsubject : Tends watched f (do keep f (.complaint op .invalidValue); pure none)
          (fun o : Option FnId => o = none) fun _ _ _ => True := tends_keep_pure f _ rfl
      refine .bind' hsubject fun o ho => ?_
      subst ho
      exact .pure' hfallback fun id _ _ hown => absurd hown.valid hvalid

theorem tends_emitWith (name : String) (x : HostValue) (like : Ty)
    (act : ValueId → FuncId → EngineM ValueId) (op : ValueId → FuncId → Operation)
    (h : ∀ o, Performs (act o) (op o)) :
    Tends watched f (do
      match ← operand? f name x like with
      | none => pure {}
      | some o => emit f name (act o.id)) (Val.Of f)
      fun a id ops => a.Own f ∧ ∃ o, x.Stands o id ops ∧ op o id ∈ ops := by
  refine tends_withOperand name x like (.pure' (.inl rfl) fun _ => trivial) fun o _ => ?_
  refine (tends_emit name (op o.id) (h o.id)).mono (fun _ h => h) fun a id ops' _ ha ops _ hstands => ?_
  exact ⟨ha.1, o.id, hstands.mono (by simp), List.mem_append_right ops ha.2⟩

theorem tends_arg (i : Int) :
    Tends False f (arg f i) (Val.Of f) fun v _ _ => Val.Own f v := by
  have hrest : ∀ rt fn, Tends False f (do
      let id ← onEngine rt "arg" (EngineM.paramValue fn i)
      wrapValue f id) (Val.Of f) fun v _ _ => Val.Own f v :=
    fun rt fn => .trying (leaves_onEngine rt _ (EngineM.quiet_paramValue fn i)) tends_wrapValue
  refine .asking (asks_function f) fun s => .ite' (fun _ => ?_) fun _ => hrest s.runtime s.id
  exact .trying (leaves_complain _ _) fun _ => hrest s.runtime s.id

theorem tends_args :
    Tends watched f (args f) (fun _ => True) fun vs _ _ => ∀ v ∈ vs, Val.Own f v :=
  .asking (asks_function f) fun _ => .mapM' _ fun i =>
    tends_guarded ((tends_arg i).mono (fun _ _ => trivial) fun _ _ _ _ h => h) trivial

theorem tends_declare (t : Ty) :
    Tends watched f (declare f t) (Val.Of f)
      fun a id ops => a.Own f ∧ .createValue id t.id ∈ ops :=
  .ite' (fun _ => tends_emit _ (fun id => .createValue id t.id)
    (.of_discard (fun _ => rfl) fun _ => rfl)) fun _ => tends_reject _ _

theorem tends_store (hv : v.Of f) (x : HostValue) :
    Tends watched f (store v x) (Val.Of f) fun a id ops => v.Own f →
      a = v ∧ ∃ o, x.Stands o id ops ∧ .store id v.id o ∈ ops := by
  refine tends_onValue hv _ hv fun _ => ?_
  refine tends_withOperand _ x _ (.pure' hv fun _ => trivial) fun o _ => ?_
  refine .bind' (tends_attempted _ (fun id => .store id v.id o.id)
    (.of_unit (fun _ => rfl) fun _ => rfl)) fun _ _ => ?_
  refine .pure' hv fun id ops' hop ops _ hstands => ⟨rfl, o.id, hstands.mono (by simp), ?_⟩
  simp [hop]

theorem tends_address (hv : v.Of f) :
    Tends watched f (address v) (Val.Of f) fun a id ops => v.Own f →
      a.Own f ∧ .addressOf id v.id ∈ ops :=
  tends_onValue hv _ (.inl rfl) fun _ => tends_emit _ (fun id => .addressOf id v.id)
    (.of_discard (fun _ => rfl) fun _ => rfl)

theorem tends_setAddressable (hv : v.Of f) :
    Tends watched f (setAddressable v) (Val.Of f) fun a id ops => v.Own f →
      a = v ∧ .setAddressable id v.id ∈ ops := by
  refine tends_onValue hv _ hv fun _ => ?_
  refine .bind' (tends_attempted _ (fun id => .setAddressable id v.id)
    (.of_unit (fun _ => rfl) fun _ => rfl)) fun _ _ => ?_
  exact .pure' hv fun id ops hop => ⟨rfl, List.mem_append_left [] hop⟩

theorem tends_toBool (hv : v.Of f) :
    Tends watched f (toBool v) (Val.Of f) fun a id ops => v.Own f →
      a.Own f ∧ v.Tested a id ops := by
  refine tends_onValue hv _ (.inl rfl) fun hown => .ite' (fun hk => ?_) fun hk => ?_
  · exact .pure' hv fun id => ⟨hown, (if_pos hk).mpr rfl⟩
  · refine (tends_emit _ (fun id => .toBool id v.id)
      (.of_discard (fun _ => rfl) fun _ => rfl)).mono (fun _ h => h) fun a id ops _ ha => ?_
    exact ⟨ha.1, (if_neg hk).mpr ha.2⟩

theorem tends_toNotBool (hv : v.Of f) :
    Tends watched f (toNotBool v) (Val.Of f) fun a id ops => v.Own f →
      a.Own f ∧ .toNotBool id v.id ∈ ops :=
  tends_onValue hv _ (.inl rfl) fun _ => tends_emit _ (fun id => .toNotBool id v.id)
    (.of_discard (fun _ => rfl) fun _ => rfl)

theorem tends_cast (hv : v.Of f) (t : Ty) :
    Tends watched f (cast v t) (Val.Of f) fun a id ops => v.Own f →
      a.Own f ∧ .convert id v.id t.id ∈ ops :=
  tends_onValue hv _ (.inl rfl) fun _ => .ite'
    (fun _ => tends_emit _ (fun id => .convert id v.id t.id)
      (.of_discard (fun _ => rfl) fun _ => rfl)) fun _ => tends_reject _ _

theorem tends_binary (hv : v.Of f) (name : String) (n : UInt8) (x : HostValue) :
    Tends watched f (binary name (.ofCode n) v x) (Val.Of f) fun a id ops => v.Own f →
      a.Own f ∧ ∃ o, x.Stands o id ops ∧ .binary id n v.id o ∈ ops :=
  tends_onValue hv _ (.inl rfl) fun _ =>
    tends_emitWith _ x _ (fun o id => EngineM.binary id (.ofCode n) v.id o)
      (fun o id => .binary id n v.id o) fun _ => .of_discard (fun _ => rfl) fun _ => rfl

theorem tends_compare (hv : v.Of f) (name : String) (n : UInt8) (x : HostValue) :
    Tends watched f (compare name (.ofCode n) v x) (Val.Of f) fun a id ops => v.Own f →
      a.Own f ∧ ∃ o, x.Stands o id ops ∧ .compare id n v.id o ∈ ops :=
  tends_onValue hv _ (.inl rfl) fun _ =>
    tends_emitWith _ x _ (fun o id => EngineM.compare id (.ofCode n) v.id o)
      (fun o id => .compare id n v.id o) fun _ => .of_discard (fun _ => rfl) fun _ => rfl

theorem tends_unary (hv : v.Of f) (name : String) (n : UInt8) :
    Tends watched f (unary name (.ofCode n) v) (Val.Of f) fun a id ops => v.Own f →
      a.Own f ∧ .unary id n v.id ∈ ops :=
  tends_onValue hv _ (.inl rfl) fun _ => tends_emit _ (fun id => .unary id n v.id)
    (.of_discard (fun _ => rfl) fun _ => rfl)

theorem tends_logical (hv : v.Of f) (name : String) (n : UInt8) (x : HostValue) :
    Tends watched f (logical name (.ofCode n) v x) (Val.Of f) fun a id ops => v.Own f →
      a.Own f ∧ ∃ o l r c : Val, x.Stands o.id id ops ∧ v.Tested l id ops ∧ o.Tested r id ops ∧
        .binary id n l.id r.id ∈ ops ∧ c.Tested a id ops := by
  refine tends_onValue hv _ (.inl rfl) fun hown => .asking (asks_runtimeOf f) fun rt => ?_
  refine tends_withOperand _ x _ (.pure' (.inl rfl) fun _ => trivial) fun o ho => ?_
  refine .bind' (tends_toBool hv) fun l hl => .bind' (tends_toBool ho) fun r hr => ?_
  refine .bind' (tends_binary hl name n (.value r)) fun c hc => ?_
  refine (tends_toBool hc).mono (fun _ h => h) fun a id ops₅ _ ha ops₄ hb ops₃ hr' ops₂ hl' ops₁ ho' hx => ?_
  obtain ⟨hlown, hltest⟩ := hl' hown
  obtain ⟨hrown, hrtest⟩ := hr' ho'
  obtain ⟨hcown, r', rfl, hop⟩ := hb hlown
  obtain ⟨haown, hatest⟩ := ha hcown
  exact ⟨haown, o, l, r, c, hx.mono fun _ h => by simp [h], hltest.mono fun _ h => by simp [h],
    hrtest.mono fun _ h => by simp [h], by simp [hop], hatest.mono fun _ h => by simp [h]⟩

theorem tends_math (n : UInt8) (args : List HostValue) :
    Tends watched f (math f (.ofCode n) args) (Val.Of f) fun a id ops =>
      a.Own f ∧ ∃ ids, List.Forall₂ (fun x o => HostValue.Stands x o id ops) args ids ∧
        .math id n ids ∈ ops := by
  refine .asking (asks_runtimeOf f) fun rt => .bind' (tends_operands? _ _) fun vs _ => ?_
  cases vs with
  | none => exact .pure' (.inl rfl) fun id ops hops => by simp at hops
  | some vs =>
    refine (tends_emit _ (fun id => .math id n vs)
      (.of_discard (fun _ => rfl) fun _ => rfl)).mono (fun _ h => h) fun a id ops' _ ha ops hops => ?_
    obtain ⟨ids, hids, hall⟩ := hops
    obtain rfl := Option.some.inj hids
    rw [List.forall₂_map_left_iff] at hall
    exact ⟨ha.1, vs, hall.imp fun x o h => h.mono (by simp), List.mem_append_right ops ha.2⟩

/-! ## Memory and fields -/

theorem tends_pointee? (op : String) (override : Option Ty) :
    Tends watched f (pointee? f v op override) (fun _ => True) fun t _ _ => t ≠ none := by
  unfold pointee?
  cases override.filter (·.valid) with
  | some t => exact .pure' trivial fun _ => nofun
  | none =>
    refine .asking (asks_targetOf? v.type) fun t => ?_
    cases t with
    | none => exact .asking (asks_tyText v.type) fun _ => tends_keep_pure f _ trivial
    | some t =>
      refine .ite' (fun _ => ?_) fun _ => .pure' trivial fun _ => nofun
      exact .asking (asks_tyText v.type) fun _ => tends_keep_pure f _ trivial

theorem tends_withAnswer {β : Type} {act : BuildM (Option β)} {k : Option β → BuildM α}
    {sure : α → Prop} {post : α → FuncId → List Operation → Prop}
    (h : Tends watched f act (fun _ => True) fun o _ _ => o ≠ none)
    (hnone : Tends watched f (k none) sure fun _ _ _ => True)
    (hsome : ∀ b, Tends watched f (k (some b)) sure fun a id ops' =>
      ∀ ops, post a id (ops ++ ops')) : Tends watched f (act >>= k) sure post := by
  refine .bind' h fun o _ => ?_
  cases o with
  | none => exact hnone.mono (fun _ h => h) fun _ _ _ _ _ _ hops => absurd rfl hops
  | some b => exact (hsome b).mono (fun _ h => h) fun _ _ _ _ hpost ops _ => hpost ops

theorem tends_mload (hv : v.Of f) (offset : Int) (t : Ty) :
    Tends watched f (mload v offset t) (Val.Of f) fun a id ops => v.Own f →
      a.Own f ∧ .loadRel id v.id offset t.id ∈ ops :=
  tends_onValue hv _ (.inl rfl) fun _ => .ite'
    (fun _ => tends_emit _ (fun id => .loadRel id v.id offset t.id)
      (.of_discard (fun _ => rfl) fun _ => rfl)) fun _ => tends_reject _ _

theorem tends_mstore (hv : v.Of f) (x : HostValue) (offset : Int) :
    Tends watched f (mstore v x offset) (Val.Of f) fun a id ops => v.Own f →
      a = v ∧ ∃ o, x.Stands o id ops ∧ .storeRel id v.id offset o ∈ ops := by
  refine tends_onValue hv _ hv fun _ => .asking (asks_runtimeOf f) fun rt => ?_
  refine .asking (asks_targetOf? v.type) fun target => ?_
  refine tends_withOperand _ x _ (.pure' hv fun _ => trivial) fun o _ => ?_
  refine .bind' (tends_attempted _ (fun id => .storeRel id v.id offset o.id)
    (.of_unit (fun _ => rfl) fun _ => rfl)) fun _ _ => ?_
  refine .pure' hv fun id ops' hop ops _ hx => ⟨rfl, o.id, hx.mono (by simp), ?_⟩
  simp [hop]

theorem tends_deref (hv : v.Of f) (t : Option Ty) :
    Tends watched f (deref v t) (Val.Of f) fun a id ops => v.Own f →
      a.Own f ∧ ∃ u, .loadRel id v.id 0 u ∈ ops := by
  refine tends_onValue hv _ (.inl rfl) fun hown => ?_
  refine tends_withAnswer (tends_pointee? _ t) (.pure' (.inl rfl) fun _ => trivial) fun u => ?_
  refine (tends_mload hv 0 u).mono (fun _ h => h) fun a id ops' _ ha ops => ?_
  exact ⟨(ha hown).1, u.id, List.mem_append_right ops (ha hown).2⟩

theorem tends_loadElem (hv : v.Of f) (index : HostValue) (t : Option Ty) :
    Tends watched f (loadElem v index t) (Val.Of f) fun a id ops => v.Own f →
      a.Own f ∧ ∃ i u, index.Stands i id ops ∧ .loadElem id v.id i u ∈ ops := by
  refine tends_onValue hv _ (.inl rfl) fun _ => ?_
  refine tends_withAnswer (tends_pointee? _ t) (.pure' (.inl rfl) fun _ => trivial) fun u => ?_
  refine .asking (asks_runtimeOf f) fun rt => ?_
  refine (tends_emitWith _ index _ (fun i id => EngineM.loadElem id v.id i u.id)
      (fun i id => .loadElem id v.id i u.id)
    fun _ => .of_discard (fun _ => rfl) fun _ => rfl).mono (fun _ h => h) fun a id ops' _ ha ops => ?_
  obtain ⟨hown, i, hi, hop⟩ := ha
  exact ⟨hown, i, u.id, hi.mono (by simp), List.mem_append_right ops hop⟩

theorem tends_fitted (hv : v.Of f) (t : Ty) :
    Tends watched f (fitted v t) (Val.Of f) fun a id ops => v.Own f →
      a.Own f ∧ v.Fitted t.id a id ops := by
  refine .asking (asks_compatible v.type t) fun b => .ite' (fun _ => ?_) fun _ => ?_
  · exact .pure' hv fun id hown => ⟨hown, .inl rfl⟩
  · exact (tends_cast hv t).mono (fun _ h => h) fun a id ops _ ha hown =>
      ⟨(ha hown).1, .inr (ha hown).2⟩

theorem tends_storeElem (hv : v.Of f) (index x : HostValue) :
    Tends watched f (storeElem v index x) (Val.Of f) fun a id ops => v.Own f →
      a = v ∧ ∃ i, ∃ o u : Val, ∃ t, index.Stands i id ops ∧ x.Stands o.id id ops ∧
        o.Fitted t u id ops ∧ .storeElem id v.id i u.id ∈ ops := by
  refine tends_onValue hv _ hv fun _ => ?_
  refine tends_withAnswer (tends_pointee? _ none) (.pure' hv fun _ => trivial) fun t => ?_
  refine .asking (asks_runtimeOf f) fun rt => ?_
  refine tends_withOperand _ index _ (.pure' hv fun _ => trivial) fun i _ => ?_
  refine tends_withOperand _ x _ (.pure' hv fun _ => trivial) fun o ho => ?_
  refine .bind' (tends_fitted ho t) fun u hu => .ite' (fun _ => ?_) fun hinvalid => ?_
  · refine .bind' (tends_attempted _ (fun id => .storeElem id v.id i.id u.id)
      (.of_unit (fun _ => rfl) fun _ => rfl)) fun _ _ => ?_
    refine .pure' hv fun id ops₅ hop ops₄ hfit ops₃ hown hx ops₂ _ hi ops₁ => ?_
    exact ⟨rfl, i.id, o, u, t.id, hi.mono fun _ h => by simp [h], hx.mono fun _ h => by simp [h],
      (hfit hown).2.mono fun _ h => by simp [h], by simp [hop]⟩
  · exact .pure' hv fun id ops₄ hfit ops₃ hown _ ops₂ _ _ ops₁ => absurd (hfit hown).1.valid hinvalid

theorem tends_fieldPlace? (op : String) (i : Int) :
    Tends watched f (fieldPlace? f v op i) (fun _ => True) fun o _ _ => o ≠ none := by
  unfold fieldPlace?
  refine .ite' (fun _ => ?_) fun _ => tends_guarded ?_ trivial
  · exact .asking (asks_tyText v.type) fun _ => .bind' (tends_keep f _) fun _ _ =>
      .pure' trivial fun _ _ h => h.elim
  · exact .trying (leaves_fieldType v.type i) fun t => .trying (leaves_fieldOffset v.type i) fun off =>
      .pure' trivial fun _ => nofun

theorem tends_field (hv : v.Of f) (i : Int) :
    Tends watched f (field v i) (Val.Of f) fun a id ops => v.Own f →
      a.Own f ∧ .addressOf id v.id ∈ ops ∧ ∃ p off t, .loadRel id p off t ∈ ops := by
  refine tends_onValue hv _ (.inl rfl) fun hown => ?_
  refine tends_withAnswer (tends_fieldPlace? _ i) (.pure' (.inl rfl) fun _ => trivial) fun place => ?_
  refine .bind' (tends_address hv) fun p hp => ?_
  refine (tends_mload hp place.2 place.1).mono (fun _ h => h) fun a id ops₃ _ ha ops₂ hp' ops₁ => ?_
  obtain ⟨hpown, hop⟩ := hp' hown
  obtain ⟨haown, hload⟩ := ha hpown
  exact ⟨haown, by simp [hop], p.id, place.2, place.1.id, by simp [hload]⟩

theorem tends_setField (hv : v.Of f) (i : Int) (x : HostValue) :
    Tends watched f (setField v i x) (Val.Of f) fun a id ops => v.Own f →
      a = v ∧ .addressOf id v.id ∈ ops ∧ ∃ p off, ∃ o u : Val, ∃ t, x.Stands o.id id ops ∧
        o.Fitted t u id ops ∧ .storeRel id p off u.id ∈ ops := by
  refine tends_onValue hv _ hv fun hown => ?_
  refine tends_withAnswer (tends_fieldPlace? _ i) (.pure' hv fun _ => trivial) fun place => ?_
  refine tends_withOperand _ x _ (.pure' hv fun _ => trivial) fun o ho => ?_
  refine .bind' (tends_fitted ho _) fun u hu => .ite' (fun _ => ?_) fun hinvalid => ?_
  · refine .bind' (tends_address hv) fun p hp => .bind' (tends_mstore hp _ _) fun _ _ => ?_
    refine .pure' hv fun id ops₅ hstore ops₄ hp' ops₃ hfit ops₂ hown' hx ops₁ => ?_
    obtain ⟨hpown, hop⟩ := hp' hown
    obtain ⟨-, u', rfl, hstore⟩ := hstore hpown
    exact ⟨rfl, by simp [hop], p.id, place.2, o, u, place.1.id, hx.mono fun _ h => by simp [h],
      (hfit hown').2.mono fun _ h => by simp [h], by simp [hstore]⟩
  · exact .pure' hv fun id ops₃ hfit ops₂ hown' _ ops₁ => absurd (hfit hown').1.valid hinvalid

theorem tends_fieldIndex? (name : String) :
    Tends watched f (fieldIndex? f v name) (fun _ => True) fun o _ _ => o ≠ none :=
  tends_guarded (.trying (leaves_findField v.type name) fun _ => .pure' trivial fun _ => nofun) trivial

theorem tends_fieldNamed (hv : v.Of f) (name : String) :
    Tends watched f (fieldNamed v name) (Val.Of f) fun a id ops => v.Own f →
      a.Own f ∧ .addressOf id v.id ∈ ops ∧ ∃ p off t, .loadRel id p off t ∈ ops := by
  refine tends_onValue hv _ (.inl rfl) fun hown => ?_
  refine tends_withAnswer (tends_fieldIndex? name) (.pure' (.inl rfl) fun _ => trivial) fun i => ?_
  refine (tends_field hv i).mono (fun _ h => h) fun a id ops' _ ha ops => ?_
  obtain ⟨haown, hop, p, off, t, hload⟩ := ha hown
  exact ⟨haown, by simp [hop], p, off, t, by simp [hload]⟩

theorem tends_setFieldNamed (hv : v.Of f) (name : String) (x : HostValue) :
    Tends watched f (setFieldNamed v name x) (Val.Of f) fun a id ops => v.Own f →
      a = v ∧ .addressOf id v.id ∈ ops ∧ ∃ p off, ∃ o u : Val, ∃ t, x.Stands o.id id ops ∧
        o.Fitted t u id ops ∧ .storeRel id p off u.id ∈ ops := by
  refine tends_onValue hv _ hv fun hown => ?_
  refine tends_withAnswer (tends_fieldIndex? name) (.pure' hv fun _ => trivial) fun i => ?_
  refine (tends_setField hv i x).mono (fun _ h => h) fun a id ops' _ ha ops => ?_
  obtain ⟨ha, hop, p, off, o, u, t, hx, hfit, hstore⟩ := ha hown
  exact ⟨ha, by simp [hop], p, off, o, u, t, hx.mono (by simp), hfit.mono (by simp), by simp [hstore]⟩

theorem tends_alloca (size : HostValue) :
    Tends watched f (alloca f size) (Val.Of f) fun a id ops =>
      a.Own f ∧ ∃ n, size.Stands n id ops ∧ .alloca id n ∈ ops :=
  .asking (asks_runtimeOf f) fun _ =>
    tends_emitWith _ size _ (fun n id => EngineM.alloca id n)
      (fun n id => .alloca id n)
      fun _ => .of_discard (fun _ => rfl) fun _ => rfl

theorem tends_storeBytes {buffer : Val} (hv : buffer.Of f) (byte : Ty) (i : Nat) (s : Text.Bytes) :
    Tends watched f (storeBytes f buffer byte i s) (fun _ => True) fun _ id ops => buffer.Own f →
      ∀ k < s.length, ∃ c, .storeRel id buffer.id (i + k : Nat) c ∈ ops := by
  induction s generalizing i with
  | nil => exact .pure' trivial fun _ _ k hk => absurd hk (Nat.not_lt_zero k)
  | cons b rest ih =>
    refine .bind' (tends_constUint byte _) fun c _ => .bind' (tends_mstore hv _ _) fun _ _ => ?_
    refine (ih (i + 1)).mono (fun _ h => h) fun _ id ops₃ _ hrest ops₂ hstore ops₁ _ hown k hk => ?_
    cases k with
    | zero =>
      obtain ⟨-, c', -, hop⟩ := hstore hown
      exact ⟨c', by simp [hop]⟩
    | succ k =>
      obtain ⟨c', hop⟩ := hrest hown k (Nat.lt_of_succ_lt_succ hk)
      rw [Nat.add_right_comm] at hop
      exact ⟨c', List.mem_append_right _ (List.mem_append_right _ hop)⟩

theorem tends_stringz (s : Text.Bytes) :
    Tends watched f (stringz f s) (Val.Of f) fun a id ops =>
      a.Own f ∧ ∃ n buffer, .alloca id n ∈ ops ∧
        (∀ k < s.length + 1, ∃ c, .storeRel id buffer (k : Nat) c ∈ ops) ∧
        .convert id buffer Builtin.stringz.id ∈ ops := by
  refine .asking (asks_runtimeOf f) fun rt => .bind' (tends_alloca _) fun buffer hbuffer => ?_
  refine .ite' (fun hinvalid => ?_) fun _ => ?_
  · refine .pure' (.inl rfl) fun id ops hops => absurd hops.1.valid ?_
    simpa using hinvalid
  · refine .bind' (tends_storeBytes hbuffer _ 0 _) fun _ _ => ?_
    refine (tends_cast hbuffer (Builtin.stringz.ty rt)).mono (fun _ h => h)
      fun a id ops₃ _ ha ops₂ hstores ops₁ halloca => ?_
    obtain ⟨hown, n, -, hop⟩ := halloca
    refine ⟨(ha hown).1, n, buffer.id, by simp [hop], fun k hk => ?_, ?_⟩
    · obtain ⟨c, hc⟩ := hstores hown k (by simpa using hk)
      rw [Nat.zero_add] at hc
      exact ⟨c, by simp [hc]⟩
    · have hconvert : .convert id buffer.id Builtin.stringz.id ∈ ops₃ := (ha hown).2
      simp [hconvert]

/-! ## Returns and calls -/

theorem tends_ret (x : HostValue) :
    Tends watched f (ret f x) (fun _ => True) fun _ id ops =>
      ∃ o, x.Stands o id ops ∧ .ret id o ∈ ops := by
  refine .asking (asks_function f) fun s => ?_
  refine tends_withOperand _ x _ (.pure' trivial fun _ => trivial) fun o _ => ?_
  refine (tends_attempted _ (fun id => .ret id o.id)
    (.of_unit (fun _ => rfl) fun _ => rfl)).mono (fun _ h => h) fun _ id ops' _ hop ops _ hx => ?_
  exact ⟨o.id, hx.mono (by simp), List.mem_append_right ops hop⟩

theorem tends_retVoid :
    Tends watched f (retVoid f) (fun _ => True) fun _ id ops => .ret id 0 ∈ ops :=
  tends_attempted _ (fun id => .ret id 0) (.of_unit (fun _ => rfl) fun _ => rfl)

theorem tends_callOther (callee : Option FnId) (args : List HostValue) :
    Tends watched f (callOther f callee args) (Val.Of f) fun a id ops =>
      a.Own f ∧ ∃ g ids, .call id g ids ∈ ops := by
  refine .asking (asks_runtimeOf f) fun rt => ?_
  cases callee with
  | none => exact tends_reject _ _
  | some g =>
    refine .asking (asks_function g) fun s => .ite' (fun _ => tends_reject _ _) fun _ => ?_
    refine .ite' (fun _ => ?_) fun _ => .bind' (tends_operands? _ _) fun vs _ => ?_
    · exact .asking (asks_functionName g) fun _ => tends_reject _ _
    · cases vs with
      | none => exact .pure' (.inl rfl) fun id ops hops => by simp at hops
      | some vs =>
        refine (tends_emit _ (fun id => .call id s.id vs)
          (.of_discard (fun _ => rfl) fun _ => rfl)).mono (fun _ h => h) fun a id ops' _ ha ops _ => ?_
        exact ⟨ha.1, s.id, vs, List.mem_append_right ops ha.2⟩

theorem tends_stringArg (s : Text.Bytes) :
    Tends watched f (do
      let v ← stringz f s
      pure (if v.valid then some v else none)) (fun _ => True) fun o _ _ => o ≠ none := by
  refine .bind' (tends_stringz s) fun v _ => .pure' trivial fun id ops hv => ?_
  rw [if_pos hv.1.valid]
  nofun

theorem tends_operandArg (x : HostValue) (like : Ty) :
    Tends watched f (operand? f "call_native" x like) (fun _ => True) fun o _ _ => o ≠ none := by
  refine (tends_operand? _ x like).mono (fun _ _ => trivial) fun o _ _ _ ho => ?_
  obtain ⟨v, rfl, -⟩ := ho
  nofun

theorem tends_nativeArg? (x : HostValue) (t : Ty) :
    Tends watched f (nativeArg? f x t) (fun _ => True) fun o _ _ => o ≠ none := by
  unfold nativeArg?
  split
  · exact tends_stringArg _
  · exact tends_operandArg _ _

theorem tends_extraArg? (x : HostValue) :
    Tends watched f (extraArg? f x) (fun _ => True) fun o _ _ => o ≠ none := by
  refine .asking (asks_runtimeOf f) fun rt => ?_
  split
  · exact tends_operandArg _ _
  · exact tends_stringArg _
  · exact tends_operandArg _ _
  · exact tends_operandArg _ _
  · exact tends_operandArg _ _

theorem tends_nativeArgs? (args : List HostValue) (params : List Ty) :
    Tends watched f (nativeArgs? f args params) (fun _ => True) fun vs _ _ =>
      ∃ us, vs = some us ∧ us.length = args.length := by
  induction args generalizing params with
  | nil => exact .pure' trivial fun _ => ⟨[], rfl, rfl⟩
  | cons x rest ih =>
    cases params
    case' nil =>
      refine tends_withAnswer (tends_extraArg? x) (.pure' trivial fun _ => trivial) fun v => ?_
    case' cons t _ =>
      refine tends_withAnswer (tends_nativeArg? x t) (.pure' trivial fun _ => trivial) fun v => ?_
    all_goals
      refine .bind' (ih _) fun vs _ => ?_
      cases vs with
      | none => exact .pure' trivial fun id ops hops => by simp at hops
      | some vs =>
        refine .pure' trivial fun id ops hops _ => ?_
        obtain ⟨us, hus, hlen⟩ := hops
        obtain rfl := Option.some.inj hus
        exact ⟨v :: vs, rfl, congrArg (· + 1) hlen⟩

theorem tends_valueType (v : Val) :
    Tends watched f (valueType f v) (fun _ => True) fun _ _ _ => True := by
  have hinfo : Leaves (Undisturbed f)
      (onFunc f "call_native" fun id => EngineM.valueInfo id v.id) :=
    .bind' (asks_function f).leaves fun s => leaves_onEngine _ _ (EngineM.quiet_valueInfo _ _)
  exact tends_guarded (.trying hinfo fun info => .pure' trivial fun _ => trivial) trivial

theorem tends_callNative (name : String) (args : List HostValue) :
    Tends watched f (callNative f name args) (Val.Of f) fun a id ops =>
      a.Own f ∧ ∃ sig ids, ids.length = args.length ∧ .callNative id name sig ids ∈ ops := by
  refine .asking (asks_runtimeOf f) fun rt => .asking (asks_runtime rt) fun r => ?_
  cases r.natives.find? name with
  | none => exact tends_reject _ _
  | some n =>
    refine .ite' (fun _ => tends_reject _ _) fun _ => ?_
    refine .bind' (tends_nativeArgs? args n.params) fun vs _ => ?_
    cases vs with
    | none => exact .pure' (.inl rfl) fun id ops hops => by simp at hops
    | some vs =>
      have hcall : ∀ sig, Tends watched f
          (emit f "call_native" fun id => EngineM.callNative id name sig (vs.map (·.id))) (Val.Of f)
          fun a id ops' => ∀ ops, (∃ us, some vs = some us ∧ us.length = args.length) →
            a.Own f ∧ ∃ sig ids, ids.length = args.length ∧
              .callNative id name sig ids ∈ ops ++ ops' := by
        intro sig
        have hperform : Performs (fun id => EngineM.callNative id name sig (vs.map (·.id)))
            fun id => .callNative id name sig (vs.map (·.id)) :=
          .of_discard (fun _ => rfl) fun _ => rfl
        refine (tends_emit _ _ hperform).mono (fun _ h => h) fun a id ops' _ ha ops hops => ?_
        obtain ⟨us, hus, hlen⟩ := hops
        obtain rfl := Option.some.inj hus
        exact ⟨ha.1, sig, _, by rw [List.length_map, hlen], List.mem_append_right ops ha.2⟩
      refine .ite' (fun _ => ?_) fun _ => hcall n.sig.id
      refine .bind' (.mapM' _ tends_valueType) fun extra _ => .asking (asks_engine rt) fun e => ?_
      cases e.types.extendSignature? n.sig.id extra with
      | none => exact tends_reject _ _
      | some made =>
        refine .asking (undisturbed_modifyRuntime f rt fun _ => ⟨rfl, rfl, rfl⟩) fun _ => ?_
        refine (hcall made.1).mono (fun _ h => h) fun a id ops₃ _ ha ops₂ _ ops₁ hlen => ?_
        rw [← List.append_assoc]
        exact ha _ hlen

theorem tends_callLibrary (name : String) (args : List HostValue) :
    Tends watched f (callLibrary f name args) (Val.Of f) fun a id ops =>
      a.Own f ∧ ∃ sig ids, .callNative id name sig ids ∈ ops := by
  have hcall : ∀ name args, Tends watched f (callNative f name args) (Val.Of f)
      fun a id ops => a.Own f ∧ ∃ sig ids, .callNative id name sig ids ∈ ops := by
    intro name args
    refine (tends_callNative name args).mono (fun _ h => h) fun a id ops _ ha => ?_
    obtain ⟨hown, sig, ids, -, hop⟩ := ha
    exact ⟨hown, sig, ids, hop⟩
  unfold callLibrary
  split
  · exact hcall _ _
  · refine .bind' tends_null fun v _ => (hcall _ _).mono (fun _ h => h) fun a id ops' _ ha ops _ => ?_
    obtain ⟨hown, sig, ids, hop⟩ := ha
    exact ⟨hown, sig, ids, List.mem_append_right ops hop⟩
  · exact hcall _ _
  · exact hcall _ _

end BuildM

end TypedIR
