import TypedIR.Proofs.NewFunctions
import TypedIR.Proofs.ReachedEngines

/-
  Comparing types ends.

  Two types are compared by walking through the tables of their runtimes side by side,
  and a bound on the steps stands in for the end of the walk. In a workspace whose
  engines are founded it is not needed: each step takes both types to one of their
  parts, so a bound that is large enough for one of them makes no difference
  (`compatibleWithin_congr`). The walk asks for layouts, so the workspace changes under
  it; what it stands on does not (`Workspace.Ponders`).
-/

namespace TypedIR

theorem Ends.run_congr {ε σ α β : Type} {act : ExceptT ε (StateM σ) α} {s : σ}
    {ok : α → σ → Prop} {stop : ε → σ → Prop} {k k' : α → ExceptT ε (StateM σ) β}
    (h : Ends act s ok stop)
    (hk : ∀ a s', ok a s' → ((k a).run s' : Except ε β × σ) = (k' a).run s') :
    ((act >>= k).run s : Except ε β × σ) = (act >>= k').run s := by
  unfold Ends at h
  rw [run_bind, run_bind]
  rcases hr : (act.run s : Except ε α × σ) with ⟨e | a, s'⟩
  · rfl
  · rw [hr] at h
    exact hk a s' h

namespace Workspace

def Walkable (w : Workspace) (n : Nat) (a : Ty) : Prop :=
  0 < n ∧ ∀ rt (r : Runtime), a.owner = some rt → w.runtimes[rt]? = some r →
    r.engine.types.Walkable n a.id

/-- `x` is below `a` in one table: it came before, and a walk into `a` may get to it. -/
def Below (w : Workspace) (x a : Ty) : Prop :=
  ∃ rt t, a.owner = some rt ∧ x.owner = some rt ∧ (w.runtimes[rt]?).map (·.engine.types) = some t ∧
    x.id < a.id ∧ ∃ d, t.find? a.id = some d

variable {w w' : Workspace} {a x : Ty} {n : Nat}

theorem Walkable.below (hn : w.Walkable (n + 1) a) (h : w.Below x a) : w.Walkable n x := by
  obtain ⟨rt, t, ha, hx, ht, hlt, d, hd⟩ := h
  obtain ⟨r, hr, rfl⟩ := Option.map_eq_some_iff.mp ht
  have hid : a.id < n + 1 := (hn.2 rt r ha hr).2 d hd
  have hxn : x.id < n := Nat.lt_of_lt_of_le hlt (Nat.le_of_lt_succ hid)
  have hpos : 0 < n := Nat.lt_of_le_of_lt (Nat.zero_le x.id) hxn
  exact ⟨hpos, fun _ _ _ _ => ⟨hpos, fun _ _ => hxn⟩⟩

theorem Ponders.walkable (h : w.Ponders w') (hw : w.Founded) (hn : w.Walkable n a) :
    w'.Walkable n a := by
  refine ⟨hn.1, fun rt r' ha hr' => ?_⟩
  have hsame := (h hw).2.1 rt
  rw [hr'] at hsame
  obtain ⟨r, hr, htypes⟩ := Option.map_eq_some_iff.mp hsame.symm
  have hwalk := hn.2 rt r ha hr
  rwa [htypes] at hwalk

theorem Ponders.below (h : w.Ponders w') (hw : w.Founded) (hx : w.Below x a) : w'.Below x a := by
  obtain ⟨rt, t, ha, hown, ht, hlt⟩ := hx
  exact ⟨rt, t, ha, hown, ((h hw).2.1 rt).trans ht, hlt⟩

end Workspace

theorem TypeTable.known_of_tyKind? {t : TypeTable} {id : TypeId} {k : TyKind}
    (h : t.tyKind? id = some k) : ∃ d, t.find? id = some d := by
  cases hd : t.find? id with
  | some d => exact ⟨d, rfl⟩
  | none =>
    have hbool : t.isBool id = false := by
      unfold isBool
      cases t.types.size with
      | zero => rfl
      | succ n =>
        unfold boolWithin decoration?
        rw [hd]
    have hkind : t.kindOf (t.underlying id) = .invalid := by
      rw [underlying_of_unknown hd, kindOf, hd]
      rfl
    rw [tyKind?, hbool, hkind] at h
    cases h

theorem TypeTable.Ordered.tyKind?_grow {t t' : TypeTable} (h : t.Ordered) (hg : t.Grows t')
    {id : TypeId} {k : TyKind} (hk : t.tyKind? id = some k) : t'.tyKind? id = some k := by
  obtain ⟨d, hd⟩ := known_of_tyKind? hk
  have hid : id < t.types.size := (find?_lt hd).2
  unfold tyKind? at hk ⊢
  rw [h.isBool_grow hg hid, h.underlying_eq hg hid]
  split
  · next hbool => rwa [if_pos hbool] at hk
  · next hbool =>
    rw [if_neg hbool] at hk
    unfold kindOf at hk ⊢
    cases hbelow : t.find? (t.underlying id) with
    | none =>
      rw [hbelow] at hk
      cases hk
    | some d => rwa [hg.find? hbelow, ← hbelow]

theorem TypeTable.of_wrap? {t : TypeTable} {rt : RuntimeId} {id : TypeId} {x : Ty}
    (h : t.wrap? rt id = some x) :
    x.owner = some rt ∧ x.id = id ∧ t.tyKind? id = some x.kind ∧ id ≠ 0 := by
  obtain ⟨kind, hkind, rfl⟩ := Option.map_eq_some_iff.mp h
  obtain ⟨d, hd⟩ := known_of_tyKind? hkind
  exact ⟨rfl, rfl, hkind, Nat.ne_of_gt (find?_lt hd).1⟩

theorem EngineM.ends_field (id : TypeId) (i : Int) (e : Engine) :
    Ends (EngineM.field id i) e
      (fun f e' => e' = e ∧ f ∈ e.types.fieldsOf (e.types.underlying id)) fun _ e' => e' = e := by
  refine .bind_get ?_
  dsimp only
  cases hf : (if i < 0 then none else (e.types.fieldsOf (e.types.underlying id))[i.toNat]?) with
  | none => exact .throw' rfl
  | some f =>
    refine .pure' ⟨rfl, ?_⟩
    split at hf
    · cases hf
    · exact List.mem_of_getElem? hf

open Workspace

namespace BuildM

variable {w : Workspace} {a : Ty}

theorem ends_engine {α : Type} {rt : RuntimeId} {k : Engine → BuildM α}
    {ok : α → Workspace → Prop} {stop : Stop → Workspace → Prop} (hnone : stop .crashed w)
    (h : ∀ r : Runtime, w.runtimes[rt]? = some r → Ends (k r.engine) w ok stop) :
    Ends (engine rt >>= k) w ok stop := by
  unfold Ends
  rw [run_bind, run_engine]
  cases hr : w.runtimes[rt]? with
  | none => exact hnone
  | some r => exact h r hr

theorem ends_ownerOf {α : Type} {k : RuntimeId → BuildM α} {ok : α → Workspace → Prop}
    {stop : Stop → Workspace → Prop} (hnone : stop .crashed w)
    (h : ∀ rt, a.owner = some rt → Ends (k rt) w ok stop) : Ends (ownerOf a >>= k) w ok stop := by
  unfold ownerOf
  cases hown : a.owner with
  | none => exact .bind_throw hnone
  | some rt => exact h rt hown

/-- Both ways to look a type up find it, or there is none. -/
theorem ends_wraps {rt : RuntimeId} {id : TypeId} {act : BuildM Ty}
    (hact : act = wrapType rt id ∨ act = mustWrap rt id) :
    Ends act w (fun x w' => w' = w ∧ ∃ r : Runtime, w.runtimes[rt]? = some r ∧
      r.engine.types.wrap? rt id = some x) fun _ w' => w' = w ∧ ∀ r : Runtime,
        w.runtimes[rt]? = some r → r.engine.types.wrap? rt id = none := by
  rcases hact with rfl | rfl <;>
    refine ends_table (fun hr => ⟨rfl, fun r h => nomatch hr.symm.trans h⟩) fun r hr => ?_ <;>
    cases hx : r.engine.types.wrap? rt id
  case inl.some x | inr.some x => exact .pure' ⟨rfl, r, hr, hx⟩
  all_goals exact .throw' ⟨rfl, fun r' hr' => Option.mem_unique hr hr' ▸ hx⟩

theorem below_of_wrap? (hw : w.Founded) {rt : RuntimeId} {r : Runtime} {id : TypeId} {x : Ty}
    (ha : a.owner = some rt) (hr : w.runtimes[rt]? = some r)
    (hpart : r.engine.types.PartOf id (r.engine.types.underlying a.id))
    (hx : r.engine.types.wrap? rt id = some x) : w.Below x a := by
  obtain ⟨hown, rfl, -⟩ := TypeTable.of_wrap? hx
  have hord : r.engine.types.Ordered := (hw rt r hr).tables.ordered
  exact ⟨rt, r.engine.types, ha, hown, by rw [hr]; rfl, hord.lt_of_below_tags hpart⟩

theorem below_targetOf? (hw : w.Founded) (a : Ty) :
    Ends (targetOf? a) w (fun x w' => w' = w ∧ ∀ y, x = some y → w.Below y a) fun _ _ => True := by
  refine .ite' (fun _ => .pure' ⟨rfl, nofun⟩) fun _ => ends_ownerOf trivial fun rt hown => ?_
  refine ends_table (fun _ => trivial) fun r hr => .pure' ⟨rfl, fun y hy => ?_⟩
  obtain ⟨id, hid, hwrap⟩ := Option.bind_eq_some_iff.mp hy
  refine below_of_wrap? hw hown hr ?_ hwrap
  unfold TypeTable.pointerTarget? at hid
  split at hid
  · next d hd =>
    split at hid
    · next hk => exact Option.some.inj hid ▸ TypeTable.partOf_elem hd (.inl hk)
    · cases hid
  · cases hid

theorem below_fieldType (hw : w.Founded) (a : Ty) (i : Int) :
    Ends (fieldType a i) w (fun y w' => w.Ponders w' ∧ w'.Below y a) fun _ w' => w.Ponders w' := by
  have hcheck : Leaves Ponders (checkField a "field_type" i) := leaves_checkField a _ i
  refine .bind' ((hcheck.ends w).imp fun _ _ h => h) fun _ w₁ h₁ => ?_
  have hw₁ : w₁.Founded := (h₁ hw).1
  refine ends_ownerOf h₁ fun rt hown => ?_
  cases hr : w₁.runtimes[rt]? with
  | none =>
    exact .stopped ((ends_operation_none _ hr).mono (fun _ _ h => h) fun _ _ h => h ▸ h₁)
  | some r =>
    have hord : r.engine.types.Ordered := (hw₁ rt r hr).tables.ordered
    have hsame : ∀ spans tracing, w₁.Ponders
        (w₁.advance rt r { r.engine with notes := #[] } spans tracing) := fun spans tracing =>
      Follows.advance spans tracing hr (Std.Refl.refl r.engine)
    refine .bind' ((ends_operation _ hr (EngineM.ends_field a.id i r.engine)).imp_stop ?_) ?_
    · rintro _ _ ⟨_, _, spans, tracing, -, rfl, rfl⟩
      exact Trans.trans h₁ (hsame spans tracing)
    · rintro f _ ⟨_, spans, tracing, ⟨rfl, hf⟩, rfl⟩
      have h₂ := hsame spans tracing
      have h₃ : w.Ponders _ := Trans.trans h₁ h₂
      have htable := (h₂ hw₁).2.1 rt
      rw [hr] at htable
      refine (ends_wraps (.inl rfl)).mono ?_ fun _ _ h => h.1 ▸ h₃
      rintro y _ ⟨rfl, r₂, hr₂, hwrap⟩
      rw [hr₂] at htable
      have htypes : r₂.engine.types = r.engine.types := Option.some.inj htable
      refine ⟨h₃, below_of_wrap? (h₃ hw).1 hown hr₂ ?_ hwrap⟩
      rw [htypes]
      exact hord.partOf_field hf

theorem below_signatureOf? (a : Ty) :
    Ends (signatureOf? a) w (fun s w' => w' = w ∧ ∀ x, s = some x → ∃ rt, a.owner = some rt ∧
      ∃ r : Runtime, w.runtimes[rt]? = some r ∧
        ∀ p ∈ x.result :: x.params, r.engine.types.PartOf p (r.engine.types.underlying a.id))
      fun _ w' => w' = w := by
  refine .ite' (fun _ => .pure' ⟨rfl, nofun⟩) fun _ => ends_ownerOf rfl fun rt hown => ?_
  refine ends_engine rfl fun r hr => .pure' ⟨rfl, fun x hx => ⟨rt, hown, r, hr, fun p hp => ?_⟩⟩
  exact TypeTable.partOf_signature hx hp

theorem below_returnOf (hw : w.Founded) (hk : a.kind = .signature) :
    Ends (returnOf a) w (fun x w' => w' = w ∧ w.Below x a) fun _ w' => w' = w := by
  refine .ite' (fun h => absurd hk h) fun _ => ends_ownerOf rfl fun rt hown => ?_
  refine .bind' (below_signatureOf? a) ?_
  rintro s _ ⟨rfl, hs⟩
  refine (ends_wraps (.inr rfl)).mono ?_ fun _ _ h => h.1
  rintro x _ ⟨rfl, r, hr, hx⟩
  refine ⟨rfl, ?_⟩
  cases s with
  | none => exact absurd rfl (TypeTable.of_wrap? hx).2.2.2
  | some s =>
    obtain ⟨rt', hown', r', hr', hparts⟩ := hs s rfl
    obtain rfl := Option.mem_unique hown hown'
    obtain rfl := Option.mem_unique hr hr'
    exact below_of_wrap? hw hown hr (hparts _ List.mem_cons_self) hx

theorem below_paramsOf (hw : w.Founded) (a : Ty) :
    Ends (paramsOf a) w (fun xs w' => w' = w ∧ ∀ x ∈ xs, w.Below x a) fun _ w' => w' = w := by
  refine .bind' (below_signatureOf? a) ?_
  rintro s _ ⟨rfl, hs⟩
  cases s with
  | none => exact .pure' ⟨rfl, List.forall_mem_nil _⟩
  | some s =>
    obtain ⟨rt, hown, r, hr, hparts⟩ := hs s rfl
    refine ends_ownerOf rfl fun rt' hown' => ?_
    obtain rfl := Option.mem_unique hown hown'
    replace hparts : ∀ p ∈ s.params, r.engine.types.PartOf p (r.engine.types.underlying a.id) :=
      fun p hp => hparts p (List.mem_cons_of_mem _ hp)
    show Ends (s.params.mapM (mustWrap rt)) _ _ _
    generalize s.params = params at hparts
    induction params with
    | nil => exact .pure' ⟨rfl, List.forall_mem_nil _⟩
    | cons p rest ih =>
      rw [List.mapM_cons]
      refine .bind' ((ends_wraps (.inr rfl)).imp_stop fun _ _ h => h.1) ?_
      rintro x _ ⟨rfl, r', hr', hx⟩
      obtain rfl := Option.mem_unique hr hr'
      refine .bind' (ih fun q hq => hparts q (List.mem_cons_of_mem p hq)) ?_
      rintro xs _ ⟨rfl, hxs⟩
      have hbelow := below_of_wrap? hw hown hr (hparts p List.mem_cons_self) hx
      exact .pure' ⟨rfl, List.forall_mem_cons.mpr ⟨hbelow, hxs⟩⟩

/-! ## More steps make no difference -/

theorem ends_quiet {α : Type} {act : BuildM α} (h : Leaves Ponders act) (w : Workspace) :
    Ends act w (fun _ w' => w.Ponders w') fun _ w' => w.Ponders w' :=
  (h.ends w).imp fun _ _ h => h

section

variable {rel rel' : Ty → Ty → BuildM Bool} {n m : Nat}

def RunAlike (n m : Nat) (rel rel' : Ty → Ty → BuildM Bool) : Prop :=
  ∀ x y (w : Workspace), w.Founded → w.Walkable n x → w.Walkable m x →
    ((rel x y).run w : Except Stop Bool × Workspace) = (rel' x y).run w

theorem RunAlike.bind (hrel : RunAlike n m rel rel') (hasks : ∀ x y, Leaves Ponders (rel x y))
    {x y : Ty} {w : Workspace} (hw : w.Founded) (hn : w.Walkable n x) (hm : w.Walkable m x)
    {k k' : Bool → BuildM Bool}
    (hk : ∀ yes w', w.Ponders w' →
      ((k yes).run w' : Except Stop Bool × Workspace) = (k' yes).run w') :
    ((rel x y >>= k).run w : Except Stop Bool × Workspace) = (rel' x y >>= k').run w := by
  have hstep : ((rel x y >>= k).run w : Except Stop Bool × Workspace) = (rel x y >>= k').run w :=
    Ends.run_congr (ends_quiet (hasks x y) w) hk
  rw [hstep, run_bind, hrel x y w hw hn hm, ← run_bind]

theorem allPairs_congr (hrel : RunAlike n m rel rel')
    (hasks : ∀ x y, Leaves Ponders (rel x y)) (xs ys : List Ty) (w : Workspace) (hw : w.Founded)
    (hn : ∀ x ∈ xs, w.Walkable n x ∧ w.Walkable m x) :
    ((allPairs rel xs ys).run w : Except Stop Bool × Workspace) = (allPairs rel' xs ys).run w := by
  induction xs generalizing ys w with
  | nil => cases ys <;> rfl
  | cons x xs ih =>
    cases ys with
    | nil => rfl
    | cons y ys =>
      obtain ⟨hx, hrest⟩ := List.forall_mem_cons.mp hn
      rw [allPairs, allPairs]
      refine hrel.bind hasks hw hx.1 hx.2 fun yes w' hw' => ?_
      cases yes with
      | false => simp only [Bool.false_eq_true, if_false]
      | true =>
        rw [if_pos rfl, if_pos rfl]
        exact ih ys w' (hw' hw).1 fun x' hx' =>
          ⟨hw'.walkable hw (hrest x' hx').1, hw'.walkable hw (hrest x' hx').2⟩

theorem fieldsAgree_congr (hrel : RunAlike n m rel rel')
    (hasks : ∀ x y, Leaves Ponders (rel x y)) (a b : Ty) (i k : Nat) (w : Workspace)
    (hw : w.Founded) (hn : w.Walkable (n + 1) a) (hm : w.Walkable (m + 1) a) :
    ((fieldsAgree rel a b i k).run w : Except Stop Bool × Workspace) =
      (fieldsAgree rel' a b i k).run w := by
  induction k generalizing i w with
  | zero => rfl
  | succ k ih =>
    rw [fieldsAgree, fieldsAgree]
    refine Ends.run_congr (ends_attempt (below_fieldType hw a i)) fun fa w₁ h₁ => ?_
    have hfa : w.Ponders w₁ ∧ ∀ x, fa = .ok x → w₁.Below x a := by
      cases fa with
      | error p => exact ⟨h₁, nofun⟩
      | ok x => exact ⟨h₁.1, fun y hy => Except.ok.inj hy ▸ h₁.2⟩
    have hfb : Leaves Ponders (attempt (fieldType b i)) := leaves_attempt (leaves_fieldType b i)
    have hoff : ∀ t : Ty, Leaves Ponders (offsetOrZero t i) := fun t => (asks_offsetOrZero t i).leaves
    refine Ends.run_congr (ends_quiet hfb w₁) fun fb w₂ h₂ => ?_
    refine Ends.run_congr (ends_quiet (hoff a) w₂) fun oa w₃ h₃ => ?_
    refine Ends.run_congr (ends_quiet (hoff b) w₃) fun ob w₄ h₄ => ?_
    have h₁₄ : w₁.Ponders w₄ := Trans.trans h₂ (Trans.trans h₃ h₄)
    have h₀₄ : w.Ponders w₄ := Trans.trans hfa.1 h₁₄
    cases fa with
    | error p => rfl
    | ok x =>
      cases fb with
      | error p => rfl
      | ok y =>
        have hx : w₄.Below x a := h₁₄.below (hfa.1 hw).1 (hfa.2 x rfl)
        have hw₄ := (h₀₄ hw).1
        have hn₄ := h₀₄.walkable hw hn
        have hm₄ := h₀₄.walkable hw hm
        dsimp only
        split
        · rfl
        · refine hrel.bind hasks hw₄ (hn₄.below hx) (hm₄.below hx) fun yes w₅ h₅ => ?_
          cases yes with
          | false => simp only [Bool.false_eq_true, if_false]
          | true =>
            rw [if_pos rfl, if_pos rfl]
            exact ih (i + 1) w₅ (h₅ hw₄).1 (h₅.walkable hw₄ hn₄) (h₅.walkable hw₄ hm₄)

/-- A comparison does not depend on how many steps it is given, nor on what would happen
after them, if they are enough for a walk into the first type. -/
theorem compatibleWithin_congr (last : Ty → Ty → BuildM Bool) {n m : Nat} :
    RunAlike n m (compatibleWithin (fun _ _ => throw .crashed) n) (compatibleWithin last m) := by
  induction n generalizing m with
  | zero => exact fun _ _ _ _ hn _ => absurd hn.1 (Nat.lt_irrefl 0)
  | succ n ih =>
    cases m with
    | zero => exact fun _ _ _ _ _ hm => absurd hm.1 (Nat.lt_irrefl 0)
    | succ m =>
      intro a b w hw hn hm
      have hrel : RunAlike n m (compatibleWithin (fun _ _ => throw .crashed) n)
        (compatibleWithin last m) := ih
      have hasks : ∀ x y, Leaves Ponders (compatibleWithin (fun _ _ => throw .crashed) n x y) :=
        fun x y => (asks_compatibleWithin n x y).leaves
      unfold compatibleWithin
      split
      · rfl
      · split
        · rfl
        · next hkinds _ =>
          cases hk : a.kind with
          | void => rfl
          | bool => rfl
          | invalid => rfl
          | primitive => rfl
          | pointer =>
            refine Ends.run_congr (below_targetOf? hw a) ?_
            rintro ta _ ⟨rfl, hta⟩
            refine Ends.run_congr (ends_quiet (asks_targetOf? b).leaves _) fun tb w₁ h₁ => ?_
            cases ta with
            | none => rfl
            | some ta =>
              cases tb with
              | none => rfl
              | some tb =>
                have hbelow := h₁.below hw (hta ta rfl)
                exact hrel ta tb w₁ (h₁ hw).1 ((h₁.walkable hw hn).below hbelow)
                  ((h₁.walkable hw hm).below hbelow)
          | struct =>
            refine Ends.run_congr (ends_quiet (asks_fieldCount a).leaves w) fun count w₁ h₁ => ?_
            refine Ends.run_congr (ends_quiet (asks_fieldCount b).leaves w₁) fun count' w₂ h => ?_
            have h₂ : w.Ponders w₂ := Trans.trans h₁ h
            split
            · rfl
            · exact fieldsAgree_congr hrel hasks a b 0 count w₂ (h₂ hw).1 (h₂.walkable hw hn)
                (h₂.walkable hw hm)
          | signature =>
            refine Ends.run_congr (ends_quiet (asks_abiOf a).leaves w) fun abi w₁ h₁ => ?_
            refine Ends.run_congr (ends_quiet (asks_abiOf b).leaves w₁) fun abi' w₂ h => ?_
            have h₂ : w.Ponders w₂ := Trans.trans h₁ h
            split
            · rfl
            · refine Ends.run_congr (below_returnOf (h₂ hw).1 hk) ?_
              rintro ra _ ⟨rfl, hra⟩
              refine Ends.run_congr (ends_quiet (asks_returnOf b).leaves _) fun rb w₃ h => ?_
              have h₃ : w.Ponders w₃ := Trans.trans h₂ h
              have hbelow : w₃.Below ra a := h.below (h₂ hw).1 hra
              refine hrel.bind hasks (h₃ hw).1 ((h₃.walkable hw hn).below hbelow)
                ((h₃.walkable hw hm).below hbelow) fun yes w₄ h => ?_
              have h₄ : w.Ponders w₄ := Trans.trans h₃ h
              cases yes with
              | false => rfl
              | true =>
                refine Ends.run_congr (below_paramsOf (h₄ hw).1 a) ?_
                rintro pa _ ⟨rfl, hpa⟩
                refine Ends.run_congr (ends_quiet (asks_paramsOf b).leaves _) fun pb w₅ h => ?_
                have h₅ : w.Ponders w₅ := Trans.trans h₄ h
                refine allPairs_congr hrel hasks pa pb w₅ (h₅ hw).1 fun x hx => ?_
                have hbelow₅ : w₅.Below x a := h.below (h₄ hw).1 (hpa x hx)
                exact ⟨(h₅.walkable hw hn).below hbelow₅, (h₅.walkable hw hm).below hbelow₅⟩

end

/-- The bound that comparisons use is not needed: every bound from the size of the table of
the first type on gives the same, whatever happens at its end. -/
theorem compatibleWithin_eq (hw : w.Founded) {a b : Ty} {n : Nat} (hn : w.Walkable n a)
    (last : Ty → Ty → BuildM Bool)
    (hown : ∀ t ∈ [a, b], ∀ rt, t.owner = some rt → rt < w.runtimes.size) :
    ((compatibleWithin last n a b).run w : Except Stop Bool × Workspace) =
      (compatible a b).run w := by
  have hsize : ∀ t ∈ [a, b], ∃ k, ((tableSize t).run w : Except Stop Nat × Workspace) = (.ok k, w) ∧
      ∀ rt (r : Runtime), t.owner = some rt → w.runtimes[rt]? = some r →
        k = r.engine.types.types.size := by
    intro t ht
    unfold tableSize
    cases hrt : t.owner with
    | none => exact ⟨0, rfl, nofun⟩
    | some rt =>
      obtain ⟨r, hr⟩ : ∃ r, w.runtimes[rt]? = some r :=
        ⟨_, Array.getElem?_eq_getElem (hown t ht rt hrt)⟩
      refine ⟨r.engine.types.types.size, ?_, fun rt' r' hrt' hr' => ?_⟩
      · dsimp only
        rw [run_bind, run_table, hr]
        rfl
      · obtain rfl := Option.some.inj hrt'
        obtain rfl := Option.mem_unique hr hr'
        rfl
  obtain ⟨ka, hka, hsizea⟩ := hsize a (by simp)
  obtain ⟨kb, hkb, -⟩ := hsize b (by simp)
  unfold compatible
  rw [run_bind, hka]
  dsimp only
  rw [run_bind, hkb]
  refine (compatibleWithin_congr last a b w hw ⟨Nat.succ_pos _, fun rt r hrt hr => ?_⟩ hn).symm
  have hord : r.engine.types.Ordered := (hw rt r hr).tables.ordered
  have hka : ka = r.engine.types.types.size := hsizea rt r hrt hr
  have hle : r.engine.types.types.size ≤ ka + kb + 1 := by omega
  exact hord.walkable_size hle a.id

end BuildM

/-! ## What holds of every engine that clients can have -/

/-- The types of an engine are well-founded, and every walk into them ends of itself. -/
structure Engine.WalksEnd (e : Engine) : Prop where
  /-- Every type comes after the types it mentions. -/
  older : ∀ id d, e.types.find? id = some d → ∀ p ∈ e.types.parts d, p < id
  /-- Below the tags of a type there is no tag, and no further step would change that. -/
  untagged : ∀ id, e.types.kindOf (e.types.underlying id) ≠ .tagged ∧
    ∀ n, e.types.size ≤ n → e.types.stripTags n id = e.types.underlying id
  /-- A type is a truth value if a tag on the way to what is below the tags is the bool
  tag. -/
  truth : ∀ id, e.types.isBool id = true ↔ ∃ k deco,
    Relation.ReflTransGen e.types.Tags id k ∧
    Relation.ReflTransGen e.types.Tags k (e.types.underlying id) ∧
    e.types.decoration? k = some deco ∧ deco.tag = .bool
  /-- A walk for a layout comes to its end before the steps do: what would happen after
  them makes no difference. -/
  layouts : ∀ last id n, e.types.size ≤ n →
    Layout.layoutElse last e.target e.types n id = Layout.layoutOf e.target e.types id
  /-- The number that a type has in an image does not either, and every type has one. -/
  images : ∀ id n, e.types.size ≤ n →
    Image.gather e.types n id = Image.gather e.types (e.types.size + 1) id ∧
    (id < e.types.size → ∀ g, ∃ k g',
      ((Image.gather e.types n id).run g : Except Failure Int × Image.Gathered) = (.ok k, g'))

theorem Engine.Founded.walksEnd {e : Engine} (h : e.Founded) : e.WalksEnd := by
  have hord : e.types.Ordered := h.tables.ordered
  refine ⟨fun _ _ hd => hord.older hd, hord.kindOf_underlying, hord.isBool_iff,
    fun last id n hn => Layout.layoutElse_eq hord last hn id, fun id n hn => ⟨Image.gather_eq hord hn id, ?_⟩⟩
  intro hid g
  have hanswers := Image.answers_gather hord (hord.walkable_size hn id) hid g
  unfold Ends at hanswers
  rcases hrun : ((Image.gather e.types n id).run g : Except Failure Int × Image.Gathered) with
    ⟨err | k, g'⟩
  · rw [hrun] at hanswers
    exact hanswers.elim
  · exact ⟨k, g', rfl⟩

namespace Workspace

/-- In the engines that clients can have, whatever was made, emitted, extended or loaded
and whatever failed, every type comes after the types it mentions. So walks below tags,
for layouts and for images end, and so does comparing two types: with as many steps as the
table has types the walk comes to its end, for nothing depends on `last`, what would happen
after them. -/
theorem Reached.walks_end {w : Workspace} (h : w.Reached) :
    (∀ (rt : RuntimeId) r, w.runtimes[rt]? = some r → r.engine.WalksEnd) ∧
    ∀ (last : Ty → Ty → BuildM Bool) (a b : Ty) (n : Nat), (∀ t ∈ [a, b], ∀ rt, t.owner = some rt → rt < w.runtimes.size) →
      0 < n → (∀ rt (r : Runtime), a.owner = some rt → w.runtimes[rt]? = some r →
        r.engine.types.size ≤ n) →
      ((BuildM.compatibleWithin last n a b).run w : Except Stop Bool × Workspace) =
        (BuildM.compatible a b).run w := by
  have hw : w.Founded := h.founded
  refine ⟨fun rt r hr => (hw rt r hr).walksEnd, fun last a b n hown hpos hn => ?_⟩
  refine BuildM.compatibleWithin_eq hw ⟨hpos, fun rt r hrt hr => ?_⟩ last hown
  have hord : r.engine.types.Ordered := (hw rt r hr).tables.ordered
  exact hord.walkable_size (hn rt r hrt hr) a.id

def flagEngine : Engine :=
  let created : Engine := .create .amd64 0 0 default 0
  let named := ((EngineM.taggedType Builtin.bool.id .name "flag").run created :
    Except Failure TypeId × Engine).2
  ((EngineM.pointerType 18).run named : Except Failure TypeId × Engine).2

theorem reached_flagEngine : flagEngine.Reached :=
  .moved (.moved (.created .amd64 0 0 default 0) (.called (.taggedType _ _ _) _))
    (.called (.pointerType _) _)

def flags : Workspace := { runtimes := #[{ engine := flagEngine }] }

theorem flags_walks_end : flags.Reached ∧ flagEngine.types.size = 20 ∧ flagEngine.WalksEnd ∧
    ∀ last, ((BuildM.compatibleWithin last 20 ⟨some 0, 19, .pointer⟩ ⟨some 0, 14, .pointer⟩).run
      flags : Except Stop Bool × Workspace) =
        (BuildM.compatible ⟨some 0, 19, .pointer⟩ ⟨some 0, 14, .pointer⟩).run flags := by
  have hone : ∀ (rt : RuntimeId) r, flags.runtimes[rt]? = some r → r.engine = flagEngine := by
    intro rt r hr
    have hmem : r ∈ flags.runtimes := Array.mem_of_getElem? hr
    rw [show flags.runtimes = #[{ engine := flagEngine }] from rfl, Array.mem_singleton] at hmem
    rw [hmem]
  have hreached : flags.Reached := fun rt r hr => hone rt r hr ▸ reached_flagEngine
  have hsize : flagEngine.types.size = 20 := by decide +kernel
  obtain ⟨hwalks, hcompared⟩ := Reached.walks_end hreached
  refine ⟨hreached, hsize, hwalks 0 _ rfl, fun last => hcompared last _ _ 20 ?_ (by decide) ?_⟩
  · intro t ht rt hrt
    have hzero : rt = 0 := by
      rcases List.mem_pair.mp ht with rfl | rfl <;> exact (Option.some.inj hrt).symm
    rw [hzero]
    exact Nat.zero_lt_one
  · intro rt r _ hr
    rw [hone rt r hr, hsize]

end Workspace

end TypedIR
