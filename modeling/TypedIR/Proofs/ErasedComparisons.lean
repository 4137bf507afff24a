import TypedIR.Proofs.Erasures
import TypedIR.Proofs.TypeComparisons

/-
  What comparing two types answers.

  Each question that a comparison asks about a type is answered by its erasure: the
  target of a pointer, the number, types and offsets of fields, the parts of a
  signature. So two types that have erasures are found to be compatible exactly when
  the erasures are equal (`ends_compatible`), in whichever runtimes they are.
-/

namespace TypedIR

theorem Ends.answers_and {ε σ α : Type} {act : ExceptT ε (StateM σ) α} {s : σ}
    {ok ok' : α → σ → Prop} {stop : ε → σ → Prop} (h : Ends act s ok fun _ _ => False)
    (h' : Ends act s ok' stop) : Ends act s (fun a t => ok a t ∧ ok' a t) fun _ _ => False :=
  (h.and' h').imp_stop fun _ _ h => h.1

namespace Layout

theorem length_placeAll {p : Partial} {fields : List (Option Layout)} {l : Layout}
    (h : placeAll p fields = some l) : l.offsets.length = p.offsets.length + fields.length := by
  induction fields generalizing p with
  | nil =>
    obtain rfl := Option.some.inj h
    exact List.length_reverse
  | cons f rest ih =>
    cases f with
    | none => cases h
    | some f =>
      rw [placeAll] at h
      split at h
      · cases h
      · rw [ih h]
        simp only [Partial.place, List.length_cons]
        omega

end Layout

theorem Tables.Erased.length_offsets {s : Tables} {id : TypeId} {offsets : List Int}
    {fields : List Erasure} (hs : s.Founded) (hE : s.Erased (.struct offsets fields) id) :
    offsets.length = fields.length := by
  have hlayout := hE.layout hs
  rw [← Layout.plainPart_underlying hs.ordered] at hlayout
  obtain ⟨d, hd, hall, l, hl, rfl⟩ := hE
  have hright : Layout.plainPart s.target s.types (s.types.underlying id) = some l :=
    (hs.honest _ _ hl).agrees
  have hplaced : Layout.placeAll {} (Erasure.layouts? s.target fields) = some l :=
    hlayout.symm.trans hright
  rw [Layout.length_placeAll hplaced, Erasure.layouts?_eq, List.length_map]
  exact Nat.zero_add _

namespace Workspace

/-- The type is one of a runtime of the workspace, and is `E` when tags and names are left out. -/
def Erased (w : Workspace) (E : Erasure) (a : Ty) : Prop :=
  ∃ rt r, a.owner = some rt ∧ w.runtimes[rt]? = some r ∧ r.engine.tables.Erased E a.id ∧
    a.kind = E.kind

variable {w w' : Workspace} {E F : Erasure} {a b : Ty}

theorem Ponders.erased (h : w.Ponders w') (hw : w.Founded) (hE : w.Erased E a) : w'.Erased E a := by
  obtain ⟨rt, r, hown, hr, hE, hk⟩ := hE
  obtain ⟨r', hr', honward⟩ := (h hw).2.2 rt r hr
  exact ⟨rt, r', hown, hr', hE.onward (hw rt r hr).tables honward, hk⟩

theorem Erased.valid (h : w.Erased E a) : a.valid = true := by
  obtain ⟨rt, r, hown, -, -, hk⟩ := h
  unfold Ty.valid
  rw [hown, hk]
  cases E <;> rfl

end Workspace

open Workspace

namespace BuildM

variable {w : Workspace} {E F : Erasure} {a b : Ty}

theorem ends_owned {α : Type} {k : RuntimeId → BuildM α} {ok : α → Workspace → Prop}
    {stop : Stop → Workspace → Prop} {rt : RuntimeId} (hown : a.owner = some rt)
    (h : Ends (k rt) w ok stop) : Ends (ownerOf a >>= k) w ok stop := by
  have howner : (ownerOf a : BuildM RuntimeId) = pure rt := by rw [ownerOf, hown]
  rwa [howner, pure_bind]

theorem ends_engineOf {α : Type} {rt : RuntimeId} {r : Runtime} {k : Engine → BuildM α}
    {ok : α → Workspace → Prop} {stop : Stop → Workspace → Prop}
    (hr : w.runtimes[rt]? = some r) (h : Ends (k r.engine) w ok stop) :
    Ends (engine rt >>= k) w ok stop :=
  Ends.bind_ok (by rw [run_engine, hr]; rfl) h

theorem ends_tableOf {α : Type} {rt : RuntimeId} {r : Runtime} {k : TypeTable → BuildM α}
    {ok : α → Workspace → Prop} {stop : Stop → Workspace → Prop}
    (hr : w.runtimes[rt]? = some r) (h : Ends (k r.engine.tables.types) w ok stop) :
    Ends (table rt >>= k) w ok stop :=
  Ends.bind_ok (by rw [run_table, hr]; rfl) h

theorem ends_wrapErased {rt : RuntimeId} {r : Runtime} {id : TypeId}
    (hr : w.runtimes[rt]? = some r) (hE : r.engine.tables.Erased E id) :
    Ends (wrapType rt id) w (fun x w' => w' = w ∧ w.Erased E x) fun _ _ => False := by
  refine ends_tableOf hr ?_
  rw [hE.wrap rt]
  exact .pure' ⟨rfl, rt, r, rfl, hr, hE, rfl⟩

theorem ends_mustWrapErased {rt : RuntimeId} {r : Runtime} {id : TypeId}
    (hr : w.runtimes[rt]? = some r) (hE : r.engine.tables.Erased E id) :
    Ends (mustWrap rt id) w (fun x w' => w' = w ∧ w.Erased E x) fun _ _ => False := by
  refine ends_tableOf hr ?_
  rw [hE.wrap rt]
  exact .pure' ⟨rfl, rt, r, rfl, hr, hE, rfl⟩

/-! ## Questions -/

theorem ends_baseOf (hE : w.Erased E a) :
    Ends (baseOf a) w (fun d w' => w' = w ∧ d.kind = E.baseKind ∧
      (E = .int d.width ∨ E = .uint d.width ∨ E = .float d.width ∨ E.kind ≠ .primitive))
      fun _ _ => False := by
  have hvalid := hE.valid
  obtain ⟨rt, r, hown, hr, hE, -⟩ := hE
  unfold baseOf
  rw [hown]
  refine ends_tableOf hr ?_
  rw [if_pos hvalid]
  obtain ⟨d, hd, hk, -⟩ := hE.base
  rw [hd]
  refine .pure' ⟨rfl, hk, ?_⟩
  have hwidth : ∀ {k : Kind} {d' : Descriptor}, r.engine.tables.Base k a.id d' → d' = d :=
    fun h => Option.mem_unique h.found hd
  cases E with
  | int w =>
    obtain ⟨d', hd', rfl⟩ := hE
    exact .inl (hwidth hd' ▸ rfl)
  | uint w =>
    obtain ⟨d', hd', rfl⟩ := hE
    exact .inr (.inl (hwidth hd' ▸ rfl))
  | float w =>
    obtain ⟨d', hd', rfl⟩ := hE
    exact .inr (.inr (.inl (hwidth hd' ▸ rfl)))
  | void | bool | pointer | struct | signature => exact .inr (.inr (.inr nofun))

theorem ends_targetOf (hE : w.Erased (.pointer E) a) :
    Ends (targetOf? a) w (fun x w' => w' = w ∧ ∃ y, x = some y ∧ w.Erased E y)
      fun _ _ => False := by
  obtain ⟨rt, r, hown, hr, ⟨d, hd, hE⟩, hk⟩ := hE
  refine .ite' (fun h => absurd hk h) fun _ => ends_owned hown (ends_tableOf hr (.pure' ⟨rfl, ?_⟩))
  have htarget : r.engine.tables.types.pointerTarget? a.id = some d.elem := by
    unfold TypeTable.pointerTarget?
    rw [hd.found]
    exact if_pos hd.kind
  rw [htarget, Option.bind_some, hE.wrap rt]
  exact ⟨_, rfl, rt, r, rfl, hr, hE, rfl⟩

theorem rel_of_getElem? {α β : Type} {R : α → β → Prop} {xs : List α} {ys : List β} {i : Nat}
    {x : α} (h : List.Forall₂ R xs ys) (hx : xs[i]? = some x) : ∃ y, ys[i]? = some y ∧ R x y := by
  induction h generalizing i with
  | nil => cases hx
  | cons hxy _ ih =>
    cases i with
    | zero => exact ⟨_, rfl, Option.some.inj hx ▸ hxy⟩
    | succ i => exact ih hx

theorem fieldTypes_of_erased {s : Tables} (hs : s.Founded) {id : TypeId} {offsets : List Int}
    {fields : List Erasure} (hE : s.Erased (.struct offsets fields) id) :
    List.Forall₂ (fun E f => s.Erased E f.type) fields
      (s.types.fieldsOf (s.types.underlying id)) := by
  obtain ⟨d, hd, hall, -⟩ := hE
  rw [← List.forall₂_map_right_iff, Layout.fieldTypes_eq_parts hs.ordered hd.found hd.kind]
  exact (s.allErased_iff _ _).mp hall

theorem ends_fieldCount (hw : w.Founded) {offsets : List Int} {fields : List Erasure}
    (hE : w.Erased (.struct offsets fields) a) :
    Ends (fieldCount a) w (fun n w' => w' = w ∧ n = fields.length) fun _ _ => False := by
  obtain ⟨rt, r, hown, hr, hE, hk⟩ := hE
  refine .ite' (fun h => absurd hk h) fun _ => ends_owned hown (ends_engineOf hr (.pure' ⟨rfl, ?_⟩))
  have hall := fieldTypes_of_erased (hw rt r hr).tables hE
  exact hall.length_eq.symm

theorem ends_checkField (hw : w.Founded) {offsets : List Int} {fields : List Erasure}
    (hE : w.Erased (.struct offsets fields) a) (op : String) {i : Nat} (hi : i < fields.length) :
    Ends (checkField a op i) w (fun _ w' => w' = w) fun _ _ => False := by
  obtain ⟨_, _, _, _, _, hk⟩ := id hE
  refine .ite' (fun h => absurd hk h) fun _ => .bind' (ends_fieldCount hw hE) ?_
  rintro n _ ⟨rfl, rfl⟩
  refine .ite' (fun h => ?_) fun _ => .pure' rfl
  omega

theorem ends_question {α : Type} {rt : RuntimeId} {r : Runtime} (op : String) {act : EngineM α}
    {p : α → Prop} (hr : w.runtimes[rt]? = some r)
    (h : Ends act r.engine (fun x e => r.engine.Ponders e ∧ p x) fun _ _ => False) :
    Ends (onEngine rt op act) w (fun x w' => w.Ponders w' ∧ p x) fun _ _ => False := by
  refine (ends_operation op hr h).mono ?_ ?_
  · rintro x _ ⟨e, spans, tracing, ⟨he, hx⟩, rfl⟩
    exact ⟨Follows.advance spans tracing hr he, hx⟩
  · rintro _ _ ⟨_, _, _, _, -, hstop, -⟩
    exact hstop

theorem ends_fieldTypeErased (hw : w.Founded) {offsets : List Int} {fields : List Erasure}
    (hE : w.Erased (.struct offsets fields) a) {i : Nat} (hi : fields[i]? = some F) :
    Ends (fieldType a i) w (fun x w' => w.Ponders w' ∧ w'.Erased F x) fun _ _ => False := by
  obtain ⟨hlt, -⟩ := List.getElem?_eq_some_iff.mp hi
  refine .bind' (ends_checkField hw hE _ hlt) ?_
  rintro _ _ rfl
  obtain ⟨rt, r, hown, hr, hE, hk⟩ := hE
  refine ends_owned hown ?_
  have hfield : Ends (EngineM.field a.id i) r.engine
      (fun f e => r.engine.Ponders e ∧ r.engine.tables.Erased F f.type) fun _ _ => False := by
    have hall := fieldTypes_of_erased (hw rt r hr).tables hE
    obtain ⟨f, hf, hF⟩ := rel_of_getElem? hall hi
    have hget : (r.engine.types.fieldsOf (r.engine.types.underlying a.id))[i]? = some f := hf
    refine .bind_get ?_
    dsimp only
    rw [if_neg (by omega), Int.toNat_natCast, hget]
    exact .pure' ⟨Std.Refl.refl _, hF⟩
  refine .bind' (ends_question "field_type" hr hfield) ?_
  rintro f w₁ ⟨h₁, hF⟩
  obtain ⟨r₁, hr₁, honward⟩ := (h₁ hw).2.2 rt r hr
  refine (ends_wrapErased hr₁ (hF.onward (hw rt r hr).tables honward)).imp ?_
  rintro x _ ⟨rfl, hx⟩
  exact ⟨h₁, hx⟩

theorem ends_layoutKnown {e : Engine} {id : TypeId} {answer : Layout.Answer}
    (h : e.layouts.lookup id = some answer) {stop : Failure → Engine → Prop} :
    Ends (EngineM.layoutOf id) e (fun x e' => x = answer ∧ e' = e) stop := by
  have hrun : (Layout.layoutOf e.target e.types id).run e.layouts = (answer, e.layouts) := by
    unfold Layout.layoutOf
    rw [Layout.run_layoutWithin_succ, h]
  refine .bind_get ?_
  rw [hrun]
  exact .bind_set (.pure' ⟨rfl, rfl⟩)

theorem ends_offsetErased (hw : w.Founded) {offsets : List Int} {fields : List Erasure}
    (hE : w.Erased (.struct offsets fields) a) {i : Nat} (hi : i < fields.length) :
    Ends (offsetOrZero a i) w (fun off w' => w.Ponders w' ∧ offsets[i]? = some off)
      fun _ _ => False := by
  have hoffset : Ends (fieldOffset a i) w
      (fun off w' => w.Ponders w' ∧ offsets[i]? = some off) fun _ _ => False := by
    refine .bind' (ends_checkField hw hE _ hi) ?_
    rintro _ _ rfl
    obtain ⟨rt, r, hown, hr, hE, hk⟩ := hE
    refine ends_owned hown (ends_question "offset" hr ?_)
    have hs := (hw rt r hr).tables
    have hlen := hE.length_offsets hs
    have hall := fieldTypes_of_erased hs hE
    obtain ⟨d, hd, -, l, hl, rfl⟩ := hE
    have hlt : i < l.offsets.length := hlen ▸ hi
    have hget : l.offsets[i]? = some l.offsets[i] := List.getElem?_eq_getElem hlt
    obtain ⟨f, hf, -⟩ := rel_of_getElem? hall (List.getElem?_eq_getElem hi)
    have hfield : Ends (EngineM.field a.id i) r.engine (fun _ e => e = r.engine)
        fun _ _ => False := by
      have hf' : (r.engine.types.fieldsOf (r.engine.types.underlying a.id))[i]? = some f := hf
      refine .bind_get ?_
      dsimp only
      rw [if_neg (by omega), Int.toNat_natCast, hf']
      exact .pure' rfl
    refine .bind' hfield ?_
    rintro _ _ rfl
    refine .bind_get (.bind' (ends_layoutKnown hl) ?_)
    rintro _ _ ⟨rfl, rfl⟩
    have hanswer : Layout.Answer.fieldOffset? (.ok l) (i : Int) = some l.offsets[i] := by
      dsimp only [Layout.Answer.fieldOffset?]
      rw [if_neg (by omega), Int.toNat_natCast, hget]
    rw [hanswer]
    exact .pure' ⟨Std.Refl.refl _, hget⟩
  refine .bind' ((ends_attempt hoffset).imp_stop fun _ _ h => h.2) ?_
  intro off w' h
  cases off with
  | ok off => exact .pure' h
  | error p => exact h.elim

/-! ## Signatures -/

theorem ends_signatureErased {abi : Abi} {params : List Erasure}
    (hE : w.Erased (.signature abi params E) a) :
    Ends (signatureOf? a) w (fun g w' => w' = w ∧ ∃ rt r x, a.owner = some rt ∧
      w.runtimes[rt]? = some r ∧ g = some x ∧ x.abi = abi ∧
      List.Forall₂ r.engine.tables.Erased params x.params ∧ r.engine.tables.Erased E x.result)
      fun _ _ => False := by
  obtain ⟨rt, r, hown, hr, ⟨d, hd, g, hg, habi, hall, hresult⟩, hk⟩ := hE
  refine .ite' (fun h => absurd hk h) fun _ => ends_owned hown (ends_engineOf hr (.pure' ?_))
  exact ⟨rfl, rt, r, g, hown, hr, hg, habi, (Tables.allErased_iff _ _ _).mp hall, hresult⟩

theorem ends_abiOf {abi : Abi} {params : List Erasure}
    (hE : w.Erased (.signature abi params E) a) :
    Ends (abiOf a) w (fun x w' => w' = w ∧ x = abi) fun _ _ => False := by
  refine .bind' (ends_signatureErased hE) ?_
  rintro _ _ ⟨rfl, rt, r, g, -, -, rfl, habi, -⟩
  exact .pure' ⟨rfl, habi⟩

theorem ends_returnErased {abi : Abi} {params : List Erasure}
    (hE : w.Erased (.signature abi params E) a) :
    Ends (returnOf a) w (fun x w' => w' = w ∧ w.Erased E x) fun _ _ => False := by
  obtain ⟨rt, r, hown, hr, -, hk⟩ := id hE
  refine .ite' (fun h => absurd hk h) fun _ => ends_owned hown ?_
  refine .bind' (ends_signatureErased hE) ?_
  rintro _ _ ⟨rfl, rt', r', g, hown', hr', rfl, -, -, hresult⟩
  obtain rfl := Option.mem_unique hown hown'
  exact ends_mustWrapErased hr' hresult

theorem ends_paramsErased {abi : Abi} {params : List Erasure}
    (hE : w.Erased (.signature abi params E) a) :
    Ends (paramsOf a) w (fun xs w' => w' = w ∧ List.Forall₂ w.Erased params xs)
      fun _ _ => False := by
  refine .bind' (ends_signatureErased hE) ?_
  rintro _ _ ⟨rfl, rt, r, g, hown, hr, rfl, -, hall, -⟩
  refine ends_owned hown ?_
  show Ends (g.params.mapM (mustWrap rt)) _ _ _
  clear hE
  generalize g.params = ids at hall
  induction hall with
  | nil => exact .pure' ⟨rfl, .nil⟩
  | cons hp _ ih =>
    rw [List.mapM_cons]
    refine .bind' (ends_mustWrapErased hr hp) ?_
    rintro x _ ⟨rfl, hx⟩
    refine .bind' ih ?_
    rintro xs _ ⟨rfl, hxs⟩
    exact .pure' ⟨rfl, .cons hx hxs⟩

/-! ## Comparisons -/

section

variable {rel : Ty → Ty → BuildM Bool} {n : Nat}

/-- A relation of types decides whether erasures are equal, for types that `n` steps are
enough for. -/
def Decides (n : Nat) (rel : Ty → Ty → BuildM Bool) : Prop :=
  ∀ (E F : Erasure) (a b : Ty) (w : Workspace), w.Founded → w.Erased E a → w.Erased F b →
    w.Walkable n a →
    Ends (rel a b) w (fun yes w' => w.Ponders w' ∧ (yes = true ↔ E = F)) fun _ _ => False

theorem Decides.bind (hrel : Decides n rel) (hw : w.Founded) (hE : w.Erased E a)
    (hF : w.Erased F b) (hn : w.Walkable n a) {k : Bool → BuildM Bool} {p : Prop}
    (hyes : E = F → ∀ w', w.Ponders w' →
      Ends (k true) w' (fun yes w'' => w'.Ponders w'' ∧ (yes = true ↔ p)) fun _ _ => False)
    (hno : E ≠ F → ¬p ∧ k false = pure false) :
    Ends (rel a b >>= k) w (fun yes w' => w.Ponders w' ∧ (yes = true ↔ p)) fun _ _ => False := by
  refine .bind' (hrel E F a b w hw hE hF hn) ?_
  rintro yes w₁ ⟨h₁, hsame⟩
  cases yes with
  | true =>
    refine (hyes (hsame.mp rfl) w₁ h₁).imp ?_
    exact fun _ _ h => ⟨Trans.trans h₁ h.1, h.2⟩
  | false =>
    have hne : E ≠ F := fun h => Bool.false_ne_true (hsame.mpr h)
    obtain ⟨hp, hk⟩ := hno hne
    rw [hk]
    exact .pure' ⟨h₁, by simp [hp]⟩

theorem ends_allPairs (hrel : Decides n rel) {Es Fs : List Erasure} {as bs : List Ty}
    (hw : w.Founded) (hE : List.Forall₂ w.Erased Es as) (hF : List.Forall₂ w.Erased Fs bs)
    (hn : ∀ x ∈ as, w.Walkable n x) :
    Ends (allPairs rel as bs) w (fun yes w' => w.Ponders w' ∧ (yes = true ↔ Es = Fs))
      fun _ _ => False := by
  induction as generalizing w Es Fs bs with
  | nil =>
    cases hE
    cases hF with
    | nil => exact .pure' ⟨Std.Refl.refl w, by simp⟩
    | cons _ _ => exact .pure' ⟨Std.Refl.refl w, by simp⟩
  | cons a as ih =>
    cases hE with
    | cons hE hEs =>
      cases hF with
      | nil => exact .pure' ⟨Std.Refl.refl w, by simp⟩
      | cons hF hFs =>
        obtain ⟨hfirst, hrest⟩ := List.forall_mem_cons.mp hn
        rw [allPairs]
        refine hrel.bind hw hE hF hfirst (fun heq w₁ h₁ => ?_) fun hne => ⟨by simp [hne], rfl⟩
        have hEs₁ := hEs.imp fun _ _ h => h₁.erased hw h
        have hFs₁ := hFs.imp fun _ _ h => h₁.erased hw h
        have hrest₁ : ∀ x ∈ as, w₁.Walkable n x := fun x hx => h₁.walkable hw (hrest x hx)
        rw [if_pos rfl]
        refine (ih (h₁ hw).1 hEs₁ hFs₁ hrest₁).imp fun yes _ h => ⟨h.1, ?_⟩
        rw [h.2, List.cons.injEq, and_iff_right heq]

theorem ends_fieldFound (hw : w.Founded) {offsets : List Int} {fields : List Erasure}
    (hE : w.Erased (.struct offsets fields) a) {i : Nat} (hi : fields[i]? = some F) :
    Ends (attempt (fieldType a i)) w (fun found w' => w.Ponders w' ∧ ∃ x, found = .ok x ∧
      w'.Erased F x ∧ w'.Below x a) fun _ _ => False := by
  have hfound := (ends_fieldTypeErased hw hE hi).answers_and (below_fieldType hw a i)
  refine (ends_attempt hfound).mono (fun found w' h => ?_) fun _ _ h => h.2
  cases found with
  | ok x => exact ⟨h.1.1, x, rfl, h.1.2, h.2.2⟩
  | error p => exact h.elim

theorem drop_eq_drop_iff {α : Type} {xs ys : List α} {i : Nat} {x y : α} (hx : xs[i]? = some x)
    (hy : ys[i]? = some y) :
    xs.drop i = ys.drop i ↔ x = y ∧ xs.drop (i + 1) = ys.drop (i + 1) := by
  obtain ⟨hlt, rfl⟩ := List.getElem?_eq_some_iff.mp hx
  obtain ⟨hlt', rfl⟩ := List.getElem?_eq_some_iff.mp hy
  rw [List.drop_eq_getElem_cons hlt, List.drop_eq_getElem_cons hlt', List.cons.injEq]

theorem ends_fieldsAgree (hrel : Decides n rel) {offsets offsets' : List Int}
    {Es Fs : List Erasure} (hw : w.Founded) (hE : w.Erased (.struct offsets Es) a)
    (hF : w.Erased (.struct offsets' Fs) b) (hlen : Es.length = Fs.length)
    (hn : w.Walkable (n + 1) a) {i k : Nat} (hk : i + k = Es.length) :
    Ends (fieldsAgree rel a b i k) w (fun yes w' => w.Ponders w' ∧
      (yes = true ↔ offsets.drop i = offsets'.drop i ∧ Es.drop i = Fs.drop i))
      fun _ _ => False := by
  have hlens : offsets.length = Es.length ∧ offsets'.length = Fs.length := by
    obtain ⟨rt, r, -, hr, hE, -⟩ := hE
    obtain ⟨rt', r', -, hr', hF, -⟩ := hF
    exact ⟨hE.length_offsets (hw rt r hr).tables, hF.length_offsets (hw rt' r' hr').tables⟩
  induction k generalizing i w with
  | zero =>
    have hdrop : ∀ {α : Type} (xs : List α), xs.length = Es.length → xs.drop i = [] :=
      fun xs hxs => List.drop_eq_nil_of_le (by omega)
    rw [hdrop offsets hlens.1, hdrop offsets' (by omega), hdrop Es rfl, hdrop Fs hlen.symm]
    exact .pure' ⟨Std.Refl.refl w, by simp⟩
  | succ k ih =>
    have hi : i < Es.length := by omega
    have hi' : i < Fs.length := by omega
    obtain ⟨E, hEi⟩ : ∃ E, Es[i]? = some E := ⟨_, List.getElem?_eq_getElem hi⟩
    obtain ⟨F, hFi⟩ : ∃ F, Fs[i]? = some F := ⟨_, List.getElem?_eq_getElem hi'⟩
    rw [fieldsAgree]
    refine .bind' (ends_fieldFound hw hE hEi) ?_
    rintro _ w₁ ⟨h₁, x, rfl, hx, hbelow⟩
    have hw₁ := (h₁ hw).1
    refine .bind' (ends_fieldFound hw₁ (h₁.erased hw hF) hFi) ?_
    rintro _ w₂ ⟨h₂, y, rfl, hy, -⟩
    have h₀₂ : w.Ponders w₂ := Trans.trans h₁ h₂
    have hw₂ := (h₂ hw₁).1
    refine .bind' (ends_offsetErased hw₂ (h₀₂.erased hw hE) hi) ?_
    rintro oa w₃ ⟨h₃, hoa⟩
    have h₀₃ : w.Ponders w₃ := Trans.trans h₀₂ h₃
    have hw₃ := (h₃ hw₂).1
    refine .bind' (ends_offsetErased hw₃ (h₀₃.erased hw hF) hi') ?_
    rintro ob w₄ ⟨h₄, hob⟩
    have h₀₄ : w.Ponders w₄ := Trans.trans h₀₃ h₄
    have hw₄ := (h₄ hw₃).1
    have hx₄ : w₄.Erased E x := (Trans.trans h₂ (Trans.trans h₃ h₄) : w₁.Ponders w₄).erased hw₁ hx
    have hy₄ : w₄.Erased F y := (Trans.trans h₃ h₄ : w₂.Ponders w₄).erased hw₂ hy
    have hwalk : w₄.Walkable n x := (h₀₄.walkable hw hn).below
      ((Trans.trans h₂ (Trans.trans h₃ h₄) : w₁.Ponders w₄).below hw₁ hbelow)
    -- what is compared from here on is the first of each list, and then the rest
    rw [drop_eq_drop_iff hoa hob, drop_eq_drop_iff hEi hFi]
    dsimp only
    refine .ite' (fun hne => .pure' ⟨h₀₄, by simp [hne]⟩) fun heq => ?_
    have heq : oa = ob := by simpa using heq
    have hrest : E = F → ∀ w₅, w₄.Ponders w₅ →
        Ends (if true = true then fieldsAgree rel a b (i + 1) k else pure false) w₅
          (fun yes w' => w₅.Ponders w' ∧ (yes = true ↔
            (oa = ob ∧ offsets.drop (i + 1) = offsets'.drop (i + 1)) ∧
              E = F ∧ Es.drop (i + 1) = Fs.drop (i + 1))) fun _ _ => False := by
      intro hsame w₅ h₅
      have h₀₅ : w.Ponders w₅ := Trans.trans h₀₄ h₅
      rw [if_pos rfl]
      refine (ih (h₀₅ hw).1 (h₀₅.erased hw hE) (h₀₅.erased hw hF) (h₀₅.walkable hw hn)
        (by omega)).imp fun yes _ h => ⟨h.1, ?_⟩
      rw [h.2, and_iff_right heq, and_iff_right hsame]
    refine (hrel.bind (k := fun yes => if yes = true then fieldsAgree rel a b (i + 1) k else pure false)
      hw₄ hx₄ hy₄ hwalk hrest fun hne => ⟨fun h => hne h.2.1, rfl⟩).imp ?_
    exact fun _ _ h => ⟨Trans.trans h₀₄ h.1, h.2⟩

theorem number_eq_iff {x y : Descriptor} (hE : E.kind = .primitive) (hF : F.kind = .primitive)
    (hx : x.kind = E.baseKind ∧ (E = .int x.width ∨ E = .uint x.width ∨ E = .float x.width ∨
      E.kind ≠ .primitive))
    (hy : y.kind = F.baseKind ∧ (F = .int y.width ∨ F = .uint y.width ∨ F = .float y.width ∨
      F.kind ≠ .primitive)) :
    (x.kind == y.kind && x.width == y.width) = true ↔ E = F := by
  rw [Bool.and_eq_true, beq_iff_eq, beq_iff_eq, hx.1, hy.1]
  rcases hx.2 with rfl | rfl | rfl | h
  all_goals try exact absurd hE h
  all_goals
    rcases hy.2 with rfl | rfl | rfl | h
    all_goals try exact absurd hF h
  all_goals simp [Erasure.baseKind]

/-- Two types that have erasures are found to be the same exactly when the erasures are. -/
theorem decides_compatibleWithin (last : Ty → Ty → BuildM Bool) (n : Nat) :
    Decides n (compatibleWithin last n) := by
  induction n with
  | zero => exact fun _ _ _ _ _ _ _ _ hn => absurd hn.1 (Nat.lt_irrefl 0)
  | succ n ih =>
    intro E F a b w hw hE hF hn
    have hkind : a.kind = E.kind ∧ b.kind = F.kind := by
      obtain ⟨_, _, _, _, _, ha⟩ := id hE
      obtain ⟨_, _, _, _, _, hb⟩ := id hF
      exact ⟨ha, hb⟩
    have hsame : w.Ponders w := Std.Refl.refl w
    have hno : ∀ {p : Prop}, false = true → p := fun h => absurd h Bool.false_ne_true
    unfold compatibleWithin
    refine .ite' (fun h => .pure' ⟨hsame, ?_⟩) fun h => ?_
    · have hne : a.kind ≠ b.kind := by simpa [hE.valid, hF.valid] using h
      rw [hkind.1, hkind.2] at hne
      exact ⟨hno, fun heq => absurd (heq ▸ rfl) hne⟩
    replace h : a.kind = b.kind := by simpa [hE.valid, hF.valid] using h
    have hkinds : E.kind = F.kind := by rw [← hkind.1, h, hkind.2]
    refine .ite' (fun hids => .pure' ⟨hsame, iff_of_true rfl ?_⟩) fun _ => ?_
    · obtain ⟨rt, r, hown, hr, hE, -⟩ := hE
      obtain ⟨rt', r', hown', hr', hF, -⟩ := hF
      obtain rfl := Option.mem_unique hown (hids.1.trans hown')
      obtain rfl := Option.mem_unique hr hr'
      exact hE.unique (hids.2 ▸ hF)
    have hprimitive : E.kind = .primitive → Ends (do
        let x ← baseOf a
        let y ← baseOf b
        pure (x.kind == y.kind && x.width == y.width)) w
        (fun yes w' => w.Ponders w' ∧ (yes = true ↔ E = F)) fun _ _ => False := by
      intro hp
      refine .bind' (ends_baseOf hE) ?_
      rintro x _ ⟨rfl, hx⟩
      refine .bind' (ends_baseOf hF) ?_
      rintro y _ ⟨rfl, hy⟩
      exact .pure' ⟨hsame, number_eq_iff hp (hkinds ▸ hp) hx hy⟩
    rw [hkind.1]
    cases E with
    | void =>
      cases F with
      | void => exact .pure' ⟨hsame, iff_of_true rfl rfl⟩
      | _ => cases hkinds
    | bool =>
      cases F with
      | bool => exact .pure' ⟨hsame, iff_of_true rfl rfl⟩
      | _ => cases hkinds
    | int | uint | float => exact hprimitive rfl
    | pointer E =>
      cases F with
      | pointer F =>
        refine .bind' ((ends_targetOf hE).answers_and (below_targetOf? hw a)) ?_
        rintro _ _ ⟨⟨rfl, x, rfl, hx⟩, -, hbelow⟩
        refine .bind' (ends_targetOf hF) ?_
        rintro _ _ ⟨rfl, y, rfl, hy⟩
        refine (ih E F x y _ hw hx hy (hn.below (hbelow x rfl))).imp ?_
        exact fun _ _ h => ⟨h.1, h.2.trans (by rw [Erasure.pointer.injEq])⟩
      | _ => cases hkinds
    | struct offsets Es =>
      cases F with
      | struct offsets' Fs =>
        refine .bind' (ends_fieldCount hw hE) ?_
        rintro _ _ ⟨rfl, rfl⟩
        refine .bind' (ends_fieldCount hw hF) ?_
        rintro _ _ ⟨rfl, rfl⟩
        refine .ite' (fun hne => .pure' ⟨hsame, hno, ?_⟩) fun heq => ?_
        · intro h
          cases h
          exact absurd rfl hne
        · have hlen : Es.length = Fs.length := not_not.mp heq
          refine (ends_fieldsAgree ih hw hE hF hlen hn (Nat.zero_add _)).imp ?_
          exact fun _ _ h => ⟨h.1, h.2.trans (by simp)⟩
      | _ => cases hkinds
    | signature abi params result =>
      cases F with
      | signature abi' params' result' =>
        refine .bind' (ends_abiOf hE) ?_
        rintro _ _ ⟨rfl, rfl⟩
        refine .bind' (ends_abiOf hF) ?_
        rintro _ _ ⟨rfl, rfl⟩
        refine .ite' (fun hne => .pure' ⟨hsame, hno, fun h => ?_⟩) fun heq => ?_
        · cases h
          exact absurd rfl hne
        obtain rfl := not_not.mp heq
        refine .bind' ((ends_returnErased hE).answers_and (below_returnOf hw hkind.1)) ?_
        rintro x _ ⟨⟨rfl, hx⟩, -, hbelow⟩
        refine .bind' (ends_returnErased hF) ?_
        rintro y _ ⟨rfl, hy⟩
        refine ih.bind hw hx hy (hn.below hbelow) (fun hsame w₁ h₁ => ?_) fun hne => ⟨?_, rfl⟩
        · have hw₁ := (h₁ hw).1
          have hn₁ := h₁.walkable hw hn
          refine .bind' ((ends_paramsErased (h₁.erased hw hE)).answers_and (below_paramsOf hw₁ a)) ?_
          rintro xs _ ⟨⟨rfl, hxs⟩, -, hbelows⟩
          refine .bind' (ends_paramsErased (h₁.erased hw hF)) ?_
          rintro ys _ ⟨rfl, hys⟩
          refine (ends_allPairs ih hw₁ hxs hys fun z hz => hn₁.below (hbelows z hz)).imp ?_
          exact fun _ _ h => ⟨h.1, h.2.trans (by simp [hsame])⟩
        · intro h
          cases h
          exact absurd rfl hne
      | _ => cases hkinds

end

theorem ends_compatible (hw : w.Founded) (hE : w.Erased E a) (hF : w.Erased F b) :
    Ends (compatible a b) w (fun yes w' => w.Ponders w' ∧ (yes = true ↔ E = F))
      fun _ _ => False := by
  have hsize : ∀ {E : Erasure} {t : Ty}, w.Erased E t → ∃ k,
      ((tableSize t).run w : Except Stop Nat × Workspace) = (.ok k, w) ∧
        ∀ rt (r : Runtime), t.owner = some rt → w.runtimes[rt]? = some r →
          k = r.engine.types.types.size := by
    rintro E t ⟨rt, r, hown, hr, -, -⟩
    refine ⟨r.engine.types.types.size, ?_, fun rt' r' hrt' hr' => ?_⟩
    · unfold tableSize
      rw [hown]
      dsimp only
      rw [run_bind, run_table, hr]
      rfl
    · obtain rfl := Option.mem_unique hown hrt'
      obtain rfl := Option.mem_unique hr hr'
      rfl
  obtain ⟨ka, hka, hsizea⟩ := hsize hE
  obtain ⟨kb, hkb, -⟩ := hsize hF
  unfold compatible
  refine .bind_ok hka (.bind_ok hkb ?_)
  refine decides_compatibleWithin _ _ E F a b w hw hE hF ⟨Nat.succ_pos _, fun rt r hrt hr => ?_⟩
  have hord : r.engine.types.Ordered := (hw rt r hr).tables.ordered
  have hka : ka = r.engine.types.types.size := hsizea rt r hrt hr
  have hle : r.engine.types.types.size ≤ ka + kb + 1 := by omega
  exact hord.walkable_size hle a.id

end BuildM

end TypedIR
