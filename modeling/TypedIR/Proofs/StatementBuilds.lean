import TypedIR.Proofs.StructuredRuns

/-
  Building statements.

  A statement is built by the operations for labels, jumps, conditional statements and
  loops. As long as the function has no problem each of them adds what its name says,
  and the pieces are those that structured code is put together of. So the code of a
  statement runs as the statement does (`Stmt.builds`), whatever is built around it.
-/

namespace TypedIR

open Func (Reads)
open Workspace (Goes)

namespace BuildM

variable {fn : FnId} {w : Workspace} {α : Type}

theorem Yields.complaint (hl : w.Linked) (op : String) (why : Complaint)
    {post : Option Problem → Workspace → Prop} : Yields fn (complaintOf fn op why) w post :=
  keep_bind hl _ fun _ => .pure' _

theorem Yields.discard' {act : BuildM α} {post : Unit → Workspace → Prop}
    (h : Yields fn act w fun _ w' => post () w') : Yields fn (discard act) w post :=
  Ends.bind' h fun _ _ hpost => .pure' hpost

theorem Yields.withTarget (hl : w.Linked) (op : String) (l : Label)
    {k : LabelId → BuildM (Option Problem)} (hgo : ∀ l, Leaves Goes (k l))
    {post : Option Problem → Workspace → Prop} (hk : Yields fn (k l.id) w post) :
    Yields fn (do
      match ← target? fn op (some l) with
      | none => problemOf fn
      | some l => k l) w post := by
  have hgo' : ∀ l? : Option LabelId, Leaves Goes (match l? with
      | none => problemOf fn
      | some l => k l) := by
    intro l?
    cases l? with
    | none => exact goes_problemOf fn
    | some l => exact hgo l
  have hkept : ∀ why, Yields fn (do
      keep fn (.complaint op why)
      pure none : BuildM (Option LabelId)) w fun _ _ => False :=
    fun why => keep_bind hl _ fun _ => .pure' _
  have htarget : Yields fn (target? fn op (some l)) w fun l? w' => l? = some l.id ∧ w' = w :=
    .ite' (fun _ => (hkept _).mono fun _ _ h => h.elim) fun _ =>
      .ite' (fun _ => (hkept _).mono fun _ _ h => h.elim) fun _ => .pure' hl ⟨rfl, rfl⟩
  refine htarget.bind' hgo' ?_
  rintro _ _ ⟨rfl, rfl⟩
  exact hk

end BuildM

theorem Func.GivesBack.within {f f' : Func} {c : Setting} (h : f.GivesBack c) (hw : f.Within f') :
    f'.GivesBack c := by
  unfold GivesBack at h ⊢
  rwa [hw.header.sig, hw.header.ret]

/-! ## Operations -/

namespace Workspace.Drafts

open BuildM

variable {w : Workspace} {c : Setting} {fn : FnId} {s : Function} {f : Func} {u v : Val}
  {r ru rv : Rep}

theorem modifyBreaks (h : w.Drafts c fn s f) (g : List Label → List Label) :
    Yields fn (modifyFunction fn fun s => { s with breaks := g s.breaks }) w fun _ w' =>
      w'.Drafts c fn { s with breaks := g s.breaks } f := by
  refine Yields.of_ends h.linked (goes_modifyBreaks fn g) (.modify' fun _ => ?_)
  exact {
    linked := h.linked.modify (g := fun s => { s with breaks := g s.breaks })
      (fun _ => ⟨rfl, rfl, rfl⟩) fn
    function := by
      rw [Workspace.getElem?_modify, h.function]
      simp
    problem := h.problem
    plain := h.plain
    engine := h.engine }

theorem newLabel (h : w.Drafts c fn s f) :
    (BuildM.newLabel fn).Builds w c fn s f fun l f' => l.fn = fn ∧ f.Pauses f' := by
  have hlabel : Builds (guarded fn 0 (onFunc fn "label" EngineM.newLabel)) w c fn s f
      fun _ f' => f.Pauses f' := by
    refine Yields.guarded' h.linked
      (goes_edited fn _ fun _ => .emits Emit.edits_newLabel)
      (h.ends_onFunc "label" (fun _ => .emits Emit.edits_newLabel)
        fun e he => he.ends_emitInto fun b hb => ?_) 0
    exact hb.newLabel.imp (fun _ _ ⟨_, hb'⟩ =>
      ⟨_, hb', h.plain.addLabel, h.plain.pauses⟩)
  refine Yields.bind' hlabel (fun _ => .pure' _) ?_
  rintro id w' ⟨f', h', hcont, hpauses⟩
  exact Yields.pure' h'.linked ⟨f', h', hcont, rfl, hpauses⟩

theorem placeLabel (h : w.Drafts c fn s f) {l : Label} (hl : l.fn = fn) :
    (BuildM.placeLabel l).Builds w c fn s f fun p f' => p = none ∧ f.Places f' l.id := by
  subst hl
  refine Yields.ite' (fun _ => .complaint h.linked _ _) fun _ => ?_
  refine Yields.asking (.bind' (asks_function _).leaves fun _ =>
    .bind' (asks_engine _).leaves fun _ => .pure' _) fun _ => ?_
  refine Yields.ite' (fun _ => .complaint h.linked _ _) fun _ => ?_
  refine h.keptProblem "label" (fun _ => .emits (Emit.edits_placeLabel _))
    fun e he => he.ends_emitInto fun b hb => ?_
  refine (hb.placeLabel l.id).imp ?_
  rintro _ b' ⟨⟨pos, hpos, hneg⟩, hb'⟩
  exact ⟨_, hb', h.plain.place hpos hneg, h.plain.places hpos hneg⟩

theorem jump (h : w.Drafts c fn s f) (l : Label) :
    (BuildM.jump fn (some l)).Builds w c fn s f fun p f' => p = none ∧ f.Jumps f' l.id := by
  have hgo : ∀ (l : LabelId) id, EngineM.EditsIn id (EngineM.branch id l) := fun l _ =>
    .emits (Emit.edits_branch l)
  refine Yields.withTarget h.linked "jmp" l (fun l => goes_keptProblem fn (goes_edited fn _ (hgo l)))
    (h.keptProblem "jmp" (hgo l.id) fun e he => he.ends_emitInto fun b hb => ?_)
  exact (hb.branch l.id).mono
    (fun _ _ hb' => ⟨_, hb', h.plain.push _, h.plain.jumps l.id⟩) fun _ _ h => h

theorem jumpOn (h : w.Drafts c fn s f) (hfn : v.fn = some fn) (hv : f.Number c v.id rv)
    (name : String) (l : Label) {op : Opcode} (hop : op = .branchIf ∨ op = .branchIfNot) :
    (BuildM.jumpOn fn name v (some l) fun id v l => EngineM.emitInto id (Emit.branchOn op v l)).Builds
      w c fn s f fun p f' =>
        p = none ∧ f' = f.push { op, a := v.id, label := l.id, rep := rv } := by
  have hgo : ∀ (v : ValueId) (l : LabelId) id,
      EngineM.EditsIn id (EngineM.emitInto id (Emit.branchOn op v l)) := fun _ _ _ =>
    .emits (Emit.edits_branchOn (by rcases hop with rfl | rfl <;> decide) _ _)
  refine Yields.withTarget h.linked name l (fun l => .bind' (asks_runtimeOf fn).leaves fun _ =>
    goes_withOperand fn name _ _ (goes_problemOf fn) fun _ =>
      goes_keptProblem fn (goes_edited fn name (hgo _ l))) ?_
  refine Yields.asking (asks_runtimeOf fn).leaves fun rt => ?_
  rw [operand?_eq hfn hv.pos, pure_bind]
  refine h.keptProblem name (hgo v.id l.id) fun e he => he.ends_emitInto fun b hb => ?_
  exact (hb.branchOn hv op l.id).mono
    (fun _ _ hb' => ⟨_, hb', h.plain.push _, rfl⟩) fun _ _ h => h

theorem store (h : w.Drafts c fn s f) (hufn : u.fn = some fn) (hu : f.Number c u.id ru)
    (hconst : ∀ info, f.value? u.id = some info → info.origin ≠ .const) (hvfn : v.fn = some fn)
    (hv : f.Number c v.id rv) :
    (BuildM.store u (.value v)).Builds w c fn s f fun a f' => a = u ∧ ∀ {regs n},
      Reads rv v.id n regs → f.Code f' regs (pure ()) fun _ regs' =>
        Reads ru u.id (ru.wrap n) regs' ∧
          ∀ {w info}, f.value? w = some info → w ≠ u.id → regs'[w]? = regs[w]? := by
  unfold BuildM.store
  rw [onValue_eq hufn hu.pos, operand?_eq hvfn hv.pos, pure_bind]
  have hstore : (guarded fn () (onFunc fn "store" fun id => EngineM.store id u.id v.id)).Builds
      w c fn s f fun _ f' => ∀ {regs n}, Reads rv v.id n regs →
        f.Code f' regs (pure ()) fun _ regs' => Reads ru u.id (ru.wrap n) regs' ∧
          ∀ {w info}, f.value? w = some info → w ≠ u.id → regs'[w]? = regs[w]? :=
    h.emitting "store" (fun _ => .emits (Emit.edits_store _ _))
      fun e he => he.ends_emitInto fun b hb => hb.store h.plain hu hconst hv
  refine Yields.bind' hstore (fun _ => .pure' _) ?_
  rintro _ w' ⟨f', h', hcont, hcode⟩
  exact Yields.pure' h'.linked ⟨f', h', hcont, rfl, hcode⟩

theorem ret (h : w.Drafts c fn s f) (hfn : v.fn = some fn) (hv : f.Number c v.id rv)
    (hback : f.GivesBack c) :
    (BuildM.ret fn (.value v)).Builds w c fn s f fun _ f' =>
      ∀ {e : Engine} {t : Activation} {m : Machine} {regs n}, e.maxSteps ≤ 0 → f'.Within t.func →
        t.func.Runs → m.Stands t f.insns.size regs → Reads rv v.id n regs →
        m.Returns e t (Word.ofInt (f.ret.wrap n)) := by
  refine Yields.asking (asks_function fn).leaves fun _ => ?_
  rw [operand?_eq hfn hv.pos, pure_bind]
  exact h.emitting "return" (fun _ => .emits (Emit.edits_ret _))
    fun e he => he.ends_emitInto fun b hb => hb.ret h.plain hv hback

end Workspace.Drafts

/-! ## Conditions -/

namespace Func

variable {k : Nat} {c : Setting} {fn : FnId} {f f' f₀ : Func} {vals : Fin k → Val}
  {reps : Fin k → Rep} {v : ValueId} {r : Rep} {y : Valuation k → Except Cause Int} {op : Opcode}
  {sense negate : Bool} {l : LabelId}

/-- The code from `f` to `f'` looks at a number, and jumps to the label if it is what the
operation wants. -/
def Looks (f f' : Func) (c : Setting) (v : ValueId) (r : Rep) (op : Opcode) (l : LabelId) : Prop :=
  ∃ f₁ f₂ u r', ∃ z : Int → Int, f.Pauses f₁ ∧ f.Continues f₁ ∧ (∀ n, (z n != 0) = (n != 0)) ∧
    (f₁.Gives c f₂ u r' fun regs x => ∃ n, Reads r v n regs ∧ x = pure (z n)) ∧
    f' = f₂.push { op, a := u, label := l, rep := r' }

theorem Pauses.trans {f₁ f₂ : Func} (h : f.Pauses f₁) (h' : f₁.Pauses f₂) : f.Pauses f₂ :=
  ⟨h.within.trans h'.within, h'.size.trans h.size⟩

theorem Looks.after_pause (hp : f₀.Pauses f) (hf : f₀.Continues f) (h : f.Looks f' c v r op l) :
    f₀.Looks f' c v r op l := by
  obtain ⟨f₁, f₂, u, r', z, hp₁, hf₁, hrest⟩ := h
  exact ⟨f₁, f₂, u, r', z, hp.trans hp₁, hf.trans hf₁, hrest⟩

theorem Gives.looks (hvars : f₀.Variables c fn vals reps)
    (hy : f₀.Gives c f v r fun regs x => ∃ σ : Valuation k, σ.In vals reps regs ∧ x = y σ)
    (h : f.Looks f' c v r op l)
    (hop : op = if sense != negate then .branchIf else .branchIfNot) :
    Tests f₀ f' vals reps l sense fun σ => y σ >>= fun n => pure ((n != 0) != negate) := by
  obtain ⟨f₁, f₂, u, r', z, hp, hf, hz, hu, rfl⟩ := h
  exact (hy.pause hf hp.size).tests hvars hz hu hop l

end Func

namespace Workspace.Drafts

open BuildM

variable {w : Workspace} {c : Setting} {fn : FnId} {s : Function} {f f₀ : Func} {v : Val} {r : Rep}
  {k : Nat} {vals : Fin k → Val} {reps : Fin k → Rep}

theorem look (h : w.Drafts c fn s f) (hfn : v.fn = some fn) (hv : f.Number c v.id r) (name : String)
    (l : Label) {op : Opcode} (hop : op = .branchIf ∨ op = .branchIfNot) {α : Type}
    (g : Option Problem → α) :
    (do
      let u ← BuildM.toBool v
      let p ← BuildM.jumpOn fn name u (some l) fun id v l => EngineM.emitInto id (Emit.branchOn op v l)
      pure (g p)).Builds w c fn s f fun a f' => a = g none ∧ f.Looks f' c v.id r op l.id := by
  have hgo : ∀ u, Leaves Goes (BuildM.jumpOn fn name u (some l) fun id v l =>
      EngineM.emitInto id (Emit.branchOn op v l)) := fun u =>
    goes_jumpOn fn name u _ fun _ _ _ =>
      .emits (Emit.edits_branchOn (by rcases hop with rfl | rfl <;> decide) _ _)
  refine Yields.bind' (h.toBool hfn hv) (fun u => .bind' (hgo u) fun _ => .pure' _) ?_
  rintro u w₁ ⟨f₁, h₁, hcont₁, hufn, ru, z, hz, hu⟩
  refine Yields.bind' (h₁.jumpOn hufn hu.number name l hop) (fun _ => .pure' _) ?_
  rintro _ w₂ ⟨f₂, h₂, hcont₂, rfl, rfl⟩
  exact Yields.pure' h₂.linked ⟨_, h₂, hcont₁.trans hcont₂, rfl, f, f₁, u.id, ru, z,
    ⟨.refl f, rfl⟩, .refl h.plain, hz, hu, rfl⟩

theorem branchTest (h : w.Drafts c fn s f) (hfn : v.fn = some fn) (hv : f.Number c v.id r)
    (negate : Bool) :
    (Branch.test { fn, negate, cond := .value v }).Builds w c fn s f fun b f' => ∃ l : Label,
      b = { fn, negate, cond := .value v, elseLabel := some l } ∧ l.fn = fn ∧
        f.Looks f' c v.id r (if false != negate then .branchIf else .branchIfNot) l.id := by
  refine Yields.asking (asks_runtimeOf fn).leaves fun rt => ?_
  dsimp only
  rw [operand?_eq hfn hv.pos, pure_bind]
  have hgo : ∀ l u, Leaves Goes (if negate = true then (do
      let p ← BuildM.jumpIf fn u (some l)
      pure { fn, negate, cond := .value v, elseLabel := some l, problem := p } : BuildM Branch) else (do
      let p ← BuildM.jumpIfNot fn u (some l)
      pure { fn, negate, cond := .value v, elseLabel := some l, problem := p })) := fun l u =>
    .ite' (.bind' (goes_jumpIf fn u _) fun _ => .pure' _)
      (.bind' (goes_jumpIfNot fn u _) fun _ => .pure' _)
  refine Yields.bind' h.newLabel (fun l => .bind' (goes_toBool v) (hgo l)) ?_
  rintro l w₁ ⟨f₁, h₁, hcont₁, hlfn, hpause⟩
  have hv₁ := hv.within hcont₁.within
  cases negate with
  | false =>
    refine Yields.mono (h₁.look hfn hv₁ "jmp_if_not" l (.inr rfl) _) ?_
    rintro b w₂ ⟨f₂, h₂, hcont₂, rfl, hlooks⟩
    exact ⟨f₂, h₂, hcont₁.trans hcont₂, l, rfl, hlfn, hlooks.after_pause hpause hcont₁⟩
  | true =>
    refine Yields.mono (h₁.look hfn hv₁ "jmp_if" l (.inl rfl) _) ?_
    rintro b w₂ ⟨f₂, h₂, hcont₂, rfl, hlooks⟩
    exact ⟨f₂, h₂, hcont₁.trans hcont₂, l, rfl, hlfn, hlooks.after_pause hpause hcont₁⟩

theorem tests (h : w.Drafts c fn s f) (hfn : v.fn = some fn) (hvars : f₀.Variables c fn vals reps)
    {y : Valuation k → Except Cause Int}
    (hy : f₀.Gives c f v.id r fun regs x => ∃ σ : Valuation k, σ.In vals reps regs ∧ x = y σ)
    (negate : Bool) :
    (Branch.test { fn, negate, cond := .value v }).Builds w c fn s f fun b f' => ∃ l : Label,
      b = { fn, negate, cond := .value v, elseLabel := some l } ∧ l.fn = fn ∧
        f₀.Tests f' vals reps l.id false fun σ => y σ >>= fun n => pure ((n != 0) != negate) := by
  refine Yields.mono (h.branchTest hfn hy.number negate) ?_
  rintro b w' ⟨f', h', hcont, l, rfl, hlfn, hlooks⟩
  exact ⟨f', h', hcont, l, rfl, hlfn, hy.looks hvars hlooks rfl⟩

theorem assign (h : w.Drafts c fn s f) (hvars : f₀.Variables c fn vals reps) (i : Fin k)
    {y : Valuation k → Except Cause Int} (hfn : v.fn = some fn)
    (hy : f₀.Gives c f v.id r fun regs x => ∃ σ : Valuation k, σ.In vals reps regs ∧ x = y σ) :
    (discard (BuildM.store (vals i) (.value v))).Builds w c fn s f fun _ f' =>
      f₀.Executes f' vals reps s.breaks fun _ σ =>
        Stmt.given (y σ) fun n => some (.next (Function.update σ i ((reps i).wrap n))) := by
  have hvars₁ := hvars.continues hy.continues
  refine Yields.discard' ((h.store (hvars₁.fn i) (hvars₁.number i) (fun _ => hvars₁.assignable)
    hfn hy.number).mono ?_)
  rintro _ w₂ ⟨f₂, h₂, hcont₂, -, hstore⟩
  exact ⟨f₂, h₂, hcont₂, Func.Executes.assign hvars i hy hcont₂.within hstore⟩

theorem loopTest (h : w.Drafts c fn s f) (hfn : v.fn = some fn) (hv : f.Number c v.id r)
    {l : Loop} (hl : l.fn = fn) {leaving : Bool} {aim : Label}
    (haim : (if leaving then l.bottom else l.top) = some aim) :
    (l.test v leaving).Builds w c fn s f fun l' f' => l' = { l with problem := none } ∧
      f.Looks f' c v.id r (if (!leaving) != l.negate then .branchIf else .branchIfNot) aim.id := by
  obtain ⟨lfn, negate, top, bottom, closed, problem⟩ := l
  obtain rfl : lfn = fn := hl
  unfold Loop.test
  dsimp only at haim ⊢
  rw [Val.valid_of_pos hfn hv.pos, haim]
  refine Yields.ite' nofun fun _ => ?_
  cases leaving <;> cases negate
  · exact h.look hfn hv "jmp_if" aim (.inl rfl) _
  · exact h.look hfn hv "jmp_if_not" aim (.inr rfl) _
  · exact h.look hfn hv "jmp_if_not" aim (.inr rfl) _
  · exact h.look hfn hv "jmp_if" aim (.inl rfl) _

end Workspace.Drafts

/-! ## Statements -/

section

variable {k : Nat} {c : Setting} {rt : RuntimeId} {fn : FnId} {vals : Fin k → Val}
  {reps : Fin k → Rep} {s : Function} {w : Workspace} {f : Func}

open BuildM

theorem Branch.goes_thenDo (b : Branch) {body : BuildM Unit} (h : Leaves Goes body) :
    Leaves Goes (b.thenDo body) :=
  .bind' (Branch.goes_test b) fun _ => .ite' (.bind' h fun _ => .pure' _) (.pure' _)

theorem Branch.goes_elseDo (b : Branch) {body : BuildM Unit} (h : Leaves Goes body) :
    Leaves Goes (b.elseDo body) :=
  .bind' (Branch.goes_turn b) fun _ => .ite' (.bind' h fun _ => .pure' _) (.pure' _)

theorem Loop.goes_run (l : Loop) {cond : BuildM Val} {body : BuildM Unit} (hcond : Leaves Goes cond)
    (hbody : Leaves Goes body) : Leaves Goes (l.run cond body) := by
  refine .bind' (Loop.goes_start l) fun l => .bind' hcond fun v => .bind' (Loop.goes_test l v true)
    fun l => .ite' (.pure' _) (.bind' (Loop.goes_enter l) fun l => .ite' (.pure' _) ?_)
  exact .bind' hbody fun _ => .bind' (Loop.goes_leave l) fun _ => .bind' hcond fun v =>
    Loop.goes_test l v false

theorem goes_discard {α : Type} {act : BuildM α} (h : Leaves Goes act) : Leaves Goes (discard act) :=
  .bind' h fun _ => .pure' _

theorem Stmt.goes_emit (fn : FnId) (vals : Fin k → Val) (st : Stmt c rt k) :
    Leaves Goes (st.emit fn vals) := by
  induction st with
  | skip => exact .pure' _
  | assign i a => exact .bind' (a.goes_emit fn vals) fun _ => goes_discard (goes_store _ _)
  | seq s t ihs iht => exact .bind' ihs fun _ => iht
  | branch negate cond s ih =>
    exact .bind' (cond.goes_emit fn vals) fun _ => .bind' (Branch.goes_thenDo _ ih) fun b =>
      goes_discard b.goes_finish
  | branchElse negate cond s t ihs iht =>
    exact .bind' (cond.goes_emit fn vals) fun _ => .bind' (Branch.goes_thenDo _ ihs) fun b =>
      .bind' (Branch.goes_elseDo b iht) fun b => goes_discard b.goes_finish
  | loop negate cond s ih =>
    exact .bind' (Loop.goes_run _ (cond.goes_emit fn vals) ih) fun l => goes_discard l.goes_finish
  | leave => exact goes_discard (goes_breakLoop fn)
  | ret a => exact .bind' (a.goes_emit fn vals) fun _ => goes_ret fn _

theorem Branch.builds_thenDo (h : w.Drafts c fn s f) {f₀ : Func} {v : Val} {r : Rep}
    (hfn : v.fn = some fn) (hvars : f₀.Variables c fn vals reps) {y : Valuation k → Except Cause Int}
    (hy : f₀.Gives c f v.id r fun regs x => ∃ σ : Valuation k, σ.In vals reps regs ∧ x = y σ)
    (negate : Bool) {body : BuildM Unit} (hgo : Leaves Goes body)
    {x : Nat → Valuation k → Option (Exit k)}
    (hbody : ∀ (w' : Workspace) (f' : Func), w'.Drafts c fn s f' → f.Continues f' →
      body.Builds w' c fn s f' fun _ f'' => f'.Executes f'' vals reps s.breaks x) :
    (Branch.thenDo { fn, negate, cond := .value v } body).Builds w c fn s f fun b f' =>
      ∃ (l : Label) (f₁ : Func), b = { fn, negate, cond := .value v, elseLabel := some l } ∧
        l.fn = fn ∧ f₁.Executes f' vals reps s.breaks x ∧
        f₀.Tests f₁ vals reps l.id false fun σ => y σ >>= fun n => pure ((n != 0) != negate) := by
  refine Yields.bind' (h.tests hfn hvars hy negate)
    (fun _ => .ite' (.bind' hgo fun _ => .pure' _) (.pure' _)) ?_
  rintro _ w₁ ⟨f₁, h₁, hcont₁, l, rfl, hlfn, htests⟩
  refine Yields.bind' (hbody w₁ f₁ h₁ hcont₁) (fun _ => .pure' _) ?_
  rintro _ w₂ ⟨f₂, h₂, hcont₂, hexec⟩
  exact Yields.pure' h₂.linked ⟨f₂, h₂, hcont₁.trans hcont₂, l, f₁, rfl, hlfn, hexec, htests⟩

/-- The second body: a jump ends the first, and the label of the test is in front of the
second. -/
theorem Branch.builds_elseDo (h : w.Drafts c fn s f) {negate : Bool} {cond : HostValue} {l : Label}
    (hlfn : l.fn = fn) {body : BuildM Unit} (hgo : Leaves Goes body)
    {x : Nat → Valuation k → Option (Exit k)}
    (hbody : ∀ (w' : Workspace) (f' : Func), w'.Drafts c fn s f' → f.Continues f' →
      body.Builds w' c fn s f' fun _ f'' => f'.Executes f'' vals reps s.breaks x) :
    (Branch.elseDo { fn, negate, cond, elseLabel := some l } body).Builds w c fn s f fun b f' =>
      ∃ (done : Label) (f₁ f₂ f₃ : Func),
        b = { fn, negate, cond, elseLabel := some l, endLabel := some done } ∧ done.fn = fn ∧
        f.Pauses f₁ ∧ f₁.Jumps f₂ done.id ∧ f₂.Places f₃ l.id ∧
        f₃.Executes f' vals reps s.breaks x := by
  have hplace : ∀ done : Label, Leaves Goes (do
      let p ← BuildM.placeLabel l
      pure { fn, negate, cond, elseLabel := some l, endLabel := some done, problem := p } :
      BuildM Branch) :=
    fun _ => .bind' (goes_placeLabel l) fun _ => .pure' _
  have hturn : (Branch.turn { fn, negate, cond, elseLabel := some l }).Builds w c fn s f fun b f' =>
      ∃ (done : Label) (f₁ f₂ : Func),
        b = { fn, negate, cond, elseLabel := some l, endLabel := some done } ∧ done.fn = fn ∧
        f.Pauses f₁ ∧ f₁.Jumps f₂ done.id ∧ f₂.Places f' l.id := by
    refine Yields.ite' nofun fun _ => ?_
    refine Yields.bind' h.newLabel (fun done => .bind' (goes_jump fn _) fun p => ?_) ?_
    · cases p with
      | some p => exact .pure' _
      | none => exact hplace done
    rintro done w₁ ⟨f₁, h₁, hcont₁, hdone, hpause⟩
    refine Yields.bind' (h₁.jump done) (fun p => ?_) ?_
    · cases p with
      | some p => exact .pure' _
      | none => exact hplace done
    rintro _ w₂ ⟨f₂, h₂, hcont₂, rfl, hjump⟩
    refine Yields.bind' (h₂.placeLabel hlfn) (fun _ => .pure' _) ?_
    rintro _ w₃ ⟨f₃, h₃, hcont₃, rfl, hplaced⟩
    exact Yields.pure' h₃.linked ⟨f₃, h₃, hcont₁.trans (hcont₂.trans hcont₃), done, f₁, f₂,
      rfl, hdone, hpause, hjump, hplaced⟩
  refine Yields.bind' hturn (fun _ => .ite' (.bind' hgo fun _ => .pure' _) (.pure' _)) ?_
  rintro _ w₁ ⟨f₃, h₃, hcont₃, done, f₁, f₂, rfl, hdone, hpause, hjump, hplaced⟩
  refine Yields.bind' (hbody w₁ f₃ h₃ hcont₃) (fun _ => .pure' _) ?_
  rintro _ w₂ ⟨f₄, h₄, hcont₄, hexec⟩
  exact Yields.pure' h₄.linked
    ⟨f₄, h₄, hcont₃.trans hcont₄, done, f₁, f₂, f₃, rfl, hdone, hpause, hjump, hplaced, hexec⟩

theorem Branch.builds_finish (h : w.Drafts c fn s f) {negate : Bool} {cond : HostValue}
    {l l' : Label} {done : Option Label} (hl : done.getD l = l') (hfn : l'.fn = fn) :
    (Branch.finish { fn, negate, cond, elseLabel := some l, endLabel := done }).Builds
      w c fn s f fun _ f' => f.Places f' l'.id := by
  have hend : (do
      let p ← BuildM.placeLabel l'
      pure (p, { fn, negate, cond, elseLabel := some l, endLabel := done, closed := true }) :
      BuildM (Option Problem × Branch)).Builds w c fn s f fun _ f' => f.Places f' l'.id := by
    refine Yields.bind' (h.placeLabel hfn) (fun _ => .pure' _) ?_
    rintro _ w' ⟨f', h', hcont, -, hplaced⟩
    exact Yields.pure' h'.linked ⟨f', h', hcont, hplaced⟩
  cases done with
  | none =>
    obtain rfl : l = l' := hl
    exact hend
  | some done =>
    obtain rfl : done = l' := hl
    exact hend

theorem Branch.builds (h : w.Drafts c fn s f) {f₀ : Func} {v : Val} {r : Rep} (hfn : v.fn = some fn)
    (hvars : f₀.Variables c fn vals reps) {y : Valuation k → Except Cause Int}
    (hy : f₀.Gives c f v.id r fun regs x => ∃ σ : Valuation k, σ.In vals reps regs ∧ x = y σ)
    (negate : Bool) {body : BuildM Unit} (hgo : Leaves Goes body)
    {x : Nat → Valuation k → Option (Exit k)}
    (hbody : ∀ (w' : Workspace) (f' : Func), w'.Drafts c fn s f' → f.Continues f' →
      body.Builds w' c fn s f' fun _ f'' => f'.Executes f'' vals reps s.breaks x)
    {α : Type} (g : Option Problem × Branch → α) :
    (do
      let b ← Branch.thenDo { fn, negate, cond := .value v } body
      let a ← b.finish
      pure (g a)).Builds w c fn s f fun _ f' => f₀.Executes f' vals reps s.breaks fun n σ =>
        Stmt.given (y σ >>= fun n => pure ((n != 0) != negate)) fun
          | true => x n σ
          | false => some (.next σ) := by
  refine Yields.bind' (Branch.builds_thenDo h hfn hvars hy negate hgo hbody)
    (fun b => .bind' b.goes_finish fun _ => .pure' _) ?_
  rintro _ w₁ ⟨f₁, h₁, hcont₁, l, f₂, rfl, hlfn, hfirst, htest⟩
  refine Yields.bind' (Branch.builds_finish h₁ rfl hlfn) (fun _ => .pure' _) ?_
  rintro _ w₂ ⟨f₃, h₃, hcont₃, hend⟩
  exact Yields.pure' h₃.linked ⟨f₃, h₃, hcont₁.trans hcont₃, .branch htest hfirst hend⟩

section

variable (h : w.Drafts c fn s f) (hvars : f.Variables c fn vals reps) {r : Rep}
    {cond : BuildM Val} {y : Valuation k → Except Cause Int} (negate : Bool)
    (hgocond : Leaves Goes cond)
    (hcond : ∀ (w' : Workspace) (s' : Function) (f' : Func), s'.runtime = s.runtime →
      w'.Drafts c fn s' f' → f'.Variables c fn vals reps →
      cond.Gives w' c fn s' f' r fun regs x => ∃ σ : Valuation k, σ.In vals reps regs ∧ x = y σ)
    {body : BuildM Unit} (hgo : Leaves Goes body) {x : Nat → Valuation k → Option (Exit k)}
    (hbody : ∀ (w' : Workspace) (f' : Func) (l : Label), f.Continues f' →
      w'.Drafts c fn { s with breaks := l :: s.breaks } f' →
      body.Builds w' c fn { s with breaks := l :: s.breaks } f' fun _ f'' =>
        f'.Executes f'' vals reps (l :: s.breaks) x)
include h hvars hgocond hcond hgo hbody

theorem Loop.builds_run :
    (Loop.run { fn, negate } cond body).Builds w c fn s f fun l f' =>
      ∃ (top bottom : Label) (f₀ f₁ f₂ f₃ : Func),
        l = { fn, negate, top := some top, bottom := some bottom } ∧ bottom.fn = fn ∧
        f.Pauses f₀ ∧
        (f₀.Tests f₁ vals reps bottom.id false fun σ => y σ >>= fun n => pure ((n != 0) != negate)) ∧
        f₁.Places f₂ top.id ∧ f₂.Executes f₃ vals reps (bottom :: s.breaks) x ∧
        f₃.Tests f' vals reps top.id true fun σ => y σ >>= fun n => pure ((n != 0) != negate) := by
  have hrest : ∀ l : Loop, Leaves Goes (do
      body
      Loop.leave l
      let v ← cond
      Loop.test l v false) := fun l =>
    .bind' hgo fun _ => .bind' (Loop.goes_leave l) fun _ => .bind' hgocond fun v =>
      Loop.goes_test l v false
  have hafter : ∀ l : Loop, Leaves Goes (if l.problem.isSome then pure l else (do
      let l ← Loop.enter l
      if l.problem.isSome then pure l else (do
        body
        Loop.leave l
        let v ← cond
        Loop.test l v false))) := fun l =>
    .ite' (.pure' _) (.bind' (Loop.goes_enter l) fun l => .ite' (.pure' _) (hrest l))
  have hstart : (Loop.start { fn, negate }).Builds w c fn s f fun l f' => ∃ top bottom : Label,
      l = { fn, negate, top := some top, bottom := some bottom } ∧ top.fn = fn ∧ bottom.fn = fn ∧
        f.Pauses f' := by
    refine Yields.bind' h.newLabel (fun _ => .bind' (goes_newLabel _) fun _ => .pure' _) ?_
    rintro top w₁ ⟨f₁, h₁, hcont₁, htop, hpause₁⟩
    refine Yields.bind' h₁.newLabel (fun _ => .pure' _) ?_
    rintro bottom w₂ ⟨f₂, h₂, hcont₂, hbottom, hpause₂⟩
    exact Yields.pure' h₂.linked ⟨f₂, h₂, hcont₁.trans hcont₂, top, bottom, rfl, htop, hbottom,
      hpause₁.trans hpause₂⟩
  refine Yields.bind' hstart (fun l => .bind' hgocond fun v => .bind' (Loop.goes_test l v true)
    hafter) ?_
  rintro _ w₁ ⟨f₀, h₀, hcont₀, top, bottom, rfl, htopfn, hbottomfn, hpause⟩
  have hvars₀ := hvars.continues hcont₀
  refine Yields.bind' (hcond w₁ s f₀ rfl h₀ hvars₀) (fun v => .bind' (Loop.goes_test _ v true)
    hafter) ?_
  rintro v w₂ ⟨f₁, h₁, hcont₁, hfn, hv⟩
  let l : Loop := { fn, negate, top := some top, bottom := some bottom }
  refine Yields.bind' (h₁.loopTest (l := l) hfn hv.number rfl
    (show (if true then l.bottom else l.top) = some bottom from rfl)) hafter ?_
  rintro _ w₃ ⟨f₂, h₂, hcont₂, rfl, hlooks⟩
  have htest : f₀.Tests f₂ vals reps bottom.id false fun σ =>
      y σ >>= fun n => pure ((n != 0) != negate) := hv.looks hvars₀ hlooks rfl
  refine Yields.ite' nofun fun _ => ?_
  have henter : Yields fn (Loop.enter l) w₃ fun l' w' => l' = l ∧ ∃ f', f₂.Continues f' ∧
      w'.Drafts c fn { s with breaks := bottom :: s.breaks } f' ∧ f₂.Places f' top.id := by
    refine Yields.bind' (h₂.placeLabel htopfn) (fun p => ?_) ?_
    · cases p with
      | some p => exact .pure' _
      | none => exact .bind' (goes_modifyBreaks _ (bottom :: ·)) fun _ => .pure' _
    · rintro _ w₄ ⟨f₃, h₃, hcont₃, rfl, hplaced⟩
      refine Yields.bind' (h₃.modifyBreaks (bottom :: ·)) (fun _ => .pure' _) ?_
      rintro _ w₅ h₃
      exact Yields.pure' h₃.linked ⟨rfl, f₃, hcont₃, h₃, hplaced⟩
  refine Yields.bind' henter (fun l => .ite' (.pure' _) (hrest l)) ?_
  rintro _ w₄ ⟨rfl, f₃, hcont₃, h₃, hplaced⟩
  have hcont₃' := hcont₀.trans (hcont₁.trans (hcont₂.trans hcont₃))
  refine Yields.ite' nofun fun _ => ?_
  refine Yields.bind' (hbody w₄ f₃ bottom hcont₃' h₃) (fun _ => .bind' (Loop.goes_leave l) fun _ =>
    .bind' hgocond fun v => Loop.goes_test l v false) ?_
  rintro _ w₅ ⟨f₄, h₄, hcont₄, hexec⟩
  refine Yields.bind' (h₄.modifyBreaks List.tail) (fun _ => .bind' hgocond fun v =>
    Loop.goes_test l v false) ?_
  rintro _ w₆ h₄
  refine Yields.bind' (hcond w₆ s f₄ rfl h₄ (hvars.continues (hcont₃'.trans hcont₄)))
    (fun v => Loop.goes_test l v false) ?_
  rintro v w₇ ⟨f₅, h₅, hcont₅, hfn₅, hv₅⟩
  refine Yields.mono (h₅.loopTest (l := l) hfn₅ hv₅.number rfl
    (show (if false then l.bottom else l.top) = some top from rfl)) ?_
  rintro _ w₈ ⟨f₆, h₆, hcont₆, rfl, hlooks₆⟩
  have hagain : f₄.Tests f₆ vals reps top.id true fun σ =>
      y σ >>= fun n => pure ((n != 0) != negate) :=
    hv₅.looks (hvars.continues (hcont₃'.trans hcont₄)) hlooks₆ rfl
  exact ⟨f₆, h₆, hcont₃'.trans (hcont₄.trans (hcont₅.trans hcont₆)), top, bottom, f₀, f₂, f₃, f₄,
    rfl, hbottomfn, hpause, htest, hplaced, hexec,
    hagain⟩

theorem Loop.builds {α : Type} (g : Option Problem × Loop → α) :
    (do
      let l ← Loop.run { fn, negate } cond body
      let a ← l.finish
      pure (g a)).Builds w c fn s f fun _ f' => f.Executes f' vals reps s.breaks fun n σ =>
        Stmt.turns (fun σ => y σ >>= fun n => pure ((n != 0) != negate)) (x n) n σ := by
  refine Yields.bind' (Loop.builds_run h hvars negate hgocond hcond hgo hbody)
    (fun l => .bind' l.goes_finish fun _ => .pure' _) ?_
  rintro _ w₁ ⟨f₅, h₅, hcont₅, top, bottom, f₀, f₁, f₂, f₃, rfl, hbottom, hpause, htest, htop,
    hturn, hagain⟩
  have hend : (Loop.finish { fn, negate, top := some top, bottom := some bottom }).Builds w₁ c fn s f₅
      fun _ f' => f₅.Places f' bottom.id := by
    refine Yields.bind' (h₅.placeLabel hbottom) (fun _ => .pure' _) ?_
    rintro _ w' ⟨f', h', hcont, -, hplaced⟩
    exact Yields.pure' h'.linked ⟨f', h', hcont, hplaced⟩
  refine Yields.bind' hend (fun _ => .pure' _) ?_
  rintro _ w₂ ⟨f₆, h₆, hcont₆, hplaced⟩
  exact Yields.pure' h₆.linked ⟨f₆, h₆, hcont₅.trans hcont₆,
    (Func.Executes.loop htest htop hturn hagain hplaced).after_pause hpause⟩

end

/-- Statements can be built in the function: it has the variables, and gives back what
`result` says. -/
structure Func.Hosts (f : Func) (c : Setting) (fn : FnId) (vals : Fin k → Val) (reps : Fin k → Rep)
    (result : Rep) : Prop where
  vars : f.Variables c fn vals reps
  givesBack : f.GivesBack c
  ret : f.ret = result

theorem Func.Hosts.continues {f' : Func} {result : Rep} (h : f.Hosts c fn vals reps result)
    (hf : f.Continues f') : f'.Hosts c fn vals reps result where
  vars := h.vars.continues hf
  givesBack := h.givesBack.within hf.within
  ret := hf.within.header.ret.trans h.ret

theorem Stmt.builds (st : Stmt c rt k) {result : Rep} (hrt : s.runtime = rt) (h : w.Drafts c fn s f)
    (hf : f.Hosts c fn vals reps result) :
    (st.emit fn vals).Builds w c fn s f fun _ f' =>
      f.Executes f' vals reps s.breaks fun n σ => st.exec reps result n σ := by
  induction st generalizing w s f with
  | skip => exact Yields.pure' h.linked ⟨f, h, .refl h.plain, .skip f⟩
  | assign i a =>
    refine Yields.bind' (a.builds hrt h hf.vars) (fun _ => goes_discard (goes_store _ _)) ?_
    rintro v w₁ ⟨f₁, h₁, hcont₁, hfn, hv⟩
    refine Yields.mono (h₁.assign hf.vars i hfn hv) ?_
    rintro _ w₂ ⟨f₂, h₂, hcont₂, hexec⟩
    exact ⟨f₂, h₂, hcont₁.trans hcont₂, hexec⟩
  | seq s t ihs iht =>
    refine Yields.bind' (ihs hrt h hf) (fun _ => t.goes_emit fn vals) ?_
    rintro _ w₁ ⟨f₁, h₁, hcont₁, hs⟩
    refine Yields.mono (iht hrt h₁ (hf.continues hcont₁)) ?_
    rintro _ w₂ ⟨f₂, h₂, hcont₂, ht⟩
    exact ⟨f₂, h₂, hcont₁.trans hcont₂, hs.seq ht⟩
  | branch negate cond body ih =>
    have hgo := body.goes_emit fn vals
    refine Yields.bind' (cond.builds hrt h hf.vars) (fun _ =>
      .bind' (Branch.goes_thenDo _ hgo) fun b => goes_discard b.goes_finish) ?_
    rintro v w₁ ⟨f₁, h₁, hcont₁, hfn, hv⟩
    refine Yields.mono (Branch.builds h₁ hfn hf.vars hv negate hgo (fun w' f' h' hcont' =>
      ih hrt h' (hf.continues (hcont₁.trans hcont'))) fun _ => ()) ?_
    rintro _ w₂ ⟨f₂, h₂, hcont₂, hexec⟩
    exact ⟨f₂, h₂, hcont₁.trans hcont₂, hexec⟩
  | branchElse negate cond body other ih ih' =>
    have hgo := body.goes_emit fn vals
    have hgo' := other.goes_emit fn vals
    refine Yields.bind' (cond.builds hrt h hf.vars) (fun _ => .bind' (Branch.goes_thenDo _ hgo) fun b =>
      .bind' (Branch.goes_elseDo b hgo') fun b => goes_discard b.goes_finish) ?_
    rintro v w₁ ⟨f₁, h₁, hcont₁, hfn, hv⟩
    refine Yields.bind' (Branch.builds_thenDo h₁ hfn hf.vars hv negate hgo fun w' f' h' hcont' =>
      ih hrt h' (hf.continues (hcont₁.trans hcont'))) (fun b =>
      .bind' (Branch.goes_elseDo b hgo') fun b => goes_discard b.goes_finish) ?_
    rintro _ w₂ ⟨f₂, h₂, hcont₂, l, f₃, rfl, hlfn, hfirst, htest⟩
    have hcont₂' := hcont₁.trans hcont₂
    refine Yields.bind' (Branch.builds_elseDo h₂ hlfn hgo' fun w' f' h' hcont' =>
      ih' hrt h' (hf.continues (hcont₂'.trans hcont'))) (fun b => goes_discard b.goes_finish) ?_
    rintro _ w₃ ⟨f₄, h₄, hcont₄, done, f₅, f₆, f₇, rfl, hdone, hpause, hjump, helse, hother⟩
    refine Yields.discard' (Yields.mono (Branch.builds_finish h₄ rfl hdone) ?_)
    rintro _ w₄ ⟨f₈, h₈, hcont₈, hend⟩
    exact ⟨f₈, h₈, hcont₂'.trans (hcont₄.trans hcont₈),
      .branchElse htest (hfirst.pause hpause) hjump helse hother hend⟩
  | loop negate cond body ih =>
    exact Loop.builds h hf.vars negate (cond.goes_emit fn vals)
      (fun w' s' f' hs' h' hvars' => cond.builds (hs'.trans hrt) h' hvars') (body.goes_emit fn vals)
      (fun w' f' l hcont' h' => ih hrt h' (hf.continues hcont')) fun _ => ()
  | leave =>
    refine Yields.discard' (ends_function h.function ?_)
    cases hbreaks : s.breaks with
    | nil => exact Yields.complaint h.linked _ _
    | cons l rest =>
      refine Yields.mono (h.jump l) ?_
      rintro _ w' ⟨f', h', hcont, -, hjump⟩
      exact ⟨f', h', hcont, .leave hjump⟩
  | ret a =>
    refine Yields.bind' (a.builds hrt h hf.vars) (fun _ => goes_ret fn _) ?_
    rintro v w₁ ⟨f₁, h₁, hcont₁, hfn, hv⟩
    refine Yields.mono (h₁.ret hfn hv.number (hf.givesBack.within hcont₁.within)) ?_
    rintro _ w₂ ⟨f₂, h₂, hcont₂, hreturns⟩
    rw [(hf.continues hcont₁).ret] at hreturns
    exact ⟨f₂, h₂, hcont₁.trans hcont₂, .ret hv hcont₂.within hreturns⟩

end

end TypedIR
