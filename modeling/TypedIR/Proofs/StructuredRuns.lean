import TypedIR.Proofs.StructuredPrograms

/-
  Runs of structured code.

  The code of a statement runs as the statement does: where the statement goes on, steps
  come to the end of its code with the variables it leaves; where it leaves the loop
  around it, they come to the end of that loop; where it returns or fails, the run stops;
  and where it needs more turns than its fuel allows, the run lasts for as many steps at
  least (`Machine.Exits`, `Func.Executes`). So a statement that never ends has a run
  that never ends.

  There is one lemma for each way to put code together. They say nothing about the
  builder: of each piece only the instructions around it matter.
-/

namespace TypedIR

open Stmt (given andThen turns)

variable {k : Nat}

/-! ## How a run of a statement goes on -/

def Func.Aims (g : Func) (l : LabelId) (pos : Nat) : Prop := g.label? l = some (pos : Int)

def Machine.Here (m : Machine) (t : Activation) (vals : Fin k → Val) (reps : Fin k → Rep) (pc : Nat)
    (σ : Valuation k) : Prop :=
  ∃ regs, m.Stands t pc regs ∧ σ.In vals reps regs

/-- The run goes on as the statement ends. The code of the statement ends at `after`,
and the loops around it at `breaks`; without an end there are at least so many steps. -/
def Machine.Exits (m : Machine) (e : Engine) (t : Activation) (vals : Fin k → Val) (reps : Fin k → Rep)
    (breaks : List Label) (after steps : Nat) : Option (Exit k) → Prop
  | none => m.Lasts e steps
  | some (.next σ) => m.Comes e fun m' => m'.Here t vals reps after σ
  | some (.left σ) => ∃ l ∈ breaks.head?, ∃ pos, t.func.Aims l.id pos ∧
      m.Comes e fun m' => m'.Here t vals reps pos σ
  | some (.returned n) => m.Returns e t (Word.ofInt n)
  | some (.failed c) => m.Stops e (.halted (.failed { cause := c, function := t.func.name }))

namespace Func

theorem Aims.unique {g : Func} {l : LabelId} {pos pos' : Nat} (h : g.Aims l pos)
    (h' : g.Aims l pos') : pos = pos' :=
  Int.ofNat.inj (Option.mem_unique h h')

theorem Runs.aims' {g : Func} (h : g.Runs) {pc : Nat} {i : Insn} (hi : g.insns[pc]? = some i)
    (hb : i.op.isBranch = true) : ∃ pos, g.Aims i.label pos ∧ g.target? i = some pos := by
  obtain ⟨pos, hpos⟩ := h.aims hi hb
  refine ⟨pos, ?_, hpos⟩
  unfold target? at hpos
  unfold Aims
  rcases hl : g.label? i.label with _ | at' <;> rw [hl] at hpos
  · cases hpos
  · dsimp only at hpos
    split at hpos
    · cases hpos
    · next hneg =>
      obtain rfl := Option.some.inj hpos
      rw [Int.toNat_of_nonneg (Int.not_lt.mp hneg)]

end Func

namespace Machine

variable {e : Engine} {m : Machine} {t : Activation} {vals : Fin k → Val} {reps : Fin k → Rep}
  {breaks : List Label} {pc after mid steps : Nat} {σ : Valuation k} {x : Option (Exit k)}

theorem Here.label (h : m.Here t vals reps pc σ) (hlimit : e.maxSteps ≤ 0) {l : LabelId}
    (hi : t.func.insns[pc]? = some { op := .label, label := l }) :
    ∃ m', Steps e 1 m m' ∧ m'.Here t vals reps (pc + 1) σ := by
  obtain ⟨regs, hm, hσ⟩ := h
  obtain ⟨m', hs, hm'⟩ := hm.at'.label hlimit hi
  exact ⟨m', hs, regs, ⟨hm', hm.fits, hm.awaited⟩, hσ⟩

theorem Here.jump (h : m.Here t vals reps pc σ) (hlimit : e.maxSteps ≤ 0) (hruns : t.func.Runs)
    {l : LabelId} (hi : t.func.insns[pc]? = some { op := .branch, label := l }) :
    ∃ pos, t.func.Aims l pos ∧ m.Comes e fun m' => m'.Here t vals reps pos σ := by
  obtain ⟨regs, hm, hσ⟩ := h
  obtain ⟨pos, hpos, htarget⟩ := hruns.aims' hi rfl
  exact ⟨pos, hpos, (hm.at'.branch hlimit rfl hi htarget).mono fun m' hm' =>
    ⟨regs, ⟨hm', hm.fits, hm.awaited⟩, hσ⟩⟩

namespace Exits

theorem after_steps {post : Machine → Prop} (h : m.Comes e post)
    (h' : ∀ m', post m' → m'.Exits e t vals reps breaks after steps x) :
    m.Exits e t vals reps breaks after steps x := by
  obtain ⟨n, m', hs, hm'⟩ := h
  have hrest := h' m' hm'
  match x with
  | none => exact (Lasts.after hs hrest).mono (Nat.le_add_left _ _)
  | some (.next σ) => exact Comes.trans ⟨n, m', hs, rfl⟩ fun _ h => h ▸ hrest
  | some (.left σ) =>
    obtain ⟨l, hl, pos, hpos, hcomes⟩ := hrest
    exact ⟨l, hl, pos, hpos, Comes.trans ⟨n, m', hs, rfl⟩ fun _ h => h ▸ hcomes⟩
  | some (.returned r) => exact Returns.after ⟨n, m', hs, rfl⟩ fun _ h => h ▸ hrest
  | some (.failed c) => exact Stops.after ⟨n, m', hs, rfl⟩ fun _ h => h ▸ hrest

theorem after_step {m' : Machine} (h : Steps e 1 m m')
    (h' : m'.Exits e t vals reps breaks after steps x) :
    m.Exits e t vals reps breaks after (steps + 1) x := by
  match x with
  | none => exact Nat.add_comm 1 steps ▸ Lasts.after h h'
  | some x =>
    have hends : m.Exits e t vals reps breaks after steps (some x) :=
      after_steps ⟨1, m', h, rfl⟩ fun _ hm' => hm' ▸ h'
    cases x <;> exact hends

theorem given {α : Type} {y : Except Cause α} {post : α → Machine → Prop}
    {then' : α → Option (Exit k)} (h : m.Does e t.func.name y post)
    (h' : ∀ a m', post a m' → m'.Exits e t vals reps breaks after steps (then' a)) :
    m.Exits e t vals reps breaks after steps (Stmt.given y then') := by
  cases y with
  | ok a => exact after_steps h (h' a)
  | error c => exact h

theorem andThen {then' : Valuation k → Option (Exit k)}
    (h : m.Exits e t vals reps breaks mid steps x)
    (h' : ∀ σ (m' : Machine), m'.Here t vals reps mid σ → m'.Exits e t vals reps breaks after steps (then' σ)) :
    m.Exits e t vals reps breaks after steps (Stmt.andThen x then') := by
  match x with
  | none => exact h
  | some (.next σ) => exact after_steps h (h' σ)
  | some (.left σ) => exact h
  | some (.returned r) => exact h
  | some (.failed c) => exact h

theorem moved (h : m.Exits e t vals reps breaks mid steps x)
    (h' : ∀ σ (m' : Machine), m'.Here t vals reps mid σ →
      m'.Comes e fun m'' => m''.Here t vals reps after σ) :
    m.Exits e t vals reps breaks after steps x := by
  have hthen : m.Exits e t vals reps breaks after steps (Stmt.andThen x fun σ => some (.next σ)) :=
    h.andThen h'
  match x with
  | none => exact h
  | some (.next σ) => exact hthen
  | some (.left σ) => exact h
  | some (.returned r) => exact h
  | some (.failed c) => exact h

/-- A loop. Its condition is tested before the body and once more after it; both times
the run goes on at the label in front of the body, or at the end of the loop. -/
theorem turns {cond : Valuation k → Except Cause Bool} {body : Valuation k → Option (Exit k)}
    {l : Label} {top bottom entry fuel : Nat} (hl : t.func.Aims l.id bottom)
    (htop : ∀ (m : Machine) σ, m.Here t vals reps top σ →
      ∃ m' : Machine, Steps e 1 m m' ∧ m'.Here t vals reps entry σ)
    (hbody : ∀ (m : Machine) σ, m.Here t vals reps entry σ →
      m.Exits e t vals reps (l :: breaks) mid fuel (body σ))
    (hagain : ∀ (m : Machine) σ, m.Here t vals reps mid σ → m.Does e t.func.name (cond σ) fun b m' =>
      m'.Here t vals reps (if b then top else bottom) σ)
    (hbottom : ∀ (m : Machine) σ, m.Here t vals reps bottom σ →
      m.Comes e fun m' => m'.Here t vals reps after σ)
    {n : Nat} (hn : n ≤ fuel) (hm : m.Does e t.func.name (cond σ) fun b m' =>
      m'.Here t vals reps (if b then top else bottom) σ) :
    m.Exits e t vals reps breaks after n (Stmt.turns cond body n σ) := by
  induction n generalizing m σ with
  | zero => exact ⟨m, .refl m⟩
  | succ n ih =>
    refine given hm fun b m₁ hm₁ => ?_
    cases b with
    | false => exact hbottom m₁ σ hm₁
    | true =>
      -- the label makes each turn at least one step long
      obtain ⟨m₂, hstep, hm₂⟩ := htop m₁ σ hm₁
      have hends := hbody m₂ σ hm₂
      have hone : m₁.Comes e (· = m₂) := ⟨1, m₂, hstep, rfl⟩
      dsimp only
      rcases hx : body σ with _ | σ' | σ' | r | c <;> rw [hx] at hends
      · exact (Lasts.after hstep hends).mono (Nat.le_trans hn (Nat.le_add_left _ _))
      · refine after_step hstep (after_steps hends fun m' hm' => ?_)
        exact ih (Nat.le_of_succ_le hn) (hagain m' σ' hm')
      · refine after_steps hone ?_
        rintro _ rfl
        obtain ⟨_, ⟨⟩, pos, hpos, hcomes⟩ := hends
        obtain rfl := hl.unique hpos
        exact Comes.trans hcomes fun m' hm' => hbottom m' σ' hm'
      · exact after_steps hone fun _ h => h ▸ hends
      · exact after_steps hone fun _ h => h ▸ hends

end Exits

end Machine

/-! ## Code -/

namespace Func

open Machine (Comes Steps)

variable {c : Setting} {fn : FnId} {f f' f₁ f₂ f₃ f₄ f₅ : Func} {vals : Fin k → Val}
  {reps : Fin k → Rep} {breaks : List Label} {u v : ValueId} {r r' : Rep}
  {x x' : Nat → Valuation k → Option (Exit k)} {y : Valuation k → Except Cause Int}
  {cond : Valuation k → Except Cause Bool} {l : LabelId}

/-- The code from `f` to `f'` runs as a statement does, in every function that was built
from there on; `ends` tells how the statement ends with so much fuel. -/
structure Executes (f f' : Func) (vals : Fin k → Val) (reps : Fin k → Rep) (breaks : List Label)
    (ends : Nat → Valuation k → Option (Exit k)) : Prop where
  within : f.Within f'
  exits : ∀ {e : Engine} {t : Activation} {m : Machine} {σ : Valuation k} (n : Nat), e.maxSteps ≤ 0 →
    f'.Within t.func → t.func.Runs → m.Here t vals reps f.insns.size σ →
      m.Exits e t vals reps breaks f'.insns.size n (ends n σ)

/-- The code from `f` to `f'` tests a condition: if the outcome is `sense` it jumps to
the label, and else it goes on. -/
structure Tests (f f' : Func) (vals : Fin k → Val) (reps : Fin k → Rep) (l : LabelId)
    (sense : Bool) (cond : Valuation k → Except Cause Bool) : Prop where
  within : f.Within f'
  goes : ∀ {e : Engine} {t : Activation} {m : Machine} {σ : Valuation k}, e.maxSteps ≤ 0 → f'.Within t.func →
    t.func.Runs → m.Here t vals reps f.insns.size σ → ∃ pos, t.func.Aims l pos ∧
      m.Does e t.func.name (cond σ) fun b m' =>
        m'.Here t vals reps (if b = sense then pos else f'.insns.size) σ

/-- The label is placed, and nothing else. -/
structure Places (f f' : Func) (l : LabelId) : Prop where
  within : f.Within f'
  size : f'.insns.size = f.insns.size + 1
  aims : f'.Aims l f.insns.size
  insn : f'.insns[f.insns.size]? = some { op := .label, label := l }

/-- A jump to the label, and nothing else. -/
structure Jumps (f f' : Func) (l : LabelId) : Prop where
  within : f.Within f'
  size : f'.insns.size = f.insns.size + 1
  insn : f'.insns[f.insns.size]? = some { op := .branch, label := l }

/-- No code. -/
structure Pauses (f f' : Func) : Prop where
  within : f.Within f'
  size : f'.insns.size = f.insns.size

theorem Plain.places {f : Func} (hf : f.Plain) {l : LabelId} {pos : Int}
    (hl : f.label? l = some pos) (hpos : pos < 0) : f.Places (f.place l) l where
  within := (hf.place hl hpos).within
  size := by simp [Func.place, Func.push]
  aims := Plain.label?_place hl
  insn := by simp [Func.place, Func.push]

theorem Plain.jumps {f : Func} (hf : f.Plain) (l : LabelId) :
    f.Jumps (f.push { op := .branch, label := l }) l where
  within := (hf.push _).within
  size := by simp [Func.push]
  insn := by simp [Func.push]

theorem Plain.pauses {f : Func} (hf : f.Plain) : f.Pauses f.addLabel.2 where
  within := hf.addLabel.within
  size := rfl

theorem Aims.within {f g : Func} {l : LabelId} {pos : Nat} (h : f.Aims l pos) (hw : f.Within g) :
    g.Aims l pos :=
  hw.label h (Int.natCast_nonneg pos)

theorem Places.passes (h : f.Places f' l) {e : Engine} {t : Activation} (hlimit : e.maxSteps ≤ 0)
    (hg : f'.Within t.func) {σ : Valuation k} {m : Machine} (hm : m.Here t vals reps f.insns.size σ) :
    ∃ m', Steps e 1 m m' ∧ m'.Here t vals reps f'.insns.size σ := by
  rw [h.size]
  exact hm.label hlimit (hg.insn h.insn)

theorem Gives.pause {p : Array Word → Except Cause Int → Prop} (h : f.Gives c f₁ v r p)
    (hf : f₁.Continues f₂) (hsize : f₂.insns.size = f₁.insns.size) : f.Gives c f₂ v r p where
  continues := h.continues.trans hf
  number := h.number.within hf.within
  computes {regs l} hp e t m hlimit hg hruns hm := by
    rw [hsize]
    exact h.computes hp e t m hlimit (hf.within.trans hg) hruns hm

theorem Gives.tests (hvars : f.Variables c fn vals reps)
    (hy : f.Gives c f₁ v r fun regs l => ∃ σ : Valuation k, σ.In vals reps regs ∧ l = y σ)
    {z : Int → Int} (hz : ∀ n, (z n != 0) = (n != 0))
    (hu : f₁.Gives c f₂ u r' fun regs l => ∃ n, Reads r v n regs ∧ l = pure (z n))
    {op : Opcode} {sense negate : Bool}
    (hop : op = if sense != negate then .branchIf else .branchIfNot) (l : LabelId) :
    Tests f (f₂.push { op, a := u, label := l, rep := r' }) vals reps l sense fun σ =>
      y σ >>= fun n => pure ((n != 0) != negate) where
  within := (hy.continues.trans (hu.continues.trans (hu.continues.plain.push _))).within
  goes := by
    rintro e t m σ hlimit hg hruns ⟨regs, hm, hσ⟩
    have hpush := hu.continues.plain.push { op, a := u, label := l, rep := r' }
    have hi : t.func.insns[f₂.insns.size]? = some { op, a := u, label := l, rep := r' } :=
      hg.insn (by simp [push])
    have hbranch : op = .branchIf ∨ op = .branchIfNot := by
      rw [hop]
      split
      · exact .inl rfl
      · exact .inr rfl
    have hjump : op.isBranch = true := by rcases hbranch with h | h <;> rw [h] <;> rfl
    obtain ⟨pos, hpos, htarget⟩ := hruns.aims' hi hjump
    have hg₂ := hpush.within.trans hg
    refine ⟨pos, hpos, .bind' (hy.computes ⟨σ, hσ, rfl⟩ e t m hlimit
      (hu.continues.within.trans hg₂) hruns hm) ?_⟩
    rintro n m₁ ⟨regs₁, hm₁, hread, hkept⟩
    refine Comes.trans (hu.computes ⟨n, hread, rfl⟩ e t m₁ hlimit hg₂ hruns hm₁) ?_
    rintro m₂ ⟨regs₂, hm₂, hread₂, hkept₂⟩
    obtain ⟨info, hinfo, -⟩ := hu.number.value
    refine (hm₂.at'.branchOn hruns.inRegisters hlimit hbranch hi htarget (hg₂.value hinfo)
      hread₂.2).mono fun m' hm' => ⟨regs₂, ⟨?_, hm₂.fits, hm₂.awaited⟩, ?_⟩
    · have hsize : (f₂.push { op, a := u, label := l, rep := r' }).insns.size =
          f₂.insns.size + 1 := by simp [push]
      rw [hsize]
      dsimp only at hm'
      rw [hu.number.isInteger.truthy_ofInt hread₂.1, hz] at hm'
      have hsame : ((n != 0) == (op == .branchIf)) = decide (((n != 0) != negate) = sense) := by
        rw [hop]
        cases hn : n != 0 <;> cases sense <;> cases negate <;> rfl
      simpa only [hsame, decide_eq_true_eq] using hm'
    · exact (hvars.continues hy.continues).kept (hvars.kept hσ hkept) hkept₂

namespace Executes

theorem skip (f : Func) : Executes f f vals reps breaks fun _ σ => some (.next σ) where
  within := .refl f
  exits _ _ _ _ hm := Comes.here hm

theorem after_pause (h : Executes f₁ f₂ vals reps breaks x) (hf : f.Pauses f₁) :
    Executes f f₂ vals reps breaks x where
  within := hf.within.trans h.within
  exits n hlimit hg hruns hm := h.exits n hlimit hg hruns (hf.size ▸ hm)

theorem pause (h : Executes f f₁ vals reps breaks x) (hf : f₁.Pauses f₂) :
    Executes f f₂ vals reps breaks x where
  within := h.within.trans hf.within
  exits n hlimit hg hruns hm := hf.size ▸ h.exits n hlimit (hf.within.trans hg) hruns hm

theorem seq (h : Executes f f₁ vals reps breaks x) (h' : Executes f₁ f₂ vals reps breaks x') :
    Executes f f₂ vals reps breaks fun n σ => andThen (x n σ) (x' n) where
  within := h.within.trans h'.within
  exits n hlimit hg hruns hm := (h.exits n hlimit (h'.within.trans hg) hruns hm).andThen
    fun _ _ hm' => h'.exits n hlimit hg hruns hm'

theorem assign (hvars : f.Variables c fn vals reps) (i : Fin k)
    (hy : f.Gives c f₁ v r fun regs l => ∃ σ : Valuation k, σ.In vals reps regs ∧ l = y σ)
    (hw : f₁.Within f₂)
    (hstore : ∀ {regs n}, Reads r v n regs → f₁.Code f₂ regs (pure ()) fun _ regs' =>
      Reads (reps i) (vals i).id ((reps i).wrap n) regs' ∧
        ∀ {w info}, f₁.value? w = some info → w ≠ (vals i).id → regs'[w]? = regs[w]?) :
    Executes f f₂ vals reps breaks fun _ σ =>
      given (y σ) fun n => some (.next (Function.update σ i ((reps i).wrap n))) where
  within := hy.continues.within.trans hw
  exits := by
    rintro e t m σ n hlimit hg hruns ⟨regs, hm, hσ⟩
    refine .given (hy.computes ⟨σ, hσ, rfl⟩ e t m hlimit (hw.trans hg) hruns hm) ?_
    rintro n m₁ ⟨regs₁, hm₁, hread, hkept⟩
    refine Comes.mono (hstore hread e t m₁ hlimit hg hruns hm₁) ?_
    rintro m₂ ⟨regs₂, hm₂, hset, hothers⟩
    refine ⟨regs₂, hm₂, fun j => ?_⟩
    by_cases hj : j = i
    · subst hj
      rwa [Function.update_self]
    · rw [Function.update_of_ne hj]
      have hvars₁ := hvars.continues hy.continues
      obtain ⟨info, hinfo, -⟩ := (hvars₁.number j).value
      have hsame := hothers hinfo fun hid => hj (hvars.distinct hid)
      exact ⟨(hσ j).1, hsame.trans (hvars.kept hσ hkept j).2⟩

theorem ret {result : Rep}
    (hy : f.Gives c f₁ v r fun regs l => ∃ σ : Valuation k, σ.In vals reps regs ∧ l = y σ)
    (hw : f₁.Within f₂)
    (hret : ∀ {e : Engine} {t : Activation} {m : Machine} {regs n}, e.maxSteps ≤ 0 → f₂.Within t.func →
      t.func.Runs → m.Stands t f₁.insns.size regs → Reads r v n regs →
        m.Returns e t (Word.ofInt (result.wrap n))) :
    Executes f f₂ vals reps breaks fun _ σ =>
      given (y σ) fun n => some (.returned (result.wrap n)) where
  within := hy.continues.within.trans hw
  exits := by
    rintro e t m σ n hlimit hg hruns ⟨regs, hm, hσ⟩
    refine .given (hy.computes ⟨σ, hσ, rfl⟩ e t m hlimit (hw.trans hg) hruns hm) ?_
    rintro n m₁ ⟨regs₁, hm₁, hread, -⟩
    exact hret hlimit hg hruns hm₁ hread

theorem leave {l : Label} (h : f.Jumps f' l.id) :
    Executes f f' vals reps (l :: breaks) fun _ σ => some (.left σ) where
  within := h.within
  exits n hlimit hg hruns hm := by
    obtain ⟨pos, hpos, hcomes⟩ := hm.jump hlimit hruns (hg.insn h.insn)
    exact ⟨l, rfl, pos, hpos, hcomes⟩

/-- A conditional statement with one body, which ends at the label of the test. -/
theorem branch (htest : Tests f f₁ vals reps l false cond)
    (hbody : Executes f₁ f₂ vals reps breaks x) (hend : f₂.Places f₃ l) :
    Executes f f₃ vals reps breaks fun n σ =>
      given (cond σ) fun
        | true => x n σ
        | false => some (.next σ) where
  within := htest.within.trans (hbody.within.trans hend.within)
  exits {e t m σ} n hlimit hg hruns hm := by
    have hg₂ := hend.within.trans hg
    have hpass : ∀ σ (m' : Machine), m'.Here t vals reps f₂.insns.size σ →
        m'.Comes e fun m'' => m''.Here t vals reps f₃.insns.size σ :=
      fun σ m' hm' => ⟨1, hend.passes hlimit hg hm'⟩
    obtain ⟨pos, hpos, hdoes⟩ := htest.goes hlimit (hbody.within.trans hg₂) hruns hm
    obtain rfl := (hend.aims.within hg).unique hpos
    refine .given hdoes fun b m' hm' => ?_
    cases b with
    | true => exact (hbody.exits n hlimit hg₂ hruns hm').moved hpass
    | false => exact hpass σ m' hm'

/-- A conditional statement with two bodies: a jump ends the first, then comes the label
of the test, and the label of the jump comes at the end. -/
theorem branchElse {done : LabelId} (htest : Tests f f₁ vals reps l false cond)
    (hbody : Executes f₁ f₂ vals reps breaks x) (hjump : f₂.Jumps f₃ done)
    (helse : f₃.Places f₄ l) (hother : Executes f₄ f₅ vals reps breaks x')
    (hend : f₅.Places f' done) :
    Executes f f' vals reps breaks fun n σ =>
      given (cond σ) fun
        | true => x n σ
        | false => x' n σ where
  within := htest.within.trans <| hbody.within.trans <| hjump.within.trans <|
    helse.within.trans <| hother.within.trans hend.within
  exits {e t m σ} n hlimit hg hruns hm := by
    have hg₅ := hend.within.trans hg
    have hg₄ := hother.within.trans hg₅
    have hg₃ := helse.within.trans hg₄
    have hg₂ := hjump.within.trans hg₃
    have hpass : ∀ σ (m' : Machine), m'.Here t vals reps f₅.insns.size σ →
        m'.Comes e fun m'' => m''.Here t vals reps f'.insns.size σ :=
      fun σ m' hm' => ⟨1, hend.passes hlimit hg hm'⟩
    obtain ⟨pos, hpos, hdoes⟩ := htest.goes hlimit (hbody.within.trans hg₂) hruns hm
    obtain rfl := (helse.aims.within hg₄).unique hpos
    refine .given hdoes fun b m' hm' => ?_
    cases b with
    | true =>
      refine (hbody.exits n hlimit hg₂ hruns hm').moved fun σ m' hm' => ?_
      obtain ⟨pos', hpos', hcomes⟩ := hm'.jump hlimit hruns (hg₃.insn hjump.insn)
      obtain rfl := (hend.aims.within hg).unique hpos'
      exact hcomes.trans (hpass σ)
    | false =>
      refine .after_steps ⟨1, helse.passes hlimit hg₄ hm'⟩ fun m'' hm'' => ?_
      exact (hother.exits n hlimit hg₅ hruns hm'').moved hpass

/-- A loop: the condition is tested in front of the label of the body, and once more
behind the body. -/
theorem loop {top : LabelId} {bottom : Label} (htest : Tests f f₁ vals reps bottom.id false cond)
    (htop : f₁.Places f₂ top) (hbody : Executes f₂ f₃ vals reps (bottom :: breaks) x)
    (hagain : Tests f₃ f₄ vals reps top true cond) (hend : f₄.Places f₅ bottom.id) :
    Executes f f₅ vals reps breaks fun n σ => turns cond (x n) n σ where
  within := htest.within.trans <| htop.within.trans <| hbody.within.trans <|
    hagain.within.trans hend.within
  exits {e t m σ} n hlimit hg hruns hm := by
    have hg₄ := hend.within.trans hg
    have hg₃ := hagain.within.trans hg₄
    have hg₂ := hbody.within.trans hg₃
    have hg₁ := htop.within.trans hg₂
    have hbottom := hend.aims.within hg
    have hagain' : ∀ (m : Machine) σ, m.Here t vals reps f₃.insns.size σ →
        m.Does e t.func.name (cond σ) fun b m' =>
          m'.Here t vals reps (if b then f₁.insns.size else f₄.insns.size) σ := by
      intro m σ hm
      obtain ⟨pos, hpos, hdoes⟩ := hagain.goes hlimit hg₄ hruns hm
      obtain rfl := (htop.aims.within hg₂).unique hpos
      exact hdoes
    refine .turns hbottom (fun m σ hm => htop.passes hlimit hg₂ hm)
      (fun m σ hm => hbody.exits n hlimit hg₃ hruns hm) hagain'
      (fun m σ hm => ⟨1, hend.passes hlimit hg hm⟩) (Nat.le_refl n) ?_
    obtain ⟨pos, hpos, hdoes⟩ := htest.goes hlimit hg₁ hruns hm
    obtain rfl := hbottom.unique hpos
    exact hdoes.mono fun b m' hm' => by cases b <;> exact hm'

end Executes

end Func

end TypedIR
