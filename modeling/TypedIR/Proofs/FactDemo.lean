import TypedIR.Proofs.SelfCalls
import Mathlib.Data.Nat.Factorial.Basic

/-
  The demo that multiplies the numbers up to its argument.

  The function calls itself with a number that is one less, until the number is one or less.
  Each of its calls multiplies in 64 bits; reducing every product gives what reducing the
  factorial gives (`Demo.factOf_rec`). A call with `n` nests `n` deep, the outermost call
  included, so it fails exactly where that is more than the engine allows
  (`Demo.factAt`), and what each call comes to is proved by induction on its number.
-/

namespace TypedIR

open Func (Reads)
open Workspace (Goes)

namespace Demo

open BuildM

/-! ## What it computes -/

section

variable {target : Target} {limit : Int} {depth : Nat} {x : Int}

def factOf (x : Int) : Int := if x ≤ 1 then 1 else (x.toNat.factorial : Int).bmod (2 ^ 64)

/-- What a call that is nested so deeply comes to: each further call goes one deeper. -/
def factAt (limit : Int) (depth : Nat) (x : Int) : Except Cause Int :=
  if x ≤ 1 ∨ depth + x ≤ limit + 1 then .ok (factOf x) else .error (.depthLimit limit)

theorem factOf_range (x : Int) : -2 ^ 63 ≤ factOf x ∧ factOf x < 2 ^ 63 := by
  unfold factOf
  split
  · omega
  · have hlow := Int.le_bmod (x := (x.toNat.factorial : Int)) (m := 2 ^ 64) (by decide)
    have hhigh := Int.bmod_lt (x := (x.toNat.factorial : Int)) (m := 2 ^ 64) (by decide)
    norm_num at hlow hhigh ⊢
    omega

theorem factOf_modEq (hx : 0 ≤ x) : Int.ModEq (2 ^ 64) (factOf x) x.toNat.factorial := by
  unfold factOf
  split
  · next h =>
    have hsmall : x.toNat = 0 ∨ x.toNat = 1 := by omega
    rcases hsmall with h | h <;> rw [h] <;> rfl
  · exact Int.bmod_emod

theorem factOf_rec (hx : 1 < x) :
    (Builtin.int64.rep target).wrap (x * factOf (x - 1)) = factOf x := by
  have hrep := (Builtin.counts_int64.isInteger target).isWhole
  refine ((hrep.eq_wrap_iff _ _).mpr ⟨holds_int64.mpr (factOf_range x), ?_⟩).symm
  have hfact : (x.toNat.factorial : Int) = x * ((x - 1).toNat.factorial : Int) := by
    have hsucc : x.toNat = (x - 1).toNat + 1 := by omega
    rw [hsucc, Nat.factorial_succ]
    push_cast
    rw [show (((x - 1).toNat : Int) + 1) = x by omega]
  have hmod := (factOf_modEq (x := x - 1) (by omega)).mul_left x
  rw [← hfact] at hmod
  exact (factOf_modEq (by omega)).trans hmod.symm

theorem factAt_rec (target : Target) (hx : 1 < x) : factAt limit depth x =
    (if limit ≤ depth then .error (.depthLimit limit) else factAt limit (depth + 1) (x - 1)) >>=
      fun y => pure ((Builtin.int64.rep target).wrap (x * y)) := by
  unfold factAt
  by_cases hdeep : limit ≤ depth
  · rw [if_pos hdeep, if_neg (by omega)]
    rfl
  rw [if_neg hdeep]
  by_cases hfits : (depth : Int) + x ≤ limit + 1
  · rw [if_pos (.inr hfits), if_pos (.inr (by push_cast; omega))]
    exact congrArg Except.ok (factOf_rec hx).symm
  · rw [if_neg (by omega), if_neg (by push_cast; omega)]
    rfl

theorem factAt_holds {y : Int} (h : factAt limit depth x = .ok y) :
    (Builtin.int64.rep target).Holds y := by
  unfold factAt at h
  split at h
  · exact Except.ok.inj h ▸ holds_int64.mpr (factOf_range x)
  · cases h

end

/-! ## Its code -/

def fact : Demo :=
  { name := "fact", summary := "recursive factorial", sample := ["10"],
    params := [.int64], ret := .int64, body := factBody }

theorem ofName_fact : ofName? "fact" = some fact := by rfl

/-- The code of the demo behind `f`: small numbers return, and then come the call with the
number before, the product and its return. -/
def FactBuilt (c : Setting) (id : FuncId) (fn : FnId) (f : Func) (n : Val) (f' : Func) : Prop :=
  let r := Builtin.int64.rep c.target
  ∃ f₁ f₂ f₃ f₄ m y p, (f.Executes f₁ (fun _ : Fin 1 => n) (fun _ => r) [] fun _ σ =>
      if σ 0 ≤ 1 then some (.returned 1) else some (.next σ)) ∧
    (f₁.Gives c f₂ m r fun regs l => ∃ x, Reads r n.id x regs ∧ l = pure (r.wrap (x - 1))) ∧
    f₂.Asks f₃ c id m y r r r ∧
    (f₃.Gives c f₄ p r fun regs l => ∃ x z, Reads r n.id x regs ∧ Reads r y z regs ∧
      l = pure (r.wrap (x * z))) ∧
    f₄.Within f' ∧ f.Variable c fn n r ∧
    ∀ {e : Engine} {t : Activation} {m : Machine} {regs : Array Word} {z}, e.maxSteps ≤ 0 →
      f'.Within t.func → t.func.Runs → m.Stands t f₄.insns.size regs → Reads r p z regs →
        m.Returns e t (Word.ofInt (r.wrap z))

variable {w : Workspace} {c : Setting} {rt : RuntimeId} {fn : FnId} {s : Function} {f : Func}
  {vs : List Val}

theorem relates_le {target : Target} {x : Int} (hx : (Builtin.int64.rep target).Holds x) :
    Opcode.le.relates (((Builtin.int64.rep target).common (Builtin.int64.rep target)).wrap x)
      (((Builtin.int64.rep target).common (Builtin.int64.rep target)).wrap
        ((Builtin.int64.rep target).wrap (1 : Int64).toInt)) = decide (x ≤ 1) := by
  have hone : (Builtin.int64.rep target).wrap (1 : Int64).toInt = 1 := wrap_int64 (by decide)
  rw [show (Builtin.int64.rep target).common (Builtin.int64.rep target) = Builtin.int64.rep target from rfl,
    hone, (Builtin.counts_int64.isInteger target).wrap_eq hx, wrap_int64 (x := 1) (by omega)]
  rfl

theorem goes_ifThen (fn : FnId) (v : Val) {body : BuildM Unit} (h : Leaves Goes body) :
    Leaves Goes (ifThen fn v body) :=
  .bind' (Branch.goes_thenDo _ h) fun b => .bind' b.goes_finish fun _ => .pure' _

theorem factGuard_builds (h : w.Drafts c fn s f) {n : Val}
    (hvars : f.Variables c fn (fun _ : Fin 1 => n) fun _ => Builtin.int64.rep c.target)
    (htyped : n.Typed c s.runtime f) (hret : s.ret.Integral c s.runtime (Builtin.int64.rep c.target))
    (hback : f.GivesBack c) (hresult : f.ret = Builtin.int64.rep c.target) :
    (do
      let v ← rel .le n (num 1)
      let problem ← ifThen fn v (BuildM.ret fn (num 1))
      check problem).Builds w c fn s f fun _ f' =>
        f.Executes f' (fun _ : Fin 1 => n) (fun _ => Builtin.int64.rep c.target) s.breaks fun _ σ =>
          if σ 0 ≤ 1 then some (.returned 1) else some (.next σ) := by
  have hone : (Builtin.int64.rep c.target).wrap 1 = 1 := wrap_int64 (by omega)
  refine Yields.bind' (h.compareNumber (hvars.fn 0) (hvars.number 0) (htyped.integral (hvars.number 0))
    Opcode.le.name .le 1) (fun v => .bind' (goes_ifThen fn v (goes_ret fn _)) fun _ => goes_check _) ?_
  rintro v w₁ ⟨f₁, h₁, hcont₁, hvfn, hv⟩
  have hcond : f.Gives c f₁ v.id .bool fun regs l => ∃ σ : Valuation 1,
      σ.In (fun _ => n) (fun _ => Builtin.int64.rep c.target) regs ∧
        l = pure (if σ 0 ≤ 1 then 1 else 0) := by
    refine hv.weaken ?_
    rintro regs l ⟨σ, hσ, hl⟩
    refine ⟨σ 0, hσ 0, ?_⟩
    rw [hl, relates_le (hσ 0).1]
    simp only [decide_eq_true_eq]
  have hbody : ∀ (w' : Workspace) (f' : Func), w'.Drafts c fn s f' → f₁.Continues f' →
      (BuildM.ret fn (num 1)).Builds w' c fn s f' fun _ f'' =>
        f'.Executes f'' (fun _ : Fin 1 => n) (fun _ => Builtin.int64.rep c.target) s.breaks fun _ _ =>
          some (.returned 1) := by
    intro w' f' h' hcont'
    have hret' : (BuildM.ret fn (num 1)).Builds w' c fn s f' fun _ f'' =>
        f'.Executes f'' (fun _ : Fin 1 => n) (fun _ => Builtin.int64.rep c.target) s.breaks fun _ _ =>
          some (.returned (f'.ret.wrap ((Builtin.int64.rep c.target).wrap (1 : Int64).toInt))) :=
      h'.retNumber hret (hback.within (hcont₁.trans hcont').within) 1
    rwa [(hcont₁.trans hcont').within.header.ret, hresult, show (1 : Int64).toInt = 1 by decide, hone,
      hone] at hret'
  refine Yields.bind' (Branch.builds h₁ hvfn hvars hcond false (goes_ret fn _) hbody Prod.fst)
    (fun _ => goes_check _) ?_
  rintro problem w₂ ⟨f₂, h₂, hcont₂, hexec⟩
  refine yields_check h₂.linked problem ⟨f₂, h₂, hcont₁.trans hcont₂, ?_⟩
  convert hexec using 2
  funext σ
  by_cases hle : σ 0 ≤ 1
  · rw [if_pos hle, if_pos hle]
    rfl
  · rw [if_neg hle, if_neg hle]
    rfl

theorem fact_builds (h : w.Drafts c fn s f) (ho : fact.Opens c rt fn s f vs) :
    (factBody rt fn vs).Builds w c fn s f fun _ f' => FactBuilt c s.id fn f (vs.getD 0 {}) f' := by
  obtain rfl := ho.runtime
  obtain ⟨n, rfl⟩ : ∃ n, vs = [n] := List.length_eq_one_iff.mp ho.owns.each.length_eq
  have hn : f.Variable c fn n (Builtin.int64.rep c.target) := (List.forall₂_cons.mp ho.owns.each).1
  have htyped : n.Typed c s.runtime f := ho.typed n List.mem_cons_self
  have hvars : f.Variables c fn (fun _ : Fin 1 => n) fun _ => Builtin.int64.rep c.target :=
    ⟨fun _ => hn.fn, fun _ => hn.number, fun _ => Subsingleton.elim _ _, fun hv => hn.assignable _ hv⟩
  have hints := Builtin.counts_int64.isInteger c.target
  obtain ⟨g, hsig, hparams, hresult⟩ := ho.signature
  have hgoret : ∀ v, Leaves Goes (BuildM.ret fn (.value v)) := fun v => goes_ret fn _
  have hgomul : ∀ r, Leaves Goes (do BuildM.ret fn (.value (← arith .mul n (.value r)))) := fun r =>
    .bind' (goes_binary _ _ _ _) hgoret
  have hgocall : ∀ m, Leaves Goes (do
      let r ← callOther fn (some fn) [.value m]
      BuildM.ret fn (.value (← arith .mul n (.value r)))) := fun m =>
    .bind' (goes_callOther fn _ _) hgomul
  have hret : s.ret.Integral c s.runtime (Builtin.int64.rep c.target) :=
    ho.result ▸ Builtin.counts_int64.integral c s.runtime
  have hguard := factGuard_builds h hvars htyped hret ho.givesBack ho.ret
  have hparts : factBody s.runtime fn [n] = (do
      let v ← rel .le n (num 1)
      let problem ← ifThen fn v (BuildM.ret fn (num 1))
      check problem) >>= fun _ => (do
      let m ← arith .sub n (num 1)
      let r ← callOther fn (some fn) [.value m]
      BuildM.ret fn (.value (← arith .mul n (.value r)))) := by
    simp only [factBody, bind_assoc]
    rfl
  rw [hparts]
  refine Yields.bind' hguard (fun _ => .bind' (goes_binary _ _ _ _) hgocall) ?_
  rintro _ w₁ ⟨f₁, h₁, hcont₁, hexec⟩
  have hn₁ := hn.continues hcont₁
  refine Yields.bind' (h₁.binaryNumber (r := Builtin.int64.rep c.target) hn₁.fn hn₁.number
    ((htyped.within hcont₁.within).integral hn₁.number) Opcode.sub.name .sub 1 rfl) hgocall ?_
  rintro m w₂ ⟨f₂, h₂, hcont₂, hmfn, hm⟩
  have hcont₂' := hcont₁.trans hcont₂
  refine Yields.bind' (h₂.callItself ho.count hmfn hm.number (hcont₂'.within.header.sig ▸ hsig)
    hparams (Builtin.firm c.ordered .int64) hints (hresult ▸ Builtin.firm c.ordered .int64) hints)
    hgomul ?_
  rintro y w₃ ⟨f₃, h₃, hcont₃, hyfn, hy⟩
  have hcont₃' := hcont₂'.trans hcont₃
  have hn₃ := hn.continues hcont₃'
  refine Yields.bind' (h₃.binary hn₃.fn hn₃.number hyfn (hy.number hints) Opcode.mul.name .mul
    (r := Builtin.int64.rep c.target) rfl) hgoret ?_
  rintro p w₄ ⟨f₄, h₄, hcont₄, hpfn, hp⟩
  have hcont₄' := hcont₃'.trans hcont₄
  refine Yields.mono (h₄.ret hpfn hp.number (ho.givesBack.within hcont₄'.within)) ?_
  rintro _ w₅ ⟨f₅, h₅, hcont₅, hreturns⟩
  refine ⟨f₅, h₅, hcont₄'.trans hcont₅, f₁, f₂, f₃, f₄, m.id, y.id, p.id, ho.breaks ▸ hexec, ?_, hy,
    ?_, hcont₅.within, hn, ?_⟩
  · refine hm.weaken fun regs l ⟨x, hx, hl⟩ => ⟨x, hx, hl.trans ?_⟩
    rw [hints.wrap_eq hx.1, hints.wrap_eq (hints.holds_wrap _), wrap_int64 (x := (1 : Int64).toInt) (by decide)]
    rfl
  · refine hp.weaken fun regs l ⟨x, z, hx, hz, hl⟩ => ⟨x, z, hx, hz, hl.trans ?_⟩
    rw [hints.wrap_eq hx.1, hints.wrap_eq hz.1]
    rfl
  · rw [hcont₄'.within.header.ret, ho.ret] at hreturns
    exact hreturns

theorem FactBuilt.within {id : FuncId} {n : Val} {f' : Func} (h : FactBuilt c id fn f n f') : f.Within f' := by
  obtain ⟨f₁, f₂, f₃, f₄, a, y, p, hguard, hless, hasks, hmul, hw₄, -, -⟩ := h
  have hasked := hasks.continues (Builtin.counts_int64.isInteger c.target)
  exact hguard.within.trans (hless.continues.within.trans (hasked.within.trans
    (hmul.continues.within.trans hw₄)))

/-! ## Its calls -/

theorem words_fact {target : Target} {x : Int} (hx : -2 ^ 63 ≤ x ∧ x < 2 ^ 63) :
    Opens.words fact target [x] = [Word.ofInt x] := by
  show [Word.ofInt ((Builtin.int64.rep target).wrap x)] = _
  rw [wrap_int64 hx]

theorem FactBuilt.answers {f' g : Func} {e : Engine} (hb : FactBuilt c s.id fn f (vs.getD 0 {}) f')
    (ho : fact.Opens c rt fn s f vs) (hg : f'.Compiles g) (hfunc : e.findFunc s.id = .ok g)
    (hlimit : e.maxSteps ≤ 0) (k : Nat) {depth : Nat} {x : Int} (hk : x.toNat = k)
    (hx : -2 ^ 63 ≤ x ∧ x < 2 ^ 63) :
    e.Answers g [Word.ofInt x] depth (factAt e.maxDepth depth x) := by
  obtain ⟨f₁, f₂, f₃, f₄, a, y, p, hguard, hless, hasks, hmul, hw₄, hvar, hback⟩ := id hb
  have hints := Builtin.counts_int64.isInteger c.target
  -- everything is in the function that runs
  have hwg₄ := hw₄.trans hg.within
  have hwg₃ := hmul.continues.within.trans hwg₄
  have hwg₂ := (hasks.continues hints).within.trans hwg₃
  have hwg₁ := hless.continues.within.trans hwg₂
  have hwg := hguard.within.trans hwg₁
  have hlen : g.params.length = 1 := by
    rw [hwg.header.params, ho.params]
    rfl
  have hret : g.ret.cls ≠ .void := by
    rw [hwg.header.ret, ho.ret]
    nofun
  have hn₁ := hvar.number.within hguard.within
  have hn₂ := hn₁.within hless.continues.within
  induction k using Nat.strong_induction_on generalizing depth x with
  | _ k ih =>
    rintro t m regs rfl rfl hawaited hat hentered
    have hread := ho.reads hwg ((words_fact hx).symm ▸ hentered) (i := 0) rfl rfl
    rw [wrap_int64 hx] at hread
    have hexits := hguard.exits (σ := fun _ => x) 0 hlimit hwg₁ hg.runs
      ⟨regs, ⟨ho.empty.symm ▸ hat, hentered.fits, hawaited⟩, fun _ => hread⟩
    by_cases hsmall : x ≤ 1
    · have hone : factAt e.maxDepth t.depth x = .ok 1 := by
        unfold factAt factOf
        rw [if_pos (.inl hsmall), if_pos hsmall]
      rw [if_pos hsmall] at hexits
      rw [hone]
      exact hexits
    rw [if_neg hsmall] at hexits
    rw [factAt_rec c.target (by omega)]
    refine .after hexits ?_
    rintro m₁ ⟨regs₁, hm₁, hσ₁⟩
    have hx₁ := hσ₁ 0
    refine .after (hless.computes ⟨x, hx₁, rfl⟩ e t m₁ hlimit hwg₂ hg.runs hm₁) ?_
    rintro m₂ ⟨regs₂, hm₂, hread₂, hkept₂⟩
    have hx₂ := hn₁.reads hx₁ hkept₂
    refine .given (hasks.does hints hlimit hwg₃ hg.runs (ho.callable hwg hg) hfunc hlen hret hm₂ hread₂
      (fun _ => factAt_holds) fun _ => ?_) ?_
    · rw [hints.wrap_eq (hints.holds_wrap _), wrap_int64 (by omega)]
      exact ih (x - 1).toNat (by omega) rfl (by omega)
    rintro z m₃ ⟨regs₃, hm₃, hread₃, hkept₃⟩
    refine .after (hmul.computes ⟨x, z, hn₂.reads hx₂ hkept₃, hread₃, rfl⟩ e t m₃ hlimit hwg₄ hg.runs
      hm₃) ?_
    rintro m₄ ⟨regs₄, hm₄, hread₄, -⟩
    have hreturns := hback hlimit hg.within hg.runs hm₄ hread₄
    rwa [hints.wrap_eq (hints.holds_wrap _)] at hreturns

theorem fact_counts : ∀ b ∈ fact.ret :: fact.params, b.Counts := by
  intro b hb
  obtain rfl : b = .int64 := by simpa [fact] using hb
  exact Builtin.counts_int64

theorem goes_factBody (rt : RuntimeId) (fn : FnId) (vs : List Val) : Leaves Goes (factBody rt fn vs) :=
  .bind' (goes_compare _ _ _ _) fun _ => .bind' (goes_ifThen fn _ (goes_ret fn _)) fun _ =>
    .bind' (goes_check _) fun _ => .bind' (goes_binary _ _ _ _) fun _ =>
      .bind' (goes_callOther fn _ _) fun _ => .bind' (goes_binary _ _ _ _) fun _ => goes_ret fn _

section

variable {w w' : Workspace} {rt : RuntimeId} {r : Runtime} {d : Demo} {uid : String} {fn : FnId}

/-- The demo gives the factorial of its argument, as a signed number of 64 bits, and one if the
argument is one or less. If the argument is greater than the depth to which calls may be nested,
and greater than one, a call fails. -/
theorem fact_multiplies (hd : ofName? "fact" = some d) (hw : w.Reached) (hl : w.Linked)
    (hr : w.runtimes[rt]? = some r) (husual : r.engine.target.Usual)
    (hbuild : ((d.build rt uid).run w : Except Stop FnId × Workspace) = (.ok fn, w')) :
    ∃ s g, (∃ r', w'.Calls fn s r' g) ∧ ∀ (w₁ : Workspace) (r₁ : Runtime), w₁.Calls fn s r₁ g →
      r₁.engine.maxSteps ≤ 0 → 0 < r₁.engine.maxDepth → ∀ (a : HostValue) (x : Int),
        a.number? = some x → -2 ^ 63 ≤ x ∧ x < 2 ^ 63 →
          (x ≤ 1 ∨ x ≤ r₁.engine.maxDepth →
            (∃ m, r₁.engine.Finishes s.id [Word.ofInt x] (.result (Word.ofInt (factOf x))) m) ∧
            ((r₁.engine.applied runFuel s.id [Word.ofInt x]).1 ≠ .unfinished →
              ((call fn [a]).run w₁ : Except Stop HostValue × Workspace).1 =
                .ok (.int .int64 (factOf x)))) ∧
          (1 < x ∧ r₁.engine.maxDepth < x → ∃ err : Failure, err.cause.code = 2004 ∧
            (∃ m, r₁.engine.Finishes s.id [Word.ofInt x] (.halted (.failed err)) m) ∧
            ((r₁.engine.applied runFuel s.id [Word.ofInt x]).1 ≠ .unfinished →
              ((call fn [a]).run w₁ : Except Stop HostValue × Workspace).1 =
                .error (.problem (.engine "call" err)))) := by
  obtain rfl : fact = d := Option.mem_unique ofName_fact hd
  have hends := fact.ends_build uid hw.founded hl hr husual fact_counts (goes_factBody rt)
    fun w c fn s f vs h ho => fact_builds h ho
  obtain ⟨c, s, f, vs, f', g, r', ho, hcont, hb, hg, hcalls⟩ := hends.ok_of_run hbuild
  refine ⟨s.finished, g, ⟨r', hcalls⟩, fun w₁ r₁ hcalls₁ hlimit hdepth a x ha hx => ?_⟩
  have hwithin := hb.within.trans hg.within
  have hlen : g.params.length = [Word.ofInt x].length := by
    rw [hwithin.header.params, ho.params]
    rfl
  obtain ⟨m, regs, hat, hentered, hrun⟩ :=
    Engine.applied_eq_run hcalls₁.func (ho.callable hwithin hg) hdepth hlen
  have hbrings := hb.answers ho hg hcalls₁.func hlimit x.toNat rfl hx ⟨g, 1, 0, []⟩ m regs rfl rfl
    (.outermost rfl) hat hentered
  have hends : ∀ {ending : RunEnd}, m.Stops r₁.engine ending → ending ≠ .unfinished →
      (∃ m, r₁.engine.Finishes s.id [Word.ofInt x] ending m) ∧
        ((r₁.engine.applied runFuel s.id [Word.ofInt x]).1 ≠ .unfinished →
          ((call fn [a]).run w₁ : Except Stop HostValue × Workspace).1 = s.finished.shown ending) := by
    intro ending hstops hend
    have hargs : [a].map (·.number?) = [x].map some := by rw [List.map_singleton, ha]; rfl
    have hends := ho.ends (fun b hb => fact_counts b (List.mem_cons_of_mem _ hb)) hcalls₁ hargs rfl
      ((words_fact hx).symm ▸ hrun) hstops hend
    rwa [words_fact hx] at hends
  unfold factAt at hbrings
  refine ⟨fun hfits => ?_, fun hdeep => ?_⟩
  · rw [if_pos (by push_cast; omega)] at hbrings
    have hdone := hends hbrings nofun
    rw [ho.shown_result Builtin.counts_int64 nofun rfl (holds_int64.mpr (factOf_range x))] at hdone
    exact hdone
  · rw [if_neg (by push_cast; omega)] at hbrings
    exact ⟨_, rfl, hends hbrings nofun⟩

end

def factWorkspace : Workspace := idleWorkspace.after (fact.build 0 "fact")

theorem build_fact : ((fact.build 0 "fact").run idleWorkspace : Except Stop FnId × Workspace) =
    (.ok 0, factWorkspace) := Workspace.run_after (by decide +kernel)

/-- A call with five gives 120. -/
theorem fact_of_five : ofName? "fact" = some fact ∧ idleWorkspace.Reached ∧ idleWorkspace.Linked ∧
    (∃ r : Runtime, idleWorkspace.runtimes[0]? = some r ∧ r.engine.target.Usual) ∧
    ((fact.build 0 "fact").run idleWorkspace : Except Stop FnId × Workspace) = (.ok 0, factWorkspace) ∧
    ((call 0 [.int .int64 5]).run factWorkspace : Except Stop HostValue × Workspace).1 =
      .ok (.int .int64 120) := by
  refine ⟨ofName_fact, reached_idleWorkspace, linked_idleWorkspace,
    ⟨_, runtime_idleWorkspace, usual_amd64⟩, build_fact, ?_⟩
  obtain ⟨s, g, ⟨r, hcalls⟩, hmultiplies⟩ := fact_multiplies ofName_fact reached_idleWorkspace
    linked_idleWorkspace runtime_idleWorkspace usual_amd64 build_fact
  obtain ⟨hfunction, hengine⟩ :
      (∃ s ∈ factWorkspace.functions[(0 : Nat)]?, s.runtime = 0 ∧ s.id = 1) ∧
      ∃ r ∈ factWorkspace.runtimes[(0 : Nat)]?, r.engine.maxSteps ≤ 0 ∧ 5 ≤ r.engine.maxDepth ∧
        (r.engine.applied runFuel 1 [Word.ofInt 5]).1.answer.toBool = true := by decide +kernel
  obtain ⟨s', hs', hruntime, hid⟩ := hfunction
  obtain rfl := Option.mem_unique hcalls.function hs'
  obtain ⟨r', hr', hlimit, hdepth, hdone⟩ := hengine
  obtain rfl := Option.mem_unique hcalls.runtime (hruntime.symm ▸ hr')
  have hended := ((hmultiplies factWorkspace r hcalls hlimit (by omega) (.int .int64 5) 5 rfl
    ⟨by decide, by decide⟩).1 (.inr hdepth)).2
  refine hended fun hrun => ?_
  rw [hid] at hrun
  rw [hrun] at hdone
  exact nomatch hdone

end Demo

end TypedIR
