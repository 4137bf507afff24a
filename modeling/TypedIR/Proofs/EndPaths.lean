import Mathlib.Logic.Relation
import TypedIR.Proofs.FunctionEnds

/-
  Ways to the end: what the check for a reachable end answers.

  The moves of control are read off the instructions (`Func.Edge`). The loop of
  the check comes to an answer (`Func.Sweeps`), because each turn takes one
  position off the backlog, and the answer is whether there is a way from the
  first position to the end of the stream (`Func.endReachable_iff`). The builder
  refuses to compile a function that gives something back exactly when there is
  such a way (`Func.reachable_end_exact`).
-/

namespace TypedIR

namespace Func

variable {f : Func}

/-- The moves of control. It goes on to the next position, unless the instruction
returns or jumps away in any case; a jump goes to where its label is placed, and
nowhere if it is not. -/
inductive Edge (f : Func) : Nat → Nat → Prop
  | next {pc : Nat} {i : Insn} (hi : f.insns[pc]? = some i) (hret : i.op ≠ .ret)
      (haway : i.op ≠ .branch) : Edge f pc (pc + 1)
  | jump {pc target : Nat} {i : Insn} (hi : f.insns[pc]? = some i) (hop : i.op.isBranch = true)
      (hl : f.label? i.label = some (target : Int)) : Edge f pc target

/-- A path of control leads from the start of the stream to its end. -/
def ReachesEnd (f : Func) : Prop := Relation.ReflTransGen f.Edge 0 f.insns.size

theorem target?_eq_some {i : Insn} {target : Nat} :
    f.target? i = some target ↔ f.label? i.label = some (target : Int) := by
  unfold target?
  cases f.label? i.label with
  | none => simp
  | some pos =>
    simp only [Option.some.injEq]
    split
    · simp only [reduceCtorEq, false_iff]
      omega
    · simp only [Option.some.injEq]
      omega

theorem edge_iff {pc pc' : Nat} :
    f.Edge pc pc' ↔ ∃ i, f.insns[pc]? = some i ∧ pc' ∈ f.successors pc i := by
  constructor
  · intro h
    cases h with
    | next hi hret haway =>
      refine ⟨_, hi, ?_⟩
      unfold successors
      split
      · next hop => exact absurd hop hret
      · next hop => exact absurd hop haway
      · exact List.mem_append_right _ (List.mem_singleton_self _)
      · exact List.mem_append_right _ (List.mem_singleton_self _)
      · exact List.mem_singleton_self _
    | jump hi hop hl =>
      refine ⟨_, hi, ?_⟩
      have htarget := Option.mem_toList.mpr (target?_eq_some.mpr hl)
      unfold Opcode.isBranch at hop
      unfold successors
      split at hop
      · next heq => rwa [heq]
      · next heq => rw [heq]; exact List.mem_append_left _ htarget
      · next heq => rw [heq]; exact List.mem_append_left _ htarget
      · cases hop
  · rintro ⟨i, hi, hs⟩
    have hjump : i.op.isBranch = true → pc' ∈ (f.target? i).toList → f.Edge pc pc' :=
      fun hop hm => .jump hi hop (target?_eq_some.mp (Option.mem_toList.mp hm))
    have hnext : i.op ≠ .ret → i.op ≠ .branch → pc' ∈ [pc + 1] → f.Edge pc pc' := by
      intro hret haway hm
      obtain rfl := List.mem_singleton.mp hm
      exact .next hi hret haway
    unfold successors at hs
    split at hs
    · cases hs
    · next hop => exact hjump (by rw [hop]; rfl) hs
    · next hop =>
      rcases List.mem_append.mp hs with hs | hs
      · exact hjump (by rw [hop]; rfl) hs
      · exact hnext (by rw [hop]; nofun) (by rw [hop]; nofun) hs
    · next hop =>
      rcases List.mem_append.mp hs with hs | hs
      · exact hjump (by rw [hop]; rfl) hs
      · exact hnext (by rw [hop]; nofun) (by rw [hop]; nofun) hs
    · next hret haway _ _ => exact hnext hret haway hs

theorem flows_of_path {pc : Nat} (h : Relation.ReflTransGen f.Edge 0 pc) : f.Flows pc := by
  induction h with
  | refl => exact .start
  | tail _ hmove ih =>
    obtain ⟨i, hi, hs⟩ := edge_iff.mp hmove
    exact ih.step hi hs

/-! ## The loop -/

/-- The loop of the check, as it goes without a bound: it takes a position from
the work list, stops if there is no instruction at it, and goes on with the
successors that were not seen before. A derivation is a loop that comes to its
answer. -/
inductive Sweeps (f : Func) : Array Bool → List Nat → Bool → Prop
  | finished {seen : Array Bool} : Sweeps f seen [] false
  | fell {seen : Array Bool} {pc : Nat} {work : List Nat} (hi : f.insns[pc]? = none) :
      Sweeps f seen (pc :: work) true
  | turn {seen seen' : Array Bool} {pc : Nat} {work work' : List Nat} {i : Insn} {answer : Bool}
      (hi : f.insns[pc]? = some i)
      (hvisit : visit seen work (f.successors pc i) = some (seen', work'))
      (h : Sweeps f seen' work' answer) : Sweeps f seen (pc :: work) answer

/-- The loop comes to an answer. What is left to do gets less with each turn, so
as much fuel never runs out. -/
theorem sweeps_reachEnd (hl : f.LabelsInside) {fuel : Nat} {seen : Array Bool} {work : List Nat}
    (hsize : seen.size = f.insns.size + 1) (hfuel : backlog seen work < fuel) :
    ∃ answer, f.reachEnd fuel seen work = some answer ∧ f.Sweeps seen work answer := by
  induction fuel generalizing seen work with
  | zero => omega
  | succ fuel ih =>
    cases work with
    | nil => exact ⟨false, rfl, .finished⟩
    | cons pc work =>
      cases hi : f.insns[pc]? with
      | none => exact ⟨true, by rw [reachEnd, hi], .fell hi⟩
      | some i =>
        obtain ⟨seen', work', hvisit, hv⟩ := hl.visited hsize work hi
        have hless : backlog seen' work' < fuel := by
          rw [hv.total]
          simp only [backlog, List.length_cons] at hfuel ⊢
          omega
        obtain ⟨answer, hreach, hsweeps⟩ := ih (hv.size.trans hsize) hless
        exact ⟨answer, (reachEnd_turn hi hvisit).trans hreach, .turn hi hvisit hsweeps⟩

theorem mem_visit {seen seen' : Array Bool} {work work' succ : List Nat} {s : Nat}
    (hvisit : visit seen work succ = some (seen', work')) (hs : s ∈ work') :
    s ∈ work ∨ s ∈ succ := by
  induction succ generalizing seen work with
  | nil =>
    cases hvisit
    exact .inl hs
  | cons t rest ih =>
    unfold visit at hvisit
    split at hvisit
    · cases hvisit
    · exact (ih hvisit).imp_right (List.mem_cons_of_mem t)
    · rcases ih hvisit with h | h
      · rcases List.mem_cons.mp h with rfl | h
        · exact .inr List.mem_cons_self
        · exact .inl h
      · exact .inr (List.mem_cons_of_mem t h)

/-- A loop that finds the end went a way to it: there is a way to all that is on
the work list. -/
theorem Sweeps.reachesEnd (hl : f.LabelsInside) {seen : Array Bool} {work : List Nat}
    (h : f.Sweeps seen work true)
    (hwork : ∀ s ∈ work, s ≤ f.insns.size ∧ Relation.ReflTransGen f.Edge 0 s) : f.ReachesEnd := by
  generalize hanswer : true = answer at h
  induction h with
  | finished => cases hanswer
  | @fell _ pc _ hi =>
    obtain ⟨hle, hpath⟩ := hwork pc List.mem_cons_self
    have hend : pc = f.insns.size := le_antisymm hle (Array.getElem?_eq_none_iff.mp hi)
    rw [hend] at hpath
    exact hpath
  | @turn _ _ pc _ _ i _ hi hvisit _ ih =>
    refine ih (fun s hs => ?_) hanswer
    rcases mem_visit hvisit hs with hs | hs
    · exact hwork s (List.mem_cons_of_mem pc hs)
    · obtain ⟨-, hpath⟩ := hwork pc List.mem_cons_self
      exact ⟨hl.successors_le hi hs, hpath.tail (edge_iff.mpr ⟨i, hi, hs⟩)⟩

theorem Sweeps.unique {seen : Array Bool} {work : List Nat} {a b : Bool} (h : f.Sweeps seen work a)
    (h' : f.Sweeps seen work b) : a = b := by
  induction h with
  | finished => cases h'; rfl
  | fell hi =>
    cases h' with
    | fell => rfl
    | turn hi' => exact absurd (hi.symm.trans hi') nofun
  | turn hi hvisit _ ih =>
    cases h' with
    | fell hi' => exact absurd (hi'.symm.trans hi) nofun
    | turn hi' hvisit' h' =>
      obtain rfl := Option.mem_unique hi hi'
      obtain ⟨rfl, rfl⟩ := Prod.mk.inj (Option.mem_unique hvisit hvisit')
      exact ih h'

/-- The check answers, and its answer is that of the loop. -/
theorem sweeps_endReachable (hl : f.LabelsInside) :
    ∃ answer, f.endReachable = some answer ∧ f.Sweeps f.firstSeen [0] answer :=
  sweeps_reachEnd hl size_firstSeen (by rw [backlog_firstSeen]; exact Nat.lt_succ_self _)

theorem endReachable_iff (hl : f.LabelsInside) : f.endReachable = some true ↔ f.ReachesEnd := by
  obtain ⟨answer, hcheck, hsweeps⟩ := sweeps_endReachable hl
  rw [hcheck]
  constructor
  · rintro ⟨⟩
    refine hsweeps.reachesEnd hl fun s hs => ?_
    obtain rfl := List.mem_singleton.mp hs
    exact ⟨Nat.zero_le _, .refl⟩
  · intro h
    cases answer with
    | true => rfl
    | false =>
      have hclosed := closed_of_endReachable hl (by rw [hcheck]; nofun)
      exact (Nat.lt_irrefl _ (hclosed _ (flows_of_path h))).elim

end Func

/-! ## Compiling -/

theorem EngineM.ends_defaultReturn_open {e : Engine} {id : FuncId} {f : Func}
    (h : e.findOpen id = .ok f) :
    Ends (EngineM.defaultReturn id) e (fun _ _ => True) fun _ _ => False := by
  unfold Ends EngineM.defaultReturn
  rw [run_emitInto, h]
  have hemit : Ends Emit.defaultReturn
      { target := e.target, types := e.types, layouts := e.layouts, func := f }
      (fun _ _ => True) fun _ _ => False :=
    .bind_get (.ite' (fun _ => .pure' trivial) fun _ => .bind_modify (.pure' trivial))
  unfold Ends at hemit
  dsimp only
  split at hemit
  · next hrun => rw [hrun]; trivial
  · exact hemit.elim

namespace Workspace

/-- A function that is under construction: it has no problem, is not compiled, and
its engine accepts instructions for it. -/
structure Pending (w : Workspace) (fn : FnId) (s : Function) (f : Func) : Prop where
  found : w.functions[fn]? = some s
  problem : s.problem = none
  compiled : s.compiled = false
  accepts : ∃ r, w.runtimes[s.runtime]? = some r ∧ r.engine.findOpen s.id = .ok f

end Workspace

def Stop.OpenEnd (how : Stop) : Prop :=
  ∃ name type, how = .problem (.complaint "compile" (.reachesEnd name type))

namespace BuildM

variable {w w' : Workspace} {fn : FnId} {s : Function} {f : Func}

theorem not_openEnd_engine (op : String) (err : Failure) :
    ¬ Stop.OpenEnd (.problem (.engine op err)) := by
  rintro ⟨name, type, h⟩
  cases h

theorem ends_onFunc_engine {α : Type} (h : w.Has fn s f) (op : String) (act : FuncId → EngineM α) :
    Ends (onFunc fn op act) w (fun _ _ => True) fun how _ => ¬ how.OpenEnd := by
  obtain ⟨hs, r, hr, -⟩ := h
  refine ends_function hs ((ends_operation op hr (Ends.any _ _)).mono (fun _ _ _ => trivial) ?_)
  rintro _ _ ⟨err, -, -, -, rfl, -, -⟩
  exact not_openEnd_engine op err

end BuildM

namespace Workspace.Pending

open BuildM

variable {w : Workspace} {fn : FnId} {s : Function} {f : Func}

theorem has (h : w.Pending fn s f) : w.Has fn s f := by
  obtain ⟨r, hr, hopen⟩ := h.accepts
  exact ⟨h.found, r, hr, (EngineM.findOpen_ok hopen).1⟩

theorem ends_trace (h : w.Pending fn s f) (hl : w.Linked) (n : Trace.Note) :
    Ends (trace s.runtime n) w (fun _ w' => w'.Pending fn s f ∧ w'.Linked) fun _ _ => False := by
  obtain ⟨r, hr, hopen⟩ := h.accepts
  have hlinked := (ends_noted (.refl hl h.has) n).imp fun _ _ h => h.linked
  obtain ⟨spans, tracing, hrun⟩ := run_trace hr n
  unfold Ends at hlinked ⊢
  rw [hrun] at hlinked ⊢
  refine ⟨⟨h.found, h.problem, h.compiled, { r with spans }, ?_, hopen⟩, hlinked⟩
  exact (getElem?_advance _ spans tracing hr s.runtime).trans (if_pos rfl)

/-- The return at the end: the check is made, and tells whether the end can be
reached. -/
theorem ends_reachesEnd (h : w.Pending fn s f) (hl : w.Linked) (hin : f.LabelsInside) :
    Ends (reachesEnd fn) w
      (fun reach w' => f.endReachable = some reach ∧ ∃ f', w.Only fn s f' w') fun _ _ => False := by
  have hworks : Ends (onFunc fn "compile" EngineM.defaultReturn) w (fun _ _ => True)
      fun _ _ => False := by
    obtain ⟨r, hr, hopen⟩ := h.accepts
    refine ends_function h.found
      ((ends_operation "compile" hr (EngineM.ends_defaultReturn_open hopen)).mono ?_ ?_)
    · exact fun _ _ _ => trivial
    · rintro _ _ ⟨-, -, -, -, -, hno, -⟩
      exact hno
  have hcrash : Ends (reachesEnd fn) w (fun _ _ => True) fun how _ => how = .crashed := by
    refine .bind' hworks.total ?_
    rintro (_ | reach) _ -
    · exact .throw' rfl
    · exact .pure' trivial
  refine (hcrash.and' (BuildM.ends_reachesEnd (.refl hl h.has))).mono ?_ ?_
  · rintro reach w' ⟨-, f', ⟨-, hreach, -⟩, honly⟩
    exact ⟨hreach, f', honly⟩
  · rintro _ w' ⟨rfl, ⟨-, hnone⟩ | ⟨p, ⟨⟩⟩, -⟩
    exact (f.endReachable_ne_none hin hnone).elim

theorem ends_finishing (h : w.Pending fn s f) (hl : w.Linked) (hin : f.LabelsInside)
    (hret : s.ret.kind ≠ .void) :
    Ends (finishing fn) w (fun _ _ => f.endReachable = some false)
      (fun how _ => how.OpenEnd ↔ f.endReachable = some true) := by
  refine ends_function h.found ?_
  refine .bind' ((h.ends_reachesEnd hl hin).imp_stop fun _ _ hno => hno.elim) ?_
  rintro reach w₁ ⟨hreach, f', h₁⟩
  rw [hreach]
  refine .ite' (fun hend => ?_) fun hend => ?_
  · obtain ⟨hend, -⟩ := Bool.and_eq_true_iff.mp hend
    refine .bind' (ends_functionName h₁.has).total ?_
    rintro name _ rfl
    refine .bind' (ends_tyText fun _ => h₁.linked.result h₁.has.1).total ?_
    rintro type _ rfl
    exact .bind_throw ⟨fun _ => congrArg some hend, fun _ => ⟨name, type, rfl⟩⟩
  · obtain rfl : reach = false := by simpa [hret] using hend
    refine .bind' ((ends_onFunc_engine h₁.has "compile" _).imp_stop ?_) fun _ _ _ =>
      .modify' rfl
    exact fun how _ hno => ⟨fun hyes => absurd hyes hno, nofun⟩

theorem ends_compile (h : w.Pending fn s f) (hl : w.Linked) (hin : f.LabelsInside)
    (hret : s.ret.kind ≠ .void) :
    Ends (compile fn) w (fun _ _ => f.endReachable = some false)
      (fun how _ => how.OpenEnd ↔ f.endReachable = some true) := by
  have hfinish : ∀ w₁ : Workspace, w₁.Pending fn s f → w₁.Linked → Ends (finish fn) w₁
      (fun _ w₂ => f.endReachable = some false ∧ ∃ s' f', s'.runtime = s.runtime ∧ w₁.Only fn s' f' w₂)
      (fun how w₂ => (how.OpenEnd ↔ f.endReachable = some true) ∧
        ∃ s' f', s'.runtime = s.runtime ∧ w₁.Only fn s' f' w₂) := by
    intro w₁ h₁ hl₁
    have hsteps := (BuildM.ends_finishing hl₁ h₁.has h₁.problem).and' (h₁.ends_finishing hl₁ hin hret)
    refine .bind' ((ends_attempt hsteps).imp_stop ?_) ?_
    · rintro _ w₂ ⟨hhow, ⟨-, hnone, -⟩ | ⟨p, f', rfl, -⟩, -⟩
      · exact (f.endReachable_ne_none hin hnone).elim
      · exact absurd rfl (hhow p)
    rintro (p | _) w₂ h₂
    · obtain ⟨⟨⟨⟩, -⟩ | ⟨_, f', ⟨⟩, h₂, -⟩, hopen⟩ := h₂
      refine .bind' (ends_keep h₂ h₁.problem p).total ?_
      exact fun _ w₃ h₃ => .throw' ⟨hopen, { s with problem := some p }, f', rfl, h₃⟩
    · obtain ⟨⟨f', h₂, -⟩, hend⟩ := h₂
      exact .pure' ⟨hend, { s with compiled := true }, f', rfl, h₂⟩
  refine ends_function h.found ?_
  rw [h.problem]
  refine .ite' (fun hyes => absurd (h.compiled.symm.trans hyes) nofun) fun _ => ?_
  refine .bind' (ends_functionName h.has).total ?_
  rintro name _ rfl
  refine .bind' (h.ends_trace hl _).total ?_
  rintro _ w₁ ⟨h₁, hl₁⟩
  refine .bind' ((ends_attempt (hfinish w₁ h₁ hl₁)).imp_stop fun _ _ h => h.2.1) ?_
  rintro (p | _) w₂ ⟨hanswer, s', f', hruntime, h₂⟩
  · rw [← hruntime]
    refine .bind' (ends_noted h₂ _).total fun _ _ _ => ?_
    exact .throw' hanswer
  · rw [← hruntime]
    exact (ends_noted h₂ _).mono (fun _ _ _ => hanswer) fun _ _ h => h.elim

end Workspace.Pending

/-- The check for a reachable end is sound and complete. For every stream and
label table whose placed labels are inside the stream, the check answers, the loop
comes to that answer and to no other, and it is whether there is a way
from the first instruction to the end. Compiling a function that gives something
back is refused for its end exactly if there is such a way. -/
theorem Func.reachable_end_exact :
    (∀ f : Func, f.LabelsInside → ∃ answer, f.endReachable = some answer ∧
      (∀ a, f.Sweeps f.firstSeen [0] a ↔ a = answer) ∧ (answer = true ↔ f.ReachesEnd)) ∧
    ∀ (w : Workspace) (fn : FnId) (s : Function) (f : Func), w.Linked → w.Pending fn s f →
      f.LabelsInside → s.ret.kind ≠ .void →
      ((∃ how w', ((BuildM.compile fn).run w : Except Stop Unit × Workspace) = (.error how, w') ∧
        how.OpenEnd) ↔ f.ReachesEnd) := by
  refine ⟨fun f hl => ?_, fun w fn s f hlinked h hl hret => ?_⟩
  · obtain ⟨answer, hcheck, hsweeps⟩ := sweeps_endReachable hl
    refine ⟨answer, hcheck, fun a => ⟨fun h => h.unique hsweeps, fun h => h ▸ hsweeps⟩, ?_⟩
    rw [← endReachable_iff hl, hcheck, Option.some.injEq]
  · rw [← endReachable_iff hl]
    have hends := h.ends_compile hlinked hl hret
    unfold Ends at hends
    rcases hrun : ((BuildM.compile fn).run w : Except Stop Unit × Workspace) with ⟨how | _, w'⟩ <;>
      rw [hrun] at hends
    · refine ⟨?_, fun hend => ⟨how, w', rfl, hends.mpr hend⟩⟩
      rintro ⟨_, _, ⟨⟩, hopen⟩
      exact hends.mp hopen
    · refine ⟨?_, fun hend => absurd (hends.symm.trans hend) nofun⟩
      rintro ⟨_, _, ⟨⟩, -⟩

open BuildM in
/-- A function that gives an integer: while a condition holds it goes round, and
then it comes to its end. -/
def roundAndOut : Workspace :=
  (((unwritten.after (constBool 0 true)).after (newLabel 0)).after (placeLabel ⟨0, 1⟩)).after
    (jumpIf 0 { fn := some 0, id := 1, kind := .bool, type := Builtin.bool.ty 0 } (some ⟨0, 1⟩))

theorem roundAndOut_refused : ∃ how w',
    ((BuildM.compile 0).run roundAndOut : Except Stop Unit × Workspace) = (.error how, w') ∧
      how.OpenEnd := by
  have hreaches : Workspace.Reaches {} roundAndOut :=
    (((((((Relation.ReflTransGen.refl.tail (.call (.newRuntime {}))).tail
      (.call (.newContext 0 "c"))).tail (.call (.buildStart 0))).tail
      (.call (.startFunction 0 [] _))).tail (.call (.constBool 0 true))).tail
      (.call (.newLabel 0))).tail (.call (.placeLabel _))).tail (.call (.jumpIf 0 _ _))
  have hcheck : ∃ s ∈ roundAndOut.functions[(0 : Nat)]?, s.problem = none ∧ s.compiled = false ∧
      s.ret.kind ≠ .void ∧ ∃ r ∈ roundAndOut.runtimes[s.runtime]?,
      ∃ f ∈ (r.engine.findOpen s.id).toOption, f.endReachable = some true ∧ f.insns.size = 2 ∧
        ∀ pos ∈ f.labels, pos ≤ f.insns.size := by decide +kernel
  obtain ⟨s, hs, hp, hc, hret, r, hr, f, hf, hend, -, hlabels⟩ := hcheck
  have hopen : r.engine.findOpen s.id = .ok f := by
    cases h : r.engine.findOpen s.id <;> rw [h] at hf <;> cases hf
    rfl
  have hl : f.LabelsInside := fun l pos hpos => hlabels pos (Array.mem_of_getElem? hpos)
  obtain ⟨answer, hanswer, -, hpath⟩ := Func.reachable_end_exact.1 f hl
  exact (Func.reachable_end_exact.2 roundAndOut 0 s f (hreaches.goes Workspace.linked_empty).1
    ⟨hs, hp, hc, r, hr, hopen⟩ hl hret).mpr
      (hpath.mp (Option.mem_unique hanswer hend))

end TypedIR
