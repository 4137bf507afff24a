import TypedIR.Proofs.SafeRuns

/-
  Control flow: what the check for a reachable end rules out.

  `Func.Flows` are the positions that control can come to. The check goes
  through them with a work list; when it finds no way to the end, every
  position that control comes to has an instruction (`closed_of_endReachable`).
  A return at the end has the same effect. A machine moves along the flow, so a
  frame of a closed function is always at an instruction, and ends with a
  return (`Machine.Visits.inside`, `Machine.ends_at_return`).
-/

namespace TypedIR

namespace Func

variable {f : Func}

/-- The positions that control can come to. -/
inductive Flows (f : Func) : Nat → Prop
  | start : Flows f 0
  | step {pc pc' : Nat} {i : Insn} (h : Flows f pc) (hi : f.insns[pc]? = some i)
      (hs : pc' ∈ f.successors pc i) : Flows f pc'

/-- The flow of control never leaves the stream. -/
def Closed (f : Func) : Prop := ∀ pc, f.Flows pc → pc < f.insns.size

/-- No label stands behind the end of the stream. -/
def LabelsInside (f : Func) : Prop :=
  ∀ (l : Nat) (pos : Int), f.labels[l]? = some pos → pos ≤ f.insns.size

theorem LabelsInside.target_le (h : f.LabelsInside) {i : Insn} {pc : Nat}
    (ht : f.target? i = some pc) : pc ≤ f.insns.size := by
  unfold target? label? at ht
  split at ht
  · next pos hpos =>
    split at hpos
    · cases hpos
    · have hle := h i.label pos hpos
      split at ht
      · cases ht
      · obtain rfl := Option.some.inj ht
        omega
  · cases ht

theorem LabelsInside.successors_le (h : f.LabelsInside) {pc s : Nat} {i : Insn}
    (hi : f.insns[pc]? = some i) (hs : s ∈ f.successors pc i) : s ≤ f.insns.size := by
  have hpc : pc < f.insns.size := lt_of_getElem? hi
  have htarget : s ∈ (f.target? i).toList → s ≤ f.insns.size :=
    fun hm => h.target_le (Option.mem_toList.mp hm)
  unfold successors at hs
  split at hs
  · cases hs
  · exact htarget hs
  · rcases List.mem_append.mp hs with hs | hs
    · exact htarget hs
    · obtain rfl := List.mem_singleton.mp hs
      exact hpc
  · rcases List.mem_append.mp hs with hs | hs
    · exact htarget hs
    · obtain rfl := List.mem_singleton.mp hs
      exact hpc
  · obtain rfl := List.mem_singleton.mp hs
    exact hpc

/-! ## The work list -/

def backlog (seen : Array Bool) (work : List Nat) : Nat := seen.count false + work.length

/-- What visiting successors does: all of them are seen then, nothing seen is
forgotten, what is new is on the work list, and nothing is left out of
account. -/
structure Visited (seen : Array Bool) (work succ : List Nat) (seen' : Array Bool)
    (work' : List Nat) : Prop where
  size : seen'.size = seen.size
  kept : ∀ s : Nat, seen[s]? = some true → seen'[s]? = some true
  all : ∀ s ∈ succ, seen'[s]? = some true
  fresh : ∀ s : Nat, seen'[s]? = some true → seen[s]? = some true ∨ s ∈ work'
  pending : ∀ s ∈ work, s ∈ work'
  total : backlog seen' work' = backlog seen work

theorem exists_visited {seen : Array Bool} {work succ : List Nat} (hin : ∀ s ∈ succ, s < seen.size) :
    ∃ seen' work', visit seen work succ = some (seen', work') ∧ Visited seen work succ seen' work' := by
  induction succ generalizing seen work with
  | nil => exact ⟨seen, work, rfl, rfl, fun _ h => h, List.forall_mem_nil _, fun _ h => .inl h, fun _ h => h, rfl⟩
  | cons s rest ih =>
    have hs : s < seen.size := hin s (List.mem_cons_self ..)
    have hrest : ∀ t ∈ rest, t < seen.size := fun t ht => hin t (List.mem_cons_of_mem _ ht)
    have hget : seen[s]? = some seen[s] := Array.getElem?_eq_getElem hs
    unfold visit
    rw [hget]
    cases hseen : seen[s] with
    | true =>
      rw [hseen] at hget
      obtain ⟨seen', work', hvisit, h⟩ := @ih seen work hrest
      refine ⟨seen', work', hvisit, { h with all := ?_ }⟩
      intro t ht
      rcases List.mem_cons.mp ht with rfl | ht
      · exact h.kept _ hget
      · exact h.all t ht
    | false =>
      have hset : ∀ t, (seen.setIfInBounds s true)[t]? =
          if s = t then some true else seen[t]? := by
        intro t
        rw [Array.getElem?_setIfInBounds]
        simp [hs]
      have hcount : (seen.setIfInBounds s true).count false + 1 = seen.count false := by
        have hpos : 0 < seen.count false := Array.count_pos_iff.mpr (hseen ▸ Array.getElem_mem hs)
        rw [Array.setIfInBounds, dif_pos hs, Array.count_set hs, hseen]
        simp only [beq_self_eq_true, if_true, show (true == false) = false from rfl,
          Bool.false_eq_true, if_false]
        omega
      obtain ⟨seen', work', hvisit, h⟩ :=
        @ih (seen.setIfInBounds s true) (s :: work) (by simpa using hrest)
      refine ⟨seen', work', hvisit, by simpa using h.size, ?_, ?_, ?_, ?_, ?_⟩
      · intro t ht
        refine h.kept t ?_
        rw [hset]
        split
        · rfl
        · exact ht
      · intro t ht
        rcases List.mem_cons.mp ht with rfl | ht
        · exact h.kept _ (by rw [hset, if_pos rfl])
        · exact h.all t ht
      · intro t ht
        rcases h.fresh t ht with ht | ht
        · rw [hset] at ht
          split at ht
          · next hst => exact .inr (hst ▸ h.pending s (List.mem_cons_self ..))
          · exact .inl ht
        · exact .inr ht
      · exact fun t ht => h.pending t (List.mem_cons_of_mem _ ht)
      · refine h.total.trans ?_
        simp only [backlog, List.length_cons]
        omega

/-- The check goes on after an instruction: its successors have marks. -/
theorem LabelsInside.visited (hl : f.LabelsInside) {seen : Array Bool}
    (hsize : seen.size = f.insns.size + 1) (work : List Nat) {pc : Nat} {i : Insn}
    (hi : f.insns[pc]? = some i) :
    ∃ seen' work', visit seen work (f.successors pc i) = some (seen', work') ∧
      Visited seen work (f.successors pc i) seen' work' :=
  exists_visited fun s hs => by rw [hsize]; exact Nat.lt_succ_of_le (hl.successors_le hi hs)

theorem reachEnd_turn {fuel pc : Nat} {seen seen' : Array Bool} {work work' : List Nat} {i : Insn}
    (hi : f.insns[pc]? = some i)
    (hvisit : visit seen work (f.successors pc i) = some (seen', work')) :
    f.reachEnd (fuel + 1) seen (pc :: work) = f.reachEnd fuel seen' work' := by
  rw [reachEnd, hi]
  dsimp only
  rw [hvisit]

/-- Positions that the check has dealt with: they have an instruction, and
control goes from them to positions that are seen. -/
def Done (f : Func) (seen : Nat → Prop) (pc : Nat) : Prop :=
  ∃ i, f.insns[pc]? = some i ∧ ∀ s ∈ f.successors pc i, seen s

/-- The check answers, and if it finds no way to the end, there is a set of positions
that control does not leave, with an instruction at each of them. -/
theorem reachEnd_answers (hl : f.LabelsInside) {fuel : Nat} {seen : Array Bool}
    {work : List Nat} (hsize : seen.size = f.insns.size + 1)
    (hdone : ∀ s : Nat, seen[s]? = some true →
      s ∈ work ∨ f.Done (fun t => seen[t]? = some true) s)
    (hfuel : backlog seen work < fuel) :
    f.reachEnd fuel seen work = some true ∨
      f.reachEnd fuel seen work = some false ∧ ∃ inside : Nat → Prop,
        (∀ s : Nat, seen[s]? = some true → inside s) ∧ ∀ s, inside s → f.Done inside s := by
  induction fuel generalizing seen work with
  | zero => omega
  | succ fuel ih =>
    cases work with
    | nil =>
      refine .inr ⟨rfl, fun s => seen[s]? = some true, fun _ h => h, fun s hs => ?_⟩
      exact (hdone s hs).resolve_left List.not_mem_nil
    | cons pc work =>
      cases hi : f.insns[pc]? with
      | none => exact .inl (by rw [reachEnd, hi])
      | some i =>
        obtain ⟨seen', work', hvisit, hv⟩ := hl.visited hsize work hi
        rw [reachEnd_turn hi hvisit]
        have hdone' : ∀ s : Nat, seen'[s]? = some true →
            s ∈ work' ∨ f.Done (fun t => seen'[t]? = some true) s := by
          intro s hs
          rcases hv.fresh s hs with hs | hs
          · rcases hdone s hs with hs | ⟨j, hj, hsucc⟩
            · rcases List.mem_cons.mp hs with rfl | hs
              · exact .inr ⟨i, hi, hv.all⟩
              · exact .inl (hv.pending s hs)
            · exact .inr ⟨j, hj, fun t ht => hv.kept t (hsucc t ht)⟩
          · exact .inl hs
        have hfuel' : backlog seen' work' < fuel := by
          rw [hv.total]
          simp only [backlog, List.length_cons] at hfuel ⊢
          omega
        refine (ih (by rw [hv.size, hsize]) hdone' hfuel').imp_right ?_
        rintro ⟨hno, inside, hseen, hclosed⟩
        exact ⟨hno, inside, fun s hs => hseen s (hv.kept s hs), hclosed⟩

theorem size_firstSeen : f.firstSeen.size = f.insns.size + 1 := by
  simp [firstSeen]

theorem backlog_firstSeen : backlog f.firstSeen [0] = f.insns.size + 1 := by
  have hcount : f.firstSeen.count false = f.insns.size := by
    simp only [firstSeen, Array.setIfInBounds, Array.size_replicate, Nat.succ_pos, dite_true]
    rw [Array.count_set (by simp), Array.count_replicate]
    simp
  simp [backlog, hcount]

theorem endReachable_answers (hl : f.LabelsInside) :
    f.endReachable = some true ∨ f.endReachable = some false ∧ f.Closed := by
  have hfirst : ∀ s : Nat, f.firstSeen[s]? = some true ↔ s = 0 := by
    intro s
    simp only [firstSeen, Array.getElem?_setIfInBounds, Array.size_replicate,
      Array.getElem?_replicate]
    grind
  refine (reachEnd_answers hl size_firstSeen (fun s hs => .inl (by simp [(hfirst s).mp hs]))
    (by rw [backlog_firstSeen]; exact Nat.lt_succ_self _)).imp_right ?_
  rintro ⟨hno, inside, hstart, hinside⟩
  have hflows : ∀ pc, f.Flows pc → inside pc := by
    intro pc hpc
    induction hpc with
    | start => exact hstart 0 ((hfirst 0).mpr rfl)
    | step _ hi hs ih =>
      obtain ⟨j, hj, hsucc⟩ := hinside _ ih
      obtain rfl := Option.mem_unique hi hj
      exact hsucc _ hs
  refine ⟨hno, fun pc hpc => ?_⟩
  obtain ⟨i, hi, -⟩ := hinside pc (hflows pc hpc)
  exact lt_of_getElem? hi

theorem endReachable_ne_none (f : Func) (hl : f.LabelsInside) : f.endReachable ≠ none := by
  obtain h | ⟨h, -⟩ := endReachable_answers hl <;> rw [h] <;> nofun

theorem closed_of_endReachable (hl : f.LabelsInside) (h : f.endReachable ≠ some true) : f.Closed :=
  ((endReachable_answers hl).resolve_left h).2

theorem closed_push_ret (hl : f.LabelsInside) {i : Insn} (hi : i.op = .ret) :
    (f.push i).Closed := by
  have hle : ∀ pc, (f.push i).Flows pc → pc ≤ f.insns.size := by
    intro pc hpc
    induction hpc with
    | start => exact Nat.zero_le _
    | @step pc pc' j _ hj hs ih =>
      have hj : (f.insns.push i)[pc]? = some j := hj
      rw [Array.getElem?_push] at hj
      split at hj
      · obtain rfl := Option.some.inj hj
        simp only [successors, hi] at hs
        cases hs
      · exact hl.successors_le hj hs
  intro pc hpc
  simpa [push] using Nat.lt_succ_of_le (hle pc hpc)

theorem Closed.congr {f' : Func} (h : f.Closed) (hi : f'.insns = f.insns)
    (hl : f'.labels = f.labels) : f'.Closed := by
  have hsucc : ∀ pc i, f'.successors pc i = f.successors pc i := by
    intro pc i
    simp only [successors, target?, label?, hl]
  have hflows : ∀ pc, f'.Flows pc → f.Flows pc := by
    intro pc hpc
    induction hpc with
    | start => exact .start
    | step _ hj hs ih => exact ih.step (hi ▸ hj) (hsucc _ _ ▸ hs)
  intro pc hpc
  rw [hi]
  exact h pc (hflows pc hpc)

end Func

/-! ## Where the frames are -/

def Machine.spots (m : Machine) : List (Func × Nat) := m.frames.map fun fr => (fr.func, fr.pc)

def SameSpots (m m' : Machine) : Prop := m'.spots = m.spots

instance : Std.Refl SameSpots := ⟨fun _ => rfl⟩

instance : Trans SameSpots SameSpots SameSpots := ⟨fun h h' => h'.trans h⟩

namespace StepM

variable {α : Type} {e : Engine} {f : Func}

theorem stay_host (m : Machine) (host : Host) : SameSpots m { m with host } := rfl

theorem stay_modifyFrame {g : Frame → Frame} (hf : ∀ fr, (g fr).func = fr.func)
    (hpc : ∀ fr, (g fr).pc = fr.pc) : Leaves SameSpots (modifyFrame g) := by
  refine .modify' fun m => ?_
  rcases m with ⟨host, steps, _ | ⟨fr, rest⟩⟩
  · rfl
  · simp [SameSpots, Machine.spots, hf, hpc]

theorem stay_write (v : ValueId) (bits : Word) : Leaves SameSpots (write v bits) :=
  leaves_write bits (leaves_store stay_host) (stay_modifyFrame (fun _ => rfl) fun _ => rfl)

theorem stay_execute {depth : Nat} {i : Insn} (hcall : i.op ≠ .call) :
    Leaves SameSpots (execute e f depth i) :=
  leaves_execute (stay_write _) (fun _ => leaves_store stay_host)
    (leaves_alloca stay_host (stay_write _) fun _ => stay_modifyFrame (fun _ => rfl) fun _ => rfl)
    (absurd · hcall) fun _ => leaves_callNative stay_host (stay_write _)

def Lands (act : StepM α) (m : Machine) (post : α → List (Func × Nat) → Prop) : Prop :=
  Ends act m (fun a m' => post a m'.spots) fun _ _ => True

namespace Lands

variable {β : Type} {act : StepM α} {k : α → StepM β} {m : Machine}
  {post : α → List (Func × Nat) → Prop} {after : β → List (Func × Nat) → Prop}

theorem of_stay (h : Leaves SameSpots act) (hp : ∀ a, post a m.spots) : Lands act m post :=
  Ends.mono (h.ends m) (fun a _ hs => hs ▸ hp a) fun _ _ _ => trivial

theorem throw' (h : Halt Failure) : Lands (throw h : StepM α) m post := Ends.throw' trivial

theorem throw_bind (h : Halt Failure) : Lands (throw h >>= k) m after := Ends.bind_throw trivial

theorem bind' (h : Lands act m post) (hk : ∀ a m', post a m'.spots → Lands (k a) m' after) :
    Lands (act >>= k) m after :=
  Ends.bind' h hk

theorem bind_stay (h : Leaves SameSpots act)
    (hk : ∀ a m', m'.spots = m.spots → Lands (k a) m' after) : Lands (act >>= k) m after :=
  Ends.bind' (Ends.mono (h.ends m) (fun _ _ hs => hs) fun _ _ _ => trivial) hk

theorem bind_modify {g : Machine → Machine} {k : PUnit → StepM β}
    (h : Lands (k ⟨⟩) (g m) after) : Lands (modify g >>= k) m after :=
  Ends.bind_modify h

theorem ite' {c : Prop} [Decidable c] {other : StepM α} (hpos : c → Lands act m post)
    (hneg : ¬ c → Lands other m post) : Lands (if c then act else other) m post :=
  Ends.ite' hpos hneg

theorem inFunction' {name : String} (h : Lands act m post) : Lands (inFunction name act) m post :=
  ends_inFunction m (h.mono (fun _ _ hp => hp) fun halt _ _ => by cases halt <;> trivial)

theorem fail_bind {name : String} (c : Cause) {k : α → StepM β} :
    Lands (inFunction name (fail c) >>= k) m after := by
  have hstop : Lands (inFunction name (fail c : StepM α)) m fun _ _ => False :=
    inFunction' (Lands.throw' _)
  exact Ends.stopped hstop

end Lands

theorem lands_enter (m : Machine) (args : List Word) (depth : Nat) (caller : String)
    (dest : ValueId) : Lands (enter e f args depth caller dest) m
      fun _ spots => spots = (f, 0) :: m.spots := by
  have hmake : ∀ base m', m'.spots = m.spots → Lands (do
      modify fun m =>
        { m with frames :=
            { func := f, depth := depth + 1, regs := initialRegs f, base, dest } :: m.frames }
      inFunction caller (setParams f f.params args)) m'
      fun _ spots => spots = (f, 0) :: m.spots := by
    intro base m' hspots
    refine .bind_modify (.of_stay (leaves_inFunction (leaves_setParams _ fun _ _ => stay_write _)) fun _ => ?_)
    exact congrArg ((f, 0) :: ·) hspots
  refine .ite' (fun _ => .fail_bind _) fun _ => ?_
  refine .ite' (fun _ => .fail_bind _) fun _ => ?_
  exact .ite' (fun _ => .bind_stay (leaves_inFunction (leaves_request stay_host _)) hmake) fun _ => hmake 0 m rfl

theorem lands_leave (m : Machine) (bits : Word) : Lands (leave bits) m
    fun answer spots => spots = m.spots.tail ∧ (answer.isSome → spots = []) := by
  refine .bind_stay still_frame.still fun fr m₁ h₁ => ?_
  refine .bind_stay (leaves_releaseFrame stay_host fr) fun _ m₂ h₂ => ?_
  refine .bind_modify ?_
  have htail : ({ m₂ with frames := m₂.frames.drop 1 } : Machine).spots = m.spots.tail := by
    rw [← h₁, ← h₂]
    simp [Machine.spots, List.map_tail]
  generalize ({ m₂ with frames := m₂.frames.drop 1 } : Machine) = m₃ at htail ⊢
  refine Ends.bind_get ?_
  cases hframes : m₃.frames with
  | nil => exact Ends.pure' ⟨htail, fun _ => by simp [Machine.spots, hframes]⟩
  | cons caller rest =>
    refine .ite' (fun _ => ?_) fun _ => Ends.pure' ⟨htail, nofun⟩
    have hwrite : Leaves SameSpots (inFunction caller.func.name (write fr.dest bits)) :=
      leaves_inFunction (stay_write _ _)
    exact Ends.bind' ((hwrite.ends m₃).mono (fun _ _ hs => hs) fun _ _ _ => trivial)
      fun _ _ hs => Ends.pure' ⟨hs.trans htail, nofun⟩

theorem spots_modifyFrame {m : Machine} {g : Func} {pc : Nat} {rest : List (Func × Nat)}
    (hm : m.spots = (g, pc) :: rest) (pc' : Nat) {m' : Machine}
    (h : ((modifyFrame fun fr => { fr with pc := pc' }).run m :
      Except (Halt Failure) Unit × Machine) = (.ok (), m')) : m'.spots = (g, pc') :: rest := by
  obtain ⟨-, rfl⟩ := Prod.mk.inj h
  rcases m with ⟨host, steps, _ | ⟨fr, frames⟩⟩
  · cases hm
  · obtain ⟨hfr, hrest⟩ := List.cons.inj hm
    obtain ⟨hg, -⟩ := Prod.mk.inj hfr
    exact congrArg₂ (fun g r => (g, pc') :: r) hg hrest

theorem lands_jump {m : Machine} {i : Insn} {g : Func} {pc : Nat} {rest : List (Func × Nat)}
    (hm : m.spots = (g, pc) :: rest) : Lands (jump f i) m
      fun _ spots => ∃ pc', f.target? i = some pc' ∧ spots = (g, pc') :: rest := by
  unfold jump
  cases ht : f.target? i with
  | none => exact .throw' _
  | some pc' => exact Ends.modify' ⟨pc', rfl, spots_modifyFrame hm pc' rfl⟩

/-- An instruction that is no jump and no return leaves the frames where they
are, or calls a function. -/
theorem lands_execute (m : Machine) (depth : Nat) (i : Insn) : Lands (execute e f depth i) m
    fun _ spots => spots = m.spots ∨ ∃ callee, spots = (callee, 0) :: m.spots := by
  by_cases hcall : i.op = .call
  · unfold execute
    rw [hcall]
    dsimp only
    cases e.findFunc i.callee with
    | error err => exact .throw' _
    | ok callee =>
      refine .bind_stay (still_readAll _).still fun args m₁ h₁ => ?_
      exact (lands_enter m₁ args depth f.name i.dest).mono
        (fun _ _ hs => .inr ⟨callee, h₁ ▸ hs⟩) fun _ _ ht => ht
  · exact .of_stay (stay_execute hcall) fun _ => .inl rfl

end StepM

/-- Where the frames can be one step after the running one was at position `pc`
of `f`: control flows on, a function is called, or the frame ends, by a return
or because there is no instruction. -/
inductive Advances (f : Func) (pc : Nat) (rest : List (Func × Nat)) : List (Func × Nat) → Prop
  | flow {i : Insn} {pc' : Nat} (hi : f.insns[pc]? = some i) (hs : pc' ∈ f.successors pc i) :
      Advances f pc rest ((f, pc') :: rest)
  | call {i : Insn} {callee : Func} (hi : f.insns[pc]? = some i)
      (hs : pc + 1 ∈ f.successors pc i) :
      Advances f pc rest ((callee, 0) :: (f, pc + 1) :: rest)
  | ret {i : Insn} (hi : f.insns[pc]? = some i) (hop : i.op = .ret) : Advances f pc rest rest
  | fall (hi : f.insns[pc]? = none) : Advances f pc rest rest

namespace StepM

variable {e : Engine} {f : Func} {m : Machine} {pc : Nat} {rest : List (Func × Nat)} {i : Insn}

theorem lands_dispatch (depth : Nat) (hi : f.insns[pc]? = some i)
    (hm : m.spots = (f, pc + 1) :: rest) : Lands (dispatch e f depth i) m
      fun answer spots => Advances f pc rest spots ∧ (answer.isSome → spots = []) := by
  have hexecute : pc + 1 ∈ f.successors pc i → Lands (do
      execute e f depth i
      pure none : StepM (Option Word)) m
      fun answer spots => Advances f pc rest spots ∧ (answer.isSome → spots = []) := by
    intro hnext
    refine .bind' (lands_execute m depth i) fun _ m' h => Ends.pure' ⟨?_, nofun⟩
    rcases h with h | ⟨callee, h⟩
    · rw [h, hm]
      exact .flow hi hnext
    · rw [h, hm]
      exact .call hi hnext
  unfold dispatch
  cases hop : i.op
  case nop | label =>
    refine Ends.pure' ⟨?_, nofun⟩
    rw [hm]
    exact .flow hi (by simp [Func.successors, hop])
  case branch =>
    refine .bind' (lands_jump hm) fun _ m' h => Ends.pure' ⟨?_, nofun⟩
    obtain ⟨pc', htarget, hspots⟩ := h
    rw [hspots]
    exact .flow hi (by simp [Func.successors, hop, htarget])
  case branchIf | branchIfNot =>
    have hnext : Advances f pc rest ((f, pc + 1) :: rest) :=
      .flow hi (by simp [Func.successors, hop])
    refine .bind_stay (still_read _).still fun c m₁ h₁ => ?_
    refine .ite' (fun _ => ?_) fun _ => Ends.pure' ⟨(h₁.trans hm) ▸ hnext, nofun⟩
    refine .bind' (lands_jump (h₁.trans hm)) fun _ m' h => Ends.pure' ⟨?_, nofun⟩
    obtain ⟨pc', htarget, hspots⟩ := h
    rw [hspots]
    exact .flow hi (by simp [Func.successors, hop, htarget])
  case ret =>
    have hleave : ∀ (bits : Word) (m' : Machine), m'.spots = m.spots → Lands (leave bits) m'
        fun answer spots => Advances f pc rest spots ∧ (answer.isSome → spots = []) := by
      intro bits m' h'
      refine (lands_leave m' bits).mono (fun answer m'' h => ⟨?_, h.2⟩) fun _ _ ht => ht
      rw [h.1, h', hm]
      exact .ret hi hop
    exact .ite' (fun _ => hleave 0 m rfl) fun _ => .bind_stay (still_read _).still hleave
  all_goals exact hexecute (by simp [Func.successors, hop])

def StepsTo (m : Machine) (answer : Option Word) (spots : List (Func × Nat)) : Prop :=
  ∃ f pc rest, m.spots = (f, pc) :: rest ∧ Advances f pc rest spots ∧
    (answer.isSome → spots = [])

/-- One step moves the running frame along the flow, calls a function or ends
the frame. -/
theorem lands_step (e : Engine) (m : Machine) : Lands (step e) m (StepsTo m) := by
  have hframe : Ends frame m (fun fr m' => m = m' ∧ ∃ rest, m.frames = fr :: rest)
      fun _ _ => True := by
    refine Ends.bind_get ?_
    cases hframes : m.frames with
    | nil => exact Ends.throw' trivial
    | cons fr rest => exact Ends.pure' ⟨rfl, rest, rfl⟩
  refine Ends.bind' hframe ?_
  rintro ⟨f, depth, pc, regs, base, allocas, dest⟩ _ ⟨rfl, rest, hframes⟩
  have hspots : m.spots = (f, pc) :: rest.map fun fr => (fr.func, fr.pc) := by
    simp [Machine.spots, hframes]
  dsimp only
  cases hi : f.insns[pc]? with
  | none =>
    refine (lands_leave m 0).mono (fun answer m' h => ⟨f, pc, _, hspots, ?_, h.2⟩) fun _ _ ht => ht
    rw [h.1, hspots]
    exact .fall hi
  | some i =>
    have hmove : ∀ m', m'.spots = m.spots → Lands (do
        modifyFrame fun fr => { fr with pc := pc + 1 }
        dispatch e f depth i) m' (StepsTo m) := by
      intro m' hm'
      refine .bind_modify ?_
      refine (lands_dispatch depth hi (spots_modifyFrame (hm'.trans hspots) (pc + 1) rfl)).mono ?_
        fun _ _ ht => ht
      exact fun answer m'' h => ⟨f, pc, _, hspots, h⟩
    refine Ends.bind_modify ?_
    change Lands _ _ (StepsTo m)
    refine Lands.inFunction' ?_
    refine Ends.bind_get ?_
    exact Ends.ite' (fun _ => Lands.throw_bind _) fun _ => hmove _ rfl

end StepM

/-! ## Runs -/

namespace Machine

open StepM

variable {e : Engine} {root f : Func} {args : List Word} {m m' : Machine}

def OnFlow (m : Machine) : Prop := ∀ fr ∈ m.frames, fr.func.Flows fr.pc

theorem onFlow_iff : m.OnFlow ↔ ∀ s ∈ m.spots, s.1.Flows s.2 := by
  simp [OnFlow, spots]

theorem OnFlow.step (h : m.OnFlow) {answer : Option Word}
    (hs : ((StepM.step e).run m : Except (Halt Failure) (Option Word) × Machine) =
      (.ok answer, m')) : m'.OnFlow := by
  have hlands := lands_step e m
  unfold Lands Ends at hlands
  rw [hs] at hlands
  obtain ⟨f, pc, rest, hspots, hadvance, -⟩ := hlands
  rw [onFlow_iff] at h ⊢
  rw [hspots, List.forall_mem_cons] at h
  generalize m'.spots = spots at hadvance ⊢
  cases hadvance with
  | flow hi hs => exact List.forall_mem_cons.mpr ⟨h.1.step hi hs, h.2⟩
  | call hi hs =>
    exact List.forall_mem_cons.mpr ⟨.start, List.forall_mem_cons.mpr ⟨h.1.step hi hs, h.2⟩⟩
  | ret => exact h.2
  | fall => exact h.2

theorem Visits.onFlow (h : Visits e root args m) : m.OnFlow := by
  induction h with
  | @entered m h =>
    have hlands := lands_enter (e := e) (f := root) { host := e.host } args 0 "" 0
    unfold Lands Ends at hlands
    rw [h] at hlands
    rw [onFlow_iff, hlands]
    exact List.forall_mem_cons.mpr ⟨.start, List.forall_mem_nil _⟩
  | stepped _ hs ih => exact ih.step hs

theorem Visits.inside (h : Visits e root args m) {fr : Frame} (hfr : fr ∈ m.frames)
    (hclosed : fr.func.Closed) : fr.pc < fr.func.insns.size :=
  hclosed fr.pc (h.onFlow fr hfr)

theorem Visits.ends_at_return (h : Visits e root args m) {fr : Frame} {rest : List Frame}
    (hfr : m.frames = fr :: rest) (hclosed : fr.func.Closed) {answer : Option Word}
    (hs : ((StepM.step e).run m : Except (Halt Failure) (Option Word) × Machine) =
      (.ok answer, m')) (hend : m'.frames.length < m.frames.length) :
    ∃ i, fr.func.insns[fr.pc]? = some i ∧ i.op = .ret := by
  have hlands := lands_step e m
  unfold Lands Ends at hlands
  rw [hs] at hlands
  obtain ⟨f, pc, spots, hspots, hadvance, -⟩ := hlands
  have hmap : m.spots = (fr.func, fr.pc) :: rest.map fun fr => (fr.func, fr.pc) := by
    simp [Machine.spots, hfr]
  obtain ⟨hhead, rfl⟩ := List.cons.inj (hspots.symm.trans hmap)
  obtain ⟨rfl, rfl⟩ := Prod.mk.inj hhead
  have hlength : m'.spots.length ≤ rest.length := by
    simpa [Machine.spots, hfr, Nat.lt_succ_iff] using hend
  generalize m'.spots = after at hadvance hlength
  cases hadvance with
  | flow => simp at hlength
  | call =>
    simp only [List.length_cons, List.length_map] at hlength
    omega
  | ret hi hop => exact ⟨_, hi, hop⟩
  | fall hi =>
    have hlt := h.inside (hfr ▸ List.mem_cons_self ..) hclosed
    exact absurd (Array.getElem?_eq_none_iff.mp hi) (Nat.not_le_of_lt hlt)

theorem Visits.outermost (h : Visits e root args m) :
    ∀ s ∈ m.spots.getLast?, s.1 = root := by
  induction h with
  | @entered m h =>
    have hlands := lands_enter (e := e) (f := root) { host := e.host } args 0 "" 0
    unfold Lands Ends at hlands
    rw [h] at hlands
    rw [hlands]
    rintro s ⟨⟩
    rfl
  | @stepped m m' _ hs ih =>
    have hlands := lands_step e m
    unfold Lands Ends at hlands
    rw [hs] at hlands
    obtain ⟨f, pc, rest, hspots, hadvance, -⟩ := hlands
    rw [hspots] at ih
    generalize m'.spots = spots at hadvance ⊢
    cases rest with
    | nil =>
      obtain rfl : f = root := ih _ rfl
      cases hadvance with
      | flow => rintro s ⟨⟩; rfl
      | call => rintro s ⟨⟩; rfl
      | ret => nofun
      | fall => nofun
    | cons caller rest =>
      cases hadvance with
      | flow => exact ih
      | call => exact ih
      | ret => exact ih
      | fall => exact ih

theorem frames_of_result {bits : Word}
    (hs : ((StepM.step e).run m : Except (Halt Failure) (Option Word) × Machine) =
      (.ok (some bits), m')) : m'.frames = [] ∧ m.frames ≠ [] := by
  have hlands := lands_step e m
  unfold Lands Ends at hlands
  rw [hs] at hlands
  obtain ⟨f, pc, spots, hspots, -, hend⟩ := hlands
  refine ⟨List.map_eq_nil_iff.mp (hend rfl), fun hnil => ?_⟩
  simp [Machine.spots, hnil] at hspots

theorem Visits.last_of_run {fuel : Nat} {bits : Word} (h : Visits e root args m)
    (hrun : run e fuel m = (.result bits, m')) : ∃ last, Visits e root args last ∧
      ((StepM.step e).run last : Except (Halt Failure) (Option Word) × Machine) =
        (.ok (some bits), m') := by
  induction fuel generalizing m with
  | zero => cases hrun
  | succ fuel ih =>
    unfold run at hrun
    rcases hstep : ((StepM.step e).run m : Except (Halt Failure) (Option Word) × Machine) with
      ⟨halt | (_ | w), m₁⟩
    · rw [hstep] at hrun
      cases hrun
    · rw [hstep] at hrun
      exact ih (h.stepped hstep) hrun
    · rw [hstep] at hrun
      cases hrun
      exact ⟨m, h, hstep⟩

theorem Visits.last_of_call {fuel : Nat} {bits : Word}
    (hcall : call e fuel e.host root args = (.result bits, m')) :
    ∃ last, Visits e root args last ∧
      ((StepM.step e).run last : Except (Halt Failure) (Option Word) × Machine) =
        (.ok (some bits), m') := by
  unfold call at hcall
  rcases henter : ((enter e root args 0 "" 0).run { host := e.host } :
    Except (Halt Failure) Unit × Machine) with ⟨halt | _, m₁⟩
  · rw [henter] at hcall
    cases hcall
  · rw [henter] at hcall
    exact Visits.last_of_run (.entered henter) hcall

end Machine

end TypedIR
