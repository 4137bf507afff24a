import TypedIR.Proofs.SparedBlocks

/-
  Calls that share one memory.

  Several calls are made at the same time: each has a machine of its own, and all of
  them have one host. `Crew.turn` lets one of them go one step, so a schedule, the
  list of whose turn it is, stands for every order in which their steps can be taken.

  Calls of local code do not meet. What one of them does leaves the blocks of the
  others as they are (`Machine.Spares`), so each is at every turn the twin of the same
  call made alone on any other host (`Crew.Kept.turn`, `Strand.Follows`), and ends as
  that does (`Crew.ends_as_alone`).
-/

namespace TypedIR

/-- How a call among several stands: it has not begun, is under way with a machine that
shares its host, has come to an end, or is not made. -/
inductive Strand where
  | waiting
  | running (steps : Nat) (frames : List Frame)
  | ended (ending : RunEnd)
  | dropped
  deriving Inhabited

/-- A call that is to be made; `none` if its arguments cannot be passed. -/
structure Job where
  func : Func
  words : Option (List Word)
  deriving Inhabited

def StepM.begin (e : Engine) (f : Func) (words : List Word) : StepM (Option Word) := do
  enter e f words 0 "" 0
  pure none

namespace Strand

def frames : Strand → List Frame
  | .running _ frames => frames
  | _ => []

def failed : Strand → Bool
  | .ended (.result _) | .waiting | .running _ _ => false
  | .ended _ | .dropped => true

def settle : Except (Halt Failure) (Option Word) × Machine → Strand × Host
  | (.ok none, m) => (.running m.steps m.frames, m.host)
  | (.ok (some bits), m) => (.ended (.result bits), m.host)
  | (.error h, m) => (.ended (.halted h), m.unwound.host)

/-- One step of a call. A call that has not begun begins, unless it is called off or
its arguments cannot be passed. -/
def next (e : Engine) (job : Job) (off : Bool) (host : Host) : Strand → Strand × Host
  | .waiting =>
    match job.words with
    | some words =>
      if off then (.dropped, host)
      else settle ((StepM.begin e job.func words).run { host } :
        Except (Halt Failure) (Option Word) × Machine)
    | none => (.dropped, host)
  | .running steps frames =>
    settle ((StepM.step e).run { host, steps, frames } :
      Except (Halt Failure) (Option Word) × Machine)
  | s => (s, host)

end Strand

/-- Calls that share one host. -/
structure Crew where
  host : Host
  strands : List Strand
  deriving Inhabited

namespace Crew

def start (host : Host) (jobs : List Job) : Crew :=
  { host, strands := jobs.map fun _ => .waiting }

/-- A call goes one step. Calls that have not begun are called off once one has
failed. -/
def turn (e : Engine) (jobs : List Job) (c : Crew) (k : Nat) : Crew :=
  match jobs[k]?, c.strands[k]? with
  | some job, some s =>
    let (s, host) := s.next e job (c.strands.any Strand.failed) c.host
    { host, strands := c.strands.set k s }
  | _, _ => c

def after (e : Engine) (jobs : List Job) (schedule : List Nat) (c : Crew) : Crew :=
  schedule.foldl (turn e jobs) c

end Crew

section

variable {e : Engine} {f root : Func} {fr : Frame} {rest : List Frame}
  {host host' : Host} {steps : Nat} {frames : List Frame} {mem mem' : Memory}

/-! ## Machines whose host changes -/

def Memory.KeepsFrames (mem mem' : Memory) (frames : List Frame) : Prop :=
  mem'.offsetBits = mem.offsetBits ∧
    ∀ fr ∈ frames, 0 < fr.func.frameSize → ∀ b, mem.Holds fr.base b → mem'.Holds fr.base b

theorem Memory.KeepsFrames.handleOf (h : mem.KeepsFrames mem' frames) (a : Word) :
    mem'.handleOf a = mem.handleOf a := by
  unfold Memory.handleOf
  rw [h.1]

theorem Stack.Housed.kept (h : Stack.Housed mem frames) (hkeep : mem.KeepsFrames mem' frames) :
    Stack.Housed mem' frames := by
  refine ⟨fun fr hfr => ?_, h.apart.imp fun hap hpos hpos' => ?_⟩
  · obtain ⟨halloc, hnone, hblock⟩ := h.each fr hfr
    refine ⟨halloc, hnone, fun hpos => ?_⟩
    obtain ⟨b, hb, hbs⟩ := hblock hpos
    exact ⟨b, hkeep.2 fr hfr hpos b hb, hbs⟩
  · rw [hkeep.handleOf, hkeep.handleOf]
    exact hap hpos hpos'

theorem Stack.Housed.cells_kept (h : Stack.Housed mem frames)
    (hkeep : mem.KeepsFrames mem' frames) (hfits : ∀ fr ∈ frames, fr.func.FrameFits) :
    ∀ fr ∈ frames, ∀ u, fr.cell mem' u = fr.cell mem u := by
  intro fr hfr u
  refine Stack.cell_eq_of_block fr (hfits fr hfr) (fun hpos => ?_) u
  obtain ⟨b, hb, -⟩ := (h.each fr hfr).block hpos
  rw [(hkeep.2 fr hfr hpos b hb).block?_eq, hb.block?_eq]

theorem Machine.Housed.kept (h : Machine.Housed e root fr rest ⟨host, steps, frames⟩)
    (hkeep : host.memory.KeepsFrames host'.memory frames) :
    Machine.Housed e root fr rest ⟨host', steps, frames⟩ :=
  ⟨⟨hkeep.1.trans h.memory, h.stack⟩, h.frames, h.housed.kept hkeep⟩

theorem AreTwins.kept {e' : Engine} {root' : Func} {m' : Machine} (hk : e.Keeps root)
    (h : AreTwins e e' root root' ⟨host, steps, frames⟩ m')
    (hkeep : host.memory.KeepsFrames host'.memory frames) :
    AreTwins e e' root root' ⟨host', steps, frames⟩ m' := by
  obtain ⟨fr, fr', rest, rest', h⟩ := h
  have hframes : frames = fr :: rest := h.left.frames
  have hfits : ∀ g ∈ frames, g.func.FrameFits := fun g hg => by
    have hs := h.left.stack.each g hg
    exact hk.fits g.func hs.reached hs.compiled
  have hcells := h.left.housed.cells_kept hkeep hfits
  have hall : List.Forall₂ (Frame.Alike host'.memory m'.host.memory) (fr :: rest) (fr' :: rest') :=
    Frame.Alike.keep_cells (.cons h.top h.waiting) (fun g hg => hcells g (hframes ▸ hg))
      fun _ _ _ => rfl
  obtain ⟨htop, hwaiting⟩ := List.forall₂_cons.mp hall
  exact ⟨fr, fr', rest, rest', h.left.kept hkeep, h.right, h.steps, htop, hwaiting⟩

/-! ## One call beside others -/

def Foreign (mem : Memory) (others : Frame → Prop) (a : Word) (b : Block) : Prop :=
  ∃ fr, others fr ∧ 0 < fr.func.frameSize ∧ a = fr.base ∧ mem.Holds a b

/-- Code that may be called together with other code. -/
structure Engine.Shares (e : Engine) (f : Func) : Prop where
  keeps : e.Keeps f
  slots : e.SlotsInside f
  stays : e.StaysLocal f
  known : ∃ fn, e.findFunc fn = .ok f

theorem Engine.Shares.twins (h : e.Shares f) : TwinRuns e e f f :=
  ⟨h.keeps, h.keeps, .refl h.keeps.typed, h.stays⟩

variable {m : Machine} {others : Frame → Prop} {act : StepM (Option Word)}

theorem Machine.Housed.spares (hf : e.Shares f) (h : m.Housed e f fr rest)
    (hapart : ∀ g ∈ m.frames, ∀ g', others g' → g.Apart m.host.memory g') :
    m.Spares e f (Foreign m.host.memory others) := by
  refine ⟨fun g hg => (h.stack.each g hg).reached, h.memory, ?_, ?_⟩
  · rintro _ b ⟨g, -, -, rfl, hb⟩
    exact hb
  · rintro _ b ⟨g, hg, hpos, rfl, hb⟩ g' hg'
    have hs := h.stack.each g' hg'
    exact (h.housed.each g' hg').spares (hf.slots _ hs.reached hs.compiled) hb
      fun hpos' => hapart g' hg' g hg hpos' hpos

/-- A part of a call: it goes the same way on twins, and spares the blocks of others. -/
structure Machine.Part (e : Engine) (f : Func) (foreign : Word → Block → Prop) (m : Machine)
    (act : StepM (Option Word)) : Prop where
  twins : Both (StepM.TwinGoes e e f f) act act m m
  spares : Ends act m (fun _ m' => m'.Spares e f foreign) fun _ m' => m'.Spares e f foreign

/-- Where a call stands after a part of it: the others keep their blocks, and if it is
still under way it has its own. -/
theorem Machine.Part.settles {foreign : Word → Block → Prop} (h : m.Part e f foreign act) :
    ∃ m' : Machine, (Strand.settle (act.run m : Except (Halt Failure) (Option Word) × Machine)).2 = m'.host ∧
      m'.Spares e f foreign ∧
      ∀ steps frames, (Strand.settle (act.run m : Except (Halt Failure) (Option Word) × Machine)).1 =
        .running steps frames → m' = ⟨m'.host, steps, frames⟩ ∧
        ∃ fr rest, m'.Housed e f fr rest := by
  have htwins := h.twins
  have hspares := h.spares
  unfold Both at htwins
  unfold Ends at hspares
  rcases hrun : (act.run m : Except (Halt Failure) (Option Word) × Machine) with
    ⟨halt | (_ | bits), m'⟩ <;> rw [hrun] at htwins hspares
  · exact ⟨m'.unwound, rfl, hspares.unwound, fun _ _ => nofun⟩
  · refine ⟨m', rfl, hspares, fun steps frames heq => ?_⟩
    cases heq
    cases htwins with
    | ok hgoes =>
      obtain ⟨fr, _, rest, _, hsame⟩ := hgoes
      exact ⟨rfl, fr, rest, hsame.left⟩
  · exact ⟨m', rfl, hspares, fun _ _ => nofun⟩

theorem Machine.Housed.part (hf : e.Shares f) (h : m.Housed e f fr rest)
    (hapart : ∀ g ∈ m.frames, ∀ g', others g' → g.Apart m.host.memory g') :
    m.Part e f (Foreign m.host.memory others) (StepM.step e) := by
  have hself : AreTwins e e f f m m := by
    refine ⟨fr, fr, rest, rest, h, h, rfl, ⟨.refl _, rfl, rfl, rfl, fun _ _ => rfl⟩, ?_⟩
    exact List.forall₂_same.mpr fun g _ => ⟨.refl _, rfl, rfl, rfl, fun _ _ => rfl⟩
  exact ⟨StepM.both_step hf.twins hself,
    .of_state (StepM.onward_step hf.slots hf.stays m (h.spares hf hapart))⟩

theorem StepM.both_begin (hf : e.Shares f) (hs : host.memory.Serves e.target.ptrSize)
    (hs' : host'.memory.Serves e.target.ptrSize) {words : List Word}
    (hlen : words.length = f.params.length) :
    Both (TwinGoes e e f f) (begin e f words) (begin e f words) { host } { host := host' } := by
  obtain ⟨fn, hfn⟩ := hf.known
  refine .bind' (both_enter hf.twins (.start hs) (.start hs') rfl .nil hfn hfn (.refl f) .refl .refl hlen
    (fun _ hfr hfunc _ => .outer hfr hfunc) fun _ hfr hfunc _ => .outer hfr hfunc) ?_
  exact fun _ _ _ h => .pure' h

theorem StepM.part_begin (hf : e.Shares f) (hs : host.memory.Serves e.target.ptrSize)
    {words : List Word} (hlen : words.length = f.params.length) :
    Machine.Part e f (Foreign host.memory others) { host } (begin e f words) := by
  refine ⟨both_begin hf hs hs hlen, .of_state ?_⟩
  have hstart : Machine.Spares e f (Foreign host.memory others) { host } := by
    refine ⟨List.forall_mem_nil _, hs, ?_, fun _ _ _ => List.forall_mem_nil _⟩
    rintro _ b ⟨g, -, -, rfl, hb⟩
    exact hb
  exact Leaves.bind' (onward_enter hf.slots .refl words 0 "" 0) (fun _ => .pure' _) _ hstart

/-! ## All calls -/

/-- The machines of the calls are in order, and no two have a block in common. -/
structure Crew.Kept (e : Engine) (jobs : List Job) (c : Crew) : Prop where
  serves : c.host.memory.Serves e.target.ptrSize
  housed : ∀ (k : Nat) job steps frames, jobs[k]? = some job →
    c.strands[k]? = some (.running steps frames) →
    ∃ fr rest, Machine.Housed e job.func fr rest ⟨c.host, steps, frames⟩
  apart : ∀ (j k : Nat) (s t : Strand), j ≠ k → c.strands[j]? = some s → c.strands[k]? = some t →
    ∀ fr ∈ s.frames, ∀ g ∈ t.frames, fr.Apart c.host.memory g
  length : c.strands.length = jobs.length

/-- What is to be called may be called together, with as many arguments as it takes. -/
def Engine.Allows (e : Engine) (jobs : List Job) : Prop :=
  ∀ job ∈ jobs, e.Shares job.func ∧ ∀ words ∈ job.words, words.length = job.func.params.length

namespace Crew

variable {jobs : List Job} {c : Crew} {k : Nat} {job : Job} {s : Strand}

def Others (c : Crew) (k : Nat) (fr : Frame) : Prop :=
  ∃ (j : Nat) (s : Strand), j ≠ k ∧ c.strands[j]? = some s ∧ fr ∈ s.frames

/-- What the step of one call leaves of the crew. -/
structure Moved (e : Engine) (job : Job) (c : Crew) (k : Nat) (s : Strand) (host : Host) : Prop where
  serves : host.memory.Serves e.target.ptrSize
  bits : host.memory.offsetBits = c.host.memory.offsetBits
  holds : ∀ g, c.Others k g → 0 < g.func.frameSize → ∀ b, c.host.memory.Holds g.base b →
    host.memory.Holds g.base b
  housed : ∀ steps frames, s = .running steps frames →
    ∃ fr rest, Machine.Housed e job.func fr rest ⟨host, steps, frames⟩
  apart : ∀ fr ∈ s.frames, ∀ g, c.Others k g → fr.Apart host.memory g

theorem Kept.other_housed (h : c.Kept e jobs) {fr : Frame} (hfr : c.Others k fr) :
    fr.Housed c.host.memory := by
  obtain ⟨j, s, -, hs, hmem⟩ := hfr
  cases s with
  | running steps frames =>
    obtain ⟨hlt, -⟩ := List.getElem?_eq_some_iff.mp hs
    obtain ⟨job, hjob⟩ : ∃ job, jobs[j]? = some job :=
      ⟨_, List.getElem?_eq_getElem (Nat.lt_of_lt_of_eq hlt h.length)⟩
    obtain ⟨_, _, hhoused⟩ := h.housed j job steps frames hjob hs
    exact hhoused.housed.each fr hmem
  | waiting | ended | dropped => cases hmem

theorem Kept.moved_same (h : c.Kept e jobs) (hs : s.frames = [])
    (hrun : ∀ steps frames, s ≠ .running steps frames) : c.Moved e job k s c.host := by
  refine ⟨h.serves, rfl, fun _ _ _ _ hb => hb, fun _ _ heq => absurd heq (hrun _ _), ?_⟩
  rw [hs]
  exact List.forall_mem_nil _

theorem Kept.moved_part (h : c.Kept e jobs) {m : Machine} (hhost : m.host = c.host)
    {act : StepM (Option Word)}
    (hpart : m.Part e job.func (Foreign m.host.memory (c.Others k)) act) :
    c.Moved e job k (Strand.settle (act.run m : Except (Halt Failure) (Option Word) × Machine)).1
      (Strand.settle (act.run m : Except (Halt Failure) (Option Word) × Machine)).2 := by
  rw [hhost] at hpart
  obtain ⟨m', hm', hspares, hrunning⟩ := hpart.settles
  rw [hm']
  generalize (Strand.settle (act.run m : Except (Halt Failure) (Option Word) × Machine)).1 = s
    at hrunning
  refine ⟨hspares.serves, hspares.serves.trans h.serves.symm,
    fun g hg hpos b hb => hspares.holds _ b ⟨g, hg, hpos, rfl, hb⟩, fun steps frames hs => ?_,
    fun fr hfr g hg hpos hpos' => ?_⟩
  · obtain ⟨heq, hhoused⟩ := hrunning steps frames hs
    exact heq ▸ hhoused
  · cases s with
    | running steps frames =>
      obtain ⟨heq, fr', rest, hhoused⟩ := hrunning steps frames rfl
      have hframes : m'.frames = frames := by rw [heq]
      have hown := hframes.symm ▸ hfr
      obtain ⟨b, hb, -⟩ := (h.other_housed hg).block hpos'
      obtain ⟨b', hb', -⟩ := (hhoused.housed.each fr hown).block hpos
      have hzero : fr.base ≠ 0 := by
        intro h0
        have := hb'.handle
        simp [Memory.handleOf, h0] at this
      have hwritten := (hspares.apart _ b ⟨g, hg, hpos', rfl, hb⟩ fr hown).written fr.base
        List.mem_cons_self
      exact hwritten.resolve_left hzero
    | waiting | ended | dropped => cases hfr

theorem Kept.next (ha : e.Allows jobs) (h : c.Kept e jobs) (hjob : jobs[k]? = some job)
    (hs : c.strands[k]? = some s) (off : Bool) :
    c.Moved e job k (s.next e job off c.host).1 (s.next e job off c.host).2 := by
  obtain ⟨hshares, hwords⟩ := ha job (List.mem_of_getElem? hjob)
  cases s with
  | waiting =>
    unfold Strand.next
    cases hw : job.words with
    | none => exact h.moved_same rfl fun _ _ => nofun
    | some words =>
      dsimp only
      split
      · exact h.moved_same rfl fun _ _ => nofun
      · exact h.moved_part rfl (StepM.part_begin hshares h.serves (hwords words hw))
  | running steps frames =>
    obtain ⟨fr, rest, hhoused⟩ := h.housed k job steps frames hjob hs
    refine h.moved_part (m := ⟨c.host, steps, frames⟩) rfl (hhoused.part hshares ?_)
    rintro g hg g' ⟨j, t, hne, ht, hg'⟩
    exact h.apart k j _ t hne.symm hs ht g hg g' hg'
  | ended r => exact h.moved_same rfl fun _ _ => nofun
  | dropped => exact h.moved_same rfl fun _ _ => nofun

theorem Moved.keeps (h : c.Moved e job k s host) {j : Nat} (hne : j ≠ k) {steps : Nat}
    {frames : List Frame} (hj : c.strands[j]? = some (.running steps frames)) :
    c.host.memory.KeepsFrames host.memory frames :=
  ⟨h.bits, fun fr hfr hpos b hb => h.holds fr ⟨j, _, hne, hj, hfr⟩ hpos b hb⟩

theorem Kept.put (h : c.Kept e jobs) (hjob : jobs[k]? = some job)
    (hm : c.Moved e job k s host) : Kept e jobs { host, strands := c.strands.set k s } := by
  have hsame : ∀ a, host.memory.handleOf a = c.host.memory.handleOf a := fun a => by
    unfold Memory.handleOf
    rw [hm.bits]
  have hmoved : ∀ {fr g : Frame}, fr.Apart c.host.memory g → fr.Apart host.memory g := by
    intro fr g hap hpos hpos'
    rw [hsame, hsame]
    exact hap hpos hpos'
  refine ⟨hm.serves, fun j job' steps frames hj hs => ?_, fun i j t t' hne hi hj => ?_, ?_⟩
  · rw [List.getElem?_set] at hs
    split at hs
    · next hkj =>
      subst hkj
      obtain rfl := Option.mem_unique hjob hj
      split at hs
      · exact hm.housed steps frames (Option.some.inj hs)
      · cases hs
    · next hkj =>
      obtain ⟨fr, rest, hhoused⟩ := h.housed j job' steps frames hj hs
      exact ⟨fr, rest, hhoused.kept (hm.keeps (Ne.symm hkj) hs)⟩
  · rw [List.getElem?_set] at hi hj
    intro fr hfr g hg
    by_cases hki : k = i
    · subst hki
      rw [if_neg hne] at hj
      simp only [if_true] at hi
      split at hi
      · obtain rfl := Option.some.inj hi
        exact hm.apart fr hfr g ⟨j, t', Ne.symm hne, hj, hg⟩
      · cases hi
    · rw [if_neg hki] at hi
      by_cases hkj : k = j
      · subst hkj
        simp only [if_true] at hj
        split at hj
        · obtain rfl := Option.some.inj hj
          exact fun hpos hpos' => (hm.apart g hg fr ⟨i, t, hne, hi, hfr⟩ hpos' hpos).symm
        · cases hj
      · rw [if_neg hkj] at hj
        exact hmoved (h.apart i j t t' hne hi hj fr hfr g hg)
  · exact (List.length_set ..).trans h.length

theorem Kept.turn (ha : e.Allows jobs) (h : c.Kept e jobs) (k : Nat) :
    (c.turn e jobs k).Kept e jobs := by
  unfold Crew.turn
  cases hjob : jobs[k]? with
  | none => exact h
  | some job =>
    cases hs : c.strands[k]? with
    | none => exact h
    | some s => exact h.put hjob (h.next ha hjob hs _)

theorem strand_start {host : Host} (hk : (start host jobs).strands[k]? = some s) :
    s = .waiting := by
  unfold start at hk
  rw [List.getElem?_map] at hk
  obtain ⟨-, -, rfl⟩ := Option.map_eq_some_iff.mp hk
  rfl

theorem kept_start (hs : host.memory.Serves e.target.ptrSize) (jobs : List Job) :
    (start host jobs).Kept e jobs := by
  refine ⟨hs, fun k job steps frames _ hk => ?_, fun j k s t _ hj _ fr hfr => ?_, ?_⟩
  · cases strand_start hk
  · rw [strand_start hj] at hfr
    cases hfr
  · exact List.length_map _

end Crew

/-! ## The same call alone -/

/-- A call made alone on a host has no room, if it is given `n` steps or more. -/
def Machine.NoRoomAfter (e : Engine) (f : Func) (words : List Word) (host : Host) (n : Nat) : Prop :=
  ∀ fuel, (Machine.call e (n + fuel) host f words).1.isNoRoom = true

/-- A call among several goes as the one made alone on `alone`: at most `n` steps of that
lead to its twin, or to the same end. -/
inductive Strand.Follows (e : Engine) (f : Func) (words : List Word) (alone : Host) (host : Host) :
    Nat → Strand → Prop
  | waiting {n : Nat} : Follows e f words alone host n .waiting
  | dropped {n : Nat} : Follows e f words alone host n .dropped
  | noRoom {n : Nat} {s : Strand} (h : Machine.NoRoomAfter e f words alone n) :
      Follows e f words alone host n s
  | running {k n steps : Nat} {frames : List Frame} {m : Machine} (hk : k ≤ n)
      (htwins : AreTwins e e f f ⟨host, steps, frames⟩ m)
      (hruns : ∀ fuel, Machine.call e (k + fuel) alone f words = Machine.run e fuel m) :
      Follows e f words alone host n (.running steps frames)
  | ended {n : Nat} {r : RunEnd} (h : r.isNoRoom = true ∨
      ∀ fuel, (Machine.call e (n + fuel) alone f words).1 = r) :
      Follows e f words alone host n (.ended r)

namespace Strand.Follows

variable {words : List Word} {alone : Host} {n : Nat} {s : Strand}

theorem le (h : s.Follows e f words alone host n) {n' : Nat} (hn : n ≤ n') :
    s.Follows e f words alone host n' := by
  have hmore : ∀ fuel, n' + fuel = n + (n' - n + fuel) := fun fuel => by omega
  cases h with
  | waiting => exact .waiting
  | dropped => exact .dropped
  | noRoom h =>
    refine .noRoom fun fuel => ?_
    rw [hmore]
    exact h _
  | running hk htwins hruns => exact .running (Nat.le_trans hk hn) htwins hruns
  | ended h =>
    refine .ended (h.imp_right fun h fuel => ?_)
    rw [hmore]
    exact h _

theorem kept (hk : e.Keeps f) (h : s.Follows e f words alone host n)
    (hkeep : ∀ steps frames, s = .running steps frames →
      host.memory.KeepsFrames host'.memory frames) :
    s.Follows e f words alone host' n := by
  cases h with
  | waiting => exact .waiting
  | dropped => exact .dropped
  | noRoom h => exact .noRoom h
  | running hkn htwins hruns => exact .running hkn (htwins.kept hk (hkeep _ _ rfl)) hruns
  | ended h => exact .ended h

theorem settled {act : StepM (Option Word)} {m m' : Machine} {k : Nat} (hk : k ≤ n)
    (hboth : Both (StepM.TwinGoes e e f f) act act m m')
    (hgoes : ∀ m₁, (act.run m' : Except (Halt Failure) (Option Word) × Machine) = (.ok none, m₁) →
      ∀ fuel, Machine.call e (k + fuel) alone f words = Machine.run e fuel m₁)
    (hends : ∀ w m₁, (act.run m' : Except (Halt Failure) (Option Word) × Machine) =
      (.ok (some w), m₁) → ∀ fuel, (Machine.call e (k + fuel) alone f words).1 = .result w)
    (hstops : ∀ h m₁, (act.run m' : Except (Halt Failure) (Option Word) × Machine) =
      (.error h, m₁) → ∀ fuel, (Machine.call e (k + fuel) alone f words).1 = .halted h) :
    (Strand.settle (act.run m : Except (Halt Failure) (Option Word) × Machine)).1.Follows e f words
      alone (Strand.settle (act.run m : Except (Halt Failure) (Option Word) × Machine)).2 n := by
  unfold Both at hboth
  generalize (act.run m : Except (Halt Failure) (Option Word) × Machine) = r at hboth ⊢
  generalize (act.run m' : Except (Halt Failure) (Option Word) × Machine) = r' at hboth hgoes hends hstops
  cases hboth with
  | @ok a m₁ m₁' h =>
    cases a with
    | none => exact .running hk h (hgoes _ rfl)
    | some w => exact le (.ended (.inr (hends w _ rfl))) hk
  | @stop halt m₁ m₁' _ => exact le (.ended (.inr (hstops halt _ rfl))) hk
  | left hn => exact .ended (.inl hn)
  | @right halt m₁ _ hn =>
    refine le (.noRoom fun fuel => ?_) hk
    rw [hstops halt m₁ rfl]
    exact hn

theorem next (hf : e.Shares f) (halone : alone.memory.Serves e.target.ptrSize)
    (hs : host.memory.Serves e.target.ptrSize) (hlen : words.length = f.params.length)
    (h : s.Follows e f words alone host n) (off : Bool) :
    (s.next e ⟨f, some words⟩ off host).1.Follows e f words alone
      (s.next e ⟨f, some words⟩ off host).2 (n + 1) := by
  cases h with
  | waiting =>
    unfold Strand.next
    dsimp only
    split
    · exact .dropped
    · refine settled (k := 0) (Nat.zero_le _) (StepM.both_begin hf hs halone hlen) ?_ ?_ ?_
      all_goals
        unfold StepM.begin Machine.call
        rw [run_bind]
        rcases (StepM.enter e f words 0 "" 0).run { host := alone } with ⟨_ | _, m₁⟩
      · exact fun _ => nofun
      · rintro _ ⟨⟩ fuel
        rw [Nat.zero_add]
      · exact fun _ _ => nofun
      · exact fun _ _ => nofun
      · rintro _ _ ⟨⟩ fuel
        rfl
      · exact fun _ _ => nofun
  | dropped => exact .dropped
  | noRoom h =>
    refine .noRoom fun fuel => ?_
    rw [Nat.add_right_comm]
    exact h (fuel + 1)
  | @running k _ steps frames m hk htwins hruns =>
    have hstep : ∀ fuel, Machine.call e (k + 1 + fuel) alone f words = Machine.run e (fuel + 1) m := by
      intro fuel
      rw [← hruns, Nat.add_right_comm, Nat.add_assoc]
    refine settled (k := k + 1) (Nat.succ_le_succ hk) (StepM.both_step hf.twins htwins) ?_ ?_ ?_
    · intro m₁ hrun fuel
      rw [hstep, Machine.run, hrun]
    · intro w m₁ hrun fuel
      rw [hstep, Machine.run, hrun]
    · intro halt m₁ hrun fuel
      rw [hstep, Machine.run, hrun]
  | ended h => exact le (.ended h) (Nat.le_succ n)

end Strand.Follows

namespace Crew

variable {jobs : List Job} {c : Crew} {k : Nat} {f : Func} {words : List Word} {alone : Host}
  {n : Nat}

def Follows (e : Engine) (f : Func) (words : List Word) (alone : Host) (k n : Nat) (c : Crew) :
    Prop :=
  ∀ s, c.strands[k]? = some s → s.Follows e f words alone c.host n

theorem Kept.follows_turn (ha : e.Allows jobs) (hjob : jobs[k]? = some ⟨f, some words⟩)
    (halone : alone.memory.Serves e.target.ptrSize) (h : c.Kept e jobs)
    (hfollows : c.Follows e f words alone k n) (j : Nat) :
    (c.turn e jobs j).Follows e f words alone k (n + 1) := by
  obtain ⟨hshares, hwords⟩ := ha _ (List.mem_of_getElem? hjob)
  unfold Crew.turn
  cases hjob' : jobs[j]? with
  | none => exact fun s hs => (hfollows s hs).le (Nat.le_succ n)
  | some job =>
    cases ht : c.strands[j]? with
    | none => exact fun s hs => (hfollows s hs).le (Nat.le_succ n)
    | some t =>
      intro s hs
      have hmoved := h.next ha hjob' ht (c.strands.any Strand.failed)
      dsimp only at hs ⊢
      rw [List.getElem?_set] at hs
      by_cases hjk : j = k
      · subst hjk
        obtain rfl := Option.mem_unique hjob hjob'
        simp only [if_true] at hs
        split at hs
        · obtain rfl := Option.some.inj hs
          exact (hfollows t ht).next hshares halone h.serves (hwords words rfl) _
        · cases hs
      · rw [if_neg hjk] at hs
        refine ((hfollows s hs).le (Nat.le_succ n)).kept hshares.keeps fun steps frames heq => ?_
        exact hmoved.keeps (Ne.symm hjk) (heq ▸ hs)

theorem kept_after (ha : e.Allows jobs) (h : c.Kept e jobs) (schedule : List Nat) :
    (c.after e jobs schedule).Kept e jobs := by
  induction schedule generalizing c with
  | nil => exact h
  | cons j schedule ih => exact ih (h.turn ha j)

theorem Kept.follows_after (ha : e.Allows jobs) (hjob : jobs[k]? = some ⟨f, some words⟩)
    (halone : alone.memory.Serves e.target.ptrSize) (h : c.Kept e jobs)
    (hfollows : c.Follows e f words alone k n) (schedule : List Nat) :
    (c.after e jobs schedule).Follows e f words alone k (n + schedule.length) := by
  induction schedule generalizing c n with
  | nil => exact hfollows
  | cons j schedule ih =>
    have hrest := ih (h.turn ha j) (h.follows_turn ha hjob halone hfollows j)
    rw [List.length_cons, Nat.add_comm schedule.length, ← Nat.add_assoc]
    exact hrest

/-- A call that comes to an end among others ends as the same call made alone on any
other host, unless one of the two had no room. -/
theorem ends_as_alone (ha : e.Allows jobs) (hs : host.memory.Serves e.target.ptrSize)
    (halone : alone.memory.Serves e.target.ptrSize) (hjob : jobs[k]? = some ⟨f, some words⟩)
    {schedule : List Nat} {r : RunEnd}
    (hover : ((start host jobs).after e jobs schedule).strands[k]? = some (.ended r)) :
    r.isNoRoom = true ∨ Machine.NoRoomAfter e f words alone schedule.length ∨
      ∀ fuel, (Machine.call e (schedule.length + fuel) alone f words).1 = r := by
  have hstart : (start host jobs).Follows e f words alone k 0 := fun s hs =>
    strand_start hs ▸ .waiting
  have hend := (kept_start hs jobs).follows_after ha hjob halone hstart schedule _ hover
  rw [Nat.zero_add] at hend
  cases hend with
  | noRoom h => exact .inr (.inl h)
  | ended h => exact h.imp_right .inr

/-- Where a failure comes from: a call that ended without a result, or one whose
arguments cannot be passed. -/
def Blamed (jobs : List Job) (c : Crew) (j : Nat) : Prop :=
  (∃ r, c.strands[j]? = some (.ended r) ∧ (Strand.ended r).failed = true) ∨
    c.strands[j]? = some .dropped ∧ ∃ job, jobs[j]? = some job ∧ job.words = none

theorem strands_turn (hjob : jobs[k]? = some job) (hs : c.strands[k]? = some s) (j : Nat) :
    (c.turn e jobs k).strands[j]? = if k = j then
      some (s.next e job (c.strands.any Strand.failed) c.host).1 else c.strands[j]? := by
  obtain ⟨hlt, -⟩ := List.getElem?_eq_some_iff.mp hs
  unfold Crew.turn
  rw [hjob, hs]
  dsimp only
  rw [List.getElem?_set, if_pos hlt]

theorem turn_cases (e : Engine) (jobs : List Job) (c : Crew) (k : Nat) :
    c.turn e jobs k = c ∨ ∃ job s, jobs[k]? = some job ∧ c.strands[k]? = some s := by
  unfold Crew.turn
  cases jobs[k]? with
  | none => exact .inl rfl
  | some job =>
    cases c.strands[k]? with
    | none => exact .inl rfl
    | some s => exact .inr ⟨job, s, rfl, rfl⟩

theorem Blamed.turn {j : Nat} (h : c.Blamed jobs j) (k : Nat) : (c.turn e jobs k).Blamed jobs j := by
  obtain heq | ⟨job, s, hjob, hs⟩ := turn_cases e jobs c k
  · rwa [heq]
  · have hstays : ∀ t, c.strands[j]? = some t → (∀ off, (t.next e job off c.host).1 = t) →
        (c.turn e jobs k).strands[j]? = some t := by
      intro t ht hnext
      rw [strands_turn hjob hs]
      split
      · next hkj =>
        subst hkj
        obtain rfl := Option.mem_unique hs ht
        rw [hnext]
      · exact ht
    obtain ⟨r, hr, hfailed⟩ | ⟨hdropped, hwords⟩ := h
    · exact .inl ⟨r, hstays _ hr fun _ => rfl, hfailed⟩
    · exact .inr ⟨hstays _ hdropped fun _ => rfl, hwords⟩

def Fair (jobs : List Job) (c : Crew) : Prop :=
  ∀ (k : Nat) (s : Strand), c.strands[k]? = some s → s.failed = true → ∃ j, c.Blamed jobs j

theorem failed_settle {r : Except (Halt Failure) (Option Word) × Machine}
    (h : (Strand.settle r).1.failed = true) :
    ∃ o, (Strand.settle r).1 = .ended o ∧ (Strand.ended o).failed = true := by
  rcases r with ⟨halt | (_ | bits), m⟩
  · exact ⟨_, rfl, rfl⟩
  · cases h
  · cases h

theorem Fair.turn (h : c.Fair jobs) (k : Nat) : (c.turn e jobs k).Fair jobs := by
  obtain heq | ⟨job, s, hjob, hs⟩ := turn_cases e jobs c k
  · rwa [heq]
  · intro j t ht hfailed
    rw [strands_turn hjob hs] at ht
    have hold : ∀ (i : Nat) (u : Strand), c.strands[i]? = some u → u.failed = true →
        ∃ j, (c.turn e jobs k).Blamed jobs j := fun i u hu hfail =>
      let ⟨j, hj⟩ := h i u hu hfail
      ⟨j, hj.turn k⟩
    split at ht
    · next hkj =>
      subst hkj
      obtain rfl := Option.some.inj ht
      have hnew := strands_turn (e := e) hjob hs k
      rw [if_pos rfl] at hnew
      have hover : ∀ {r : Except (Halt Failure) (Option Word) × Machine},
          (s.next e job (c.strands.any Strand.failed) c.host).1 = (Strand.settle r).1 →
          ∃ j, (c.turn e jobs k).Blamed jobs j := by
        intro r hr
        rw [hr] at hfailed hnew
        obtain ⟨o, ho, hofailed⟩ := failed_settle hfailed
        exact ⟨k, .inl ⟨o, ho ▸ hnew, hofailed⟩⟩
      cases s with
      | waiting =>
        cases hw : job.words with
        | none =>
          refine ⟨k, .inr ⟨hnew.trans ?_, job, hjob, hw⟩⟩
          simp [Strand.next, hw]
        | some words =>
          by_cases hoff : c.strands.any Strand.failed = true
          · obtain ⟨u, hu, hufailed⟩ := List.any_eq_true.mp hoff
            obtain ⟨i, hi⟩ := List.mem_iff_getElem?.mp hu
            exact hold i u hi hufailed
          · refine hover (r := (StepM.begin e job.func words).run { host := c.host }) ?_
            simp [Strand.next, hw, hoff]
      | running steps frames => exact hover rfl
      | ended r => exact hold k _ hs hfailed
      | dropped => exact hold k _ hs hfailed
    · exact hold j t ht hfailed

theorem fair_start (host : Host) (jobs : List Job) : (start host jobs).Fair jobs := by
  intro k s hs hfailed
  rw [strand_start hs] at hfailed
  cases hfailed

/-- After every schedule a failure comes from a call that ended without a result, or
from arguments that cannot be passed. -/
theorem Fair.after (h : c.Fair jobs) (schedule : List Nat) :
    (c.after e jobs schedule).Fair jobs := by
  induction schedule generalizing c with
  | nil => exact h
  | cons j schedule ih => exact ih (h.turn j)

def Unmade (jobs : List Job) (c : Crew) : Prop :=
  ∀ (k : Nat) job s, jobs[k]? = some job → job.words = none → c.strands[k]? = some s →
    s = .waiting ∨ s = .dropped

theorem Unmade.turn (h : c.Unmade jobs) (k : Nat) : (c.turn e jobs k).Unmade jobs := by
  obtain heq | ⟨job, s, hjob, hs⟩ := turn_cases e jobs c k
  · rwa [heq]
  · intro j job' t hjob' hw ht
    rw [strands_turn hjob hs] at ht
    split at ht
    · next hkj =>
      subst hkj
      obtain rfl := Option.mem_unique hjob hjob'
      obtain rfl := Option.some.inj ht
      obtain rfl | rfl := h k job s hjob hw hs
      · refine .inr ?_
        simp [Strand.next, hw]
      · exact .inr rfl
    · exact h j job' t hjob' hw ht

theorem Unmade.after (h : c.Unmade jobs) (schedule : List Nat) :
    (c.after e jobs schedule).Unmade jobs := by
  induction schedule generalizing c with
  | nil => exact h
  | cons j schedule ih => exact ih (h.turn j)

/-- No call is left to be made or to go on. -/
def Idle (c : Crew) : Prop :=
  ∀ s ∈ c.strands, s = .dropped ∨ ∃ r, s = .ended r

end Crew

end

end TypedIR
