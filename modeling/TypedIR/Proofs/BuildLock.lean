import Mathlib.Data.List.Basic
import Mathlib.Logic.Relation
import TypedIR.Proofs.Workspaces

/-
  The build lock: who builds, said three times, always agrees.

  A runtime keeps the holder of its lock, its engine keeps a cursor, and each
  context keeps its build. All of them change in the same few moves: a context
  is made, starts a build, ends it, or is destroyed. The moves are proved to
  keep the three in step, and every call is proved to be such moves; what
  clients do with the calls, nested in any way, then cannot break it.
-/

namespace TypedIR

/-- What the lock protocol sees of an engine: its cursor, and which of its
contexts are gone. -/
def Engine.turn (e : Engine) : ContextId × Array Bool := (e.building, e.contexts.map (·.destroyed))

/-- What the lock protocol sees of a runtime. -/
structure RuntimeLock where
  holder : Option CtxId
  turn : ContextId × Array Bool

/-- What the lock protocol sees of a context. -/
structure ContextLock where
  runtime : RuntimeId
  id : Nat
  build : Option BuildId
  destroyed : Bool

/-- What the lock protocol sees of a workspace. -/
structure Locks where
  runtimes : Array RuntimeLock
  contexts : Array ContextLock
  builds : Array Build

def Runtime.lock (r : Runtime) : RuntimeLock := ⟨r.holder, r.engine.turn⟩

def Context.lock (c : Context) : ContextLock := ⟨c.runtime, c.id, c.build, c.destroyed⟩

def Workspace.locks (w : Workspace) : Locks :=
  ⟨w.runtimes.map (·.lock), w.contexts.map (·.lock), w.builds⟩

namespace Locks

variable {l l' : Locks} {c : CtxId} {s : ContextLock} {r : RuntimeLock} {b : BuildId}

/-! ## The moves -/

def addRuntime (l : Locks) : Locks := { l with runtimes := l.runtimes.push ⟨none, 0, #[]⟩ }

def addContext (l : Locks) (rt : RuntimeId) (r : RuntimeLock) : Locks :=
  { l with
    runtimes := l.runtimes.setIfInBounds rt { r with turn := (r.turn.1, r.turn.2.push false) }
    contexts := l.contexts.push ⟨rt, r.turn.2.size + 1, none, false⟩ }

def start (l : Locks) (c : CtxId) (s : ContextLock) (r : RuntimeLock) : Locks :=
  { runtimes := l.runtimes.setIfInBounds s.runtime { r with holder := some c, turn := (s.id, r.turn.2) }
    contexts := l.contexts.setIfInBounds c { s with build := some l.builds.size }
    builds := l.builds.push { ctx := c } }

def finish (l : Locks) (c : CtxId) (s : ContextLock) (r : RuntimeLock) (b : BuildId) : Locks :=
  { runtimes := l.runtimes.setIfInBounds s.runtime { r with holder := none, turn := (0, r.turn.2) }
    contexts := l.contexts.setIfInBounds c { s with build := none }
    builds := l.builds.modify b ({ · with ended := true }) }

def destroy (l : Locks) (c : CtxId) (s : ContextLock) (r : RuntimeLock) : Locks :=
  { l with
    runtimes := l.runtimes.setIfInBounds s.runtime
      { r with turn := (r.turn.1, r.turn.2.setIfInBounds (s.id - 1) true) }
    contexts := l.contexts.setIfInBounds c { s with destroyed := true } }

/-- One move of the lock protocol. -/
inductive Move (l : Locks) : Locks → Prop
  | addRuntime : Move l l.addRuntime
  | addContext {rt : RuntimeId} {r : RuntimeLock} (hr : l.runtimes[rt]? = some r) :
      Move l (l.addContext rt r)
  | start {c : CtxId} {s : ContextLock} {r : RuntimeLock} (hs : l.contexts[c]? = some s)
      (hr : l.runtimes[s.runtime]? = some r) (hlive : s.destroyed = false)
      (hfree : r.holder = none) : Move l (l.start c s r)
  | finish {c : CtxId} {s : ContextLock} {r : RuntimeLock} {b : BuildId}
      (hs : l.contexts[c]? = some s) (hr : l.runtimes[s.runtime]? = some r)
      (hb : s.build = some b) : Move l (l.finish c s r b)
  | destroy {c : CtxId} {s : ContextLock} {r : RuntimeLock} (hs : l.contexts[c]? = some s)
      (hr : l.runtimes[s.runtime]? = some r) (hidle : s.build = none) : Move l (l.destroy c s r)

/-! ## What holds between moves -/

/-- The three records of who builds agree. -/
structure Sound (l : Locks) : Prop where
  home : ∀ {c : CtxId} {s : ContextLock}, l.contexts[c]? = some s →
    ∃ r : RuntimeLock, l.runtimes[s.runtime]? = some r ∧ s.id ≠ 0 ∧
      r.turn.2[s.id - 1]? = some s.destroyed ∧ (s.build.isSome → r.holder = some c)
  apart : ∀ {c c' : CtxId} {s s' : ContextLock}, l.contexts[c]? = some s →
    l.contexts[c']? = some s' → s.runtime = s'.runtime → s.id = s'.id → c = c'
  holder : ∀ {rt : RuntimeId} {r : RuntimeLock}, l.runtimes[rt]? = some r →
    (r.holder = none ∧ r.turn.1 = 0) ∨
    ∃ (c : CtxId) (s : ContextLock), r.holder = some c ∧ l.contexts[c]? = some s ∧
      s.runtime = rt ∧ s.build.isSome ∧ r.turn.1 = s.id
  token : ∀ {c : CtxId} {s : ContextLock} {b : BuildId}, l.contexts[c]? = some s →
    s.build = some b → ∃ t : Build, l.builds[b]? = some t ∧ t.ctx = c ∧ t.ended = false
  active : ∀ {b : BuildId} {t : Build}, l.builds[b]? = some t →
    ∃ s : ContextLock, l.contexts[t.ctx]? = some s ∧ (t.ended = false → s.build = some b)
  gone : ∀ {c : CtxId} {s : ContextLock}, l.contexts[c]? = some s → s.destroyed → s.build = none

theorem Sound.addRuntime (h : l.Sound) : l.addRuntime.Sound := by
  have home := @h.home
  have holder := @h.holder
  constructor <;> simp only [Locks.addRuntime]
  · grind
  · exact h.apart
  · grind
  · exact h.token
  · exact h.active
  · exact h.gone

theorem Sound.addContext {rt : RuntimeId} (h : l.Sound) (hr : l.runtimes[rt]? = some r) :
    (l.addContext rt r).Sound := by
  have home := @h.home
  constructor <;> simp only [Locks.addContext]
  · grind
  · have apart := @h.apart
    grind
  · have holder := @h.holder
    clear home
    grind
  · have token := @h.token
    clear home
    grind
  · have active := @h.active
    clear home
    grind
  · have gone := @h.gone
    clear home
    grind

theorem getElem?_replaced {α : Type} {xs : Array α} {i j : Nat} {x y z : α} (hx : xs[i]? = some x) :
    (xs.setIfInBounds i y)[j]? = some z ↔ j = i ∧ z = y ∨ j ≠ i ∧ xs[j]? = some z := by
  have hlt : i < xs.size := lt_of_getElem? hx
  by_cases hj : j = i
  · subst hj
    simp [Array.getElem?_setIfInBounds_self_of_lt hlt, eq_comm]
  · simp [Array.getElem?_setIfInBounds_ne (Ne.symm hj), hj]

/-- The three records still agree when a context and its runtime change, if the context stays
where it is, the runtime notes what became of it, and no other context loses the lock. -/
theorem Sound.turned {l' : Locks} {s' : ContextLock} {r' : RuntimeLock} (h : l.Sound)
    (hs : l.contexts[c]? = some s) (hr : l.runtimes[s.runtime]? = some r)
    (hruntimes : l'.runtimes = l.runtimes.setIfInBounds s.runtime r')
    (hcontexts : l'.contexts = l.contexts.setIfInBounds c s')
    (hrt : s'.runtime = s.runtime) (hid : s'.id = s.id)
    (hcell : r'.turn.2[s.id - 1]? = some s'.destroyed)
    (hcells : ∀ n, n ≠ s.id - 1 → r'.turn.2[n]? = r.turn.2[n]?)
    (hheld : ∀ d, d ≠ c → r.holder = some d → r'.holder = some d)
    (hturn : (r'.holder = none ∧ r'.turn.1 = 0 ∧ s'.build = none) ∨
      (r'.holder = some c ∧ r'.turn.1 = s.id ∧ s'.build.isSome) ∨
      (r'.holder = r.holder ∧ r'.turn.1 = r.turn.1 ∧ s'.build = none ∧ s.build = none))
    (htoken : ∀ {d t b}, l'.contexts[d]? = some t → t.build = some b →
      ∃ u : Build, l'.builds[b]? = some u ∧ u.ctx = d ∧ u.ended = false)
    (hactive : ∀ {b} {u : Build}, l'.builds[b]? = some u → ∃ t : ContextLock,
      l'.contexts[u.ctx]? = some t ∧ (u.ended = false → t.build = some b))
    (hgone : s'.destroyed → s'.build = none) : l'.Sound := by
  have hcontext {d : CtxId} {t} := getElem?_replaced (j := d) (y := s') (z := t) hs
  have hruntime {rt : RuntimeId} {q} := getElem?_replaced (j := rt) (y := r') (z := q) hr
  rw [← hcontexts] at hcontext
  rw [← hruntimes] at hruntime
  obtain ⟨r₀, hr₀, hne, -, -⟩ := h.home hs
  refine ⟨?home, ?apart, ?holder, htoken, hactive, ?gone⟩
  case home =>
    intro d t ht
    obtain ⟨rfl, rfl⟩ | ⟨hd, ht⟩ := hcontext.mp ht
    · refine ⟨r', hruntime.mpr (.inl ⟨hrt, rfl⟩), hid ▸ hne, hid ▸ hcell, ?_⟩
      grind
    · obtain ⟨q, hq, hne', hcell', hb⟩ := h.home ht
      by_cases hsame : t.runtime = s.runtime
      · -- another context of the runtime has another number
        have hother : t.id ≠ s.id := fun he => hd (h.apart ht hs hsame he)
        obtain rfl : q = r := Option.mem_unique hq (hsame ▸ hr)
        exact ⟨r', hruntime.mpr (.inl ⟨hsame, rfl⟩), hne', (hcells _ (by omega)).trans hcell',
          fun hb' => hheld d hd (hb hb')⟩
      · exact ⟨q, hruntime.mpr (.inr ⟨hsame, hq⟩), hne', hcell', hb⟩
  case apart =>
    intro d d' t t' ht ht' hrt' hid'
    obtain ⟨rfl, rfl⟩ | ⟨-, ht⟩ := hcontext.mp ht <;> obtain ⟨rfl, rfl⟩ | ⟨-, ht'⟩ := hcontext.mp ht'
    · rfl
    · exact h.apart hs ht' (hrt.symm.trans hrt') (hid.symm.trans hid')
    · exact h.apart ht hs (hrt'.trans hrt) (hid'.trans hid)
    · exact h.apart ht ht' hrt' hid'
  case holder =>
    intro rt q hq
    -- whoever held a lock and was not `c` is where it was
    have hstays {d t} (hd : d ≠ c) (ht : l.contexts[d]? = some t) : l'.contexts[d]? = some t :=
      hcontext.mpr (.inr ⟨hd, ht⟩)
    obtain ⟨rfl, rfl⟩ | ⟨hrt', hq⟩ := hruntime.mp hq
    · obtain ⟨hn, h0, -⟩ | ⟨hc, hcur, hb⟩ | ⟨hsame, hcur, -, hidle⟩ := hturn
      · exact .inl ⟨hn, h0⟩
      · exact .inr ⟨c, s', hc, hcontext.mpr (.inl ⟨rfl, rfl⟩), hrt, hb, hid ▸ hcur⟩
      · rw [hsame, hcur]
        refine (h.holder hr).imp_right ?_
        rintro ⟨d, t, hd, ht, hrest⟩
        have hdc : d ≠ c := by
          rintro rfl
          obtain rfl := Option.mem_unique ht hs
          simp [hidle] at hrest
        exact ⟨d, t, hd, hstays hdc ht, hrest⟩
    · refine (h.holder hq).imp_right ?_
      rintro ⟨d, t, hd, ht, rfl, hrest⟩
      have hdc : d ≠ c := by
        rintro rfl
        exact hrt' (congrArg _ (Option.mem_unique ht hs))
      exact ⟨d, t, hd, hstays hdc ht, rfl, hrest⟩
  case gone =>
    intro d t ht hdest
    obtain ⟨-, rfl⟩ | ⟨-, ht⟩ := hcontext.mp ht
    · exact hgone hdest
    · exact h.gone ht hdest

theorem Sound.start (h : l.Sound) (hs : l.contexts[c]? = some s)
    (hr : l.runtimes[s.runtime]? = some r) (hlive : s.destroyed = false)
    (hfree : r.holder = none) : (l.start c s r).Sound := by
  obtain ⟨r', hr', -, hcell, hheld⟩ := h.home hs
  obtain rfl := Option.mem_unique hr hr'
  have hidle : s.build = none := by
    by_contra hb
    cases hfree.symm.trans (hheld (Option.isSome_iff_ne_none.mpr hb))
  refine h.turned hs hr rfl rfl rfl rfl hcell (fun _ _ => rfl) (by simp [hfree])
    (.inr (.inl ⟨rfl, rfl, rfl⟩)) ?_ ?_ (by simp [hlive])
  · intro d t b ht hb
    obtain ⟨rfl, rfl⟩ | ⟨-, ht⟩ := (getElem?_replaced hs).mp ht
    · -- the new token is the last one, and `c` alone points to it
      obtain rfl := Option.some.inj hb
      exact ⟨_, Array.getElem?_push_size, rfl, rfl⟩
    · obtain ⟨u, hu, hrest⟩ := h.token ht hb
      exact ⟨u, by grind [Locks.start], hrest⟩
  · have active := @h.active
    simp only [Locks.start]
    grind

theorem Sound.finish (h : l.Sound) (hs : l.contexts[c]? = some s)
    (hr : l.runtimes[s.runtime]? = some r) (hb : s.build = some b) : (l.finish c s r b).Sound := by
  have active := @h.active
  obtain ⟨r', hr', -, hcell, hheld⟩ := h.home hs
  obtain rfl := Option.mem_unique hr hr'
  have hmine : r.holder = some c := hheld (by simp [hb])
  refine h.turned hs hr rfl rfl rfl rfl hcell (fun _ _ => rfl) (by simp [hmine, eq_comm])
    (.inl ⟨rfl, rfl, rfl⟩) ?_ ?_ fun _ => rfl
  · have token := @h.token
    simp only [Locks.finish]
    clear active
    grind
  · simp only [Locks.finish]
    grind

theorem Sound.destroy (h : l.Sound) (hs : l.contexts[c]? = some s)
    (hr : l.runtimes[s.runtime]? = some r) (hidle : s.build = none) : (l.destroy c s r).Sound := by
  obtain ⟨r', hr', -, hcell, -⟩ := h.home hs
  obtain rfl := Option.mem_unique hr hr'
  have hlt := lt_of_getElem? hcell
  refine h.turned hs hr rfl rfl rfl rfl (Array.getElem?_setIfInBounds_self_of_lt hlt)
    (fun n hn => Array.getElem?_setIfInBounds_ne (Ne.symm hn)) (fun _ _ hd => hd)
    (.inr (.inr ⟨rfl, rfl, hidle, hidle⟩)) ?_ ?_ fun _ => hidle
  · have token := @h.token
    simp only [Locks.destroy]
    grind
  · have active := @h.active
    simp only [Locks.destroy]
    grind

theorem Move.sound (h : l.Sound) (hm : l.Move l') : l'.Sound := by
  cases hm with
  | addRuntime => exact h.addRuntime
  | addContext hr => exact h.addContext hr
  | start hs hr hlive hfree => exact h.start hs hr hlive hfree
  | finish hs hr hb => exact h.finish hs hr hb
  | destroy hs hr hidle => exact h.destroy hs hr hidle

/-- What never comes back: a context that was destroyed, a build that ended. -/
structure Ages (l l' : Locks) : Prop where
  context : ∀ {c : CtxId} {s : ContextLock}, l.contexts[c]? = some s →
    ∃ s' : ContextLock, l'.contexts[c]? = some s' ∧ (s.destroyed → s'.destroyed)
  build : ∀ {b : BuildId} {t : Build}, l.builds[b]? = some t →
    ∃ t' : Build, l'.builds[b]? = some t' ∧ (t.ended → t'.ended)

theorem Ages.refl (l : Locks) : l.Ages l :=
  ⟨fun hs => ⟨_, hs, fun h => h⟩, fun ht => ⟨_, ht, fun h => h⟩⟩

theorem Ages.trans {l'' : Locks} (h : l.Ages l') (h' : l'.Ages l'') : l.Ages l'' := by
  constructor
  · intro c s hs
    obtain ⟨s', hs', hd⟩ := h.context hs
    obtain ⟨s'', hs'', hd'⟩ := h'.context hs'
    exact ⟨s'', hs'', fun hdest => hd' (hd hdest)⟩
  · intro b t ht
    obtain ⟨t', ht', he⟩ := h.build ht
    obtain ⟨t'', ht'', he'⟩ := h'.build ht'
    exact ⟨t'', ht'', fun hend => he' (he hend)⟩

theorem Move.ages (hm : l.Move l') : l.Ages l' := by
  cases hm with
  | addRuntime => exact ⟨(Ages.refl l).context, (Ages.refl l).build⟩
  | addContext hr => constructor <;> simp only [Locks.addContext] <;> grind
  | start hs hr hlive hfree => constructor <;> simp only [Locks.start] <;> grind
  | finish hs hr hb => constructor <;> simp only [Locks.finish] <;> grind
  | destroy hs hr hidle => constructor <;> simp only [Locks.destroy] <;> grind

abbrev Moves : Locks → Locks → Prop := Relation.ReflTransGen Move

theorem Moves.sound (h : l.Sound) (hm : l.Moves l') : l'.Sound := by
  induction hm with
  | refl => exact h
  | tail _ hm ih => exact hm.sound ih

theorem Moves.ages (hm : l.Moves l') : l.Ages l' := by
  induction hm with
  | refl => exact .refl l
  | tail _ hm ih => exact ih.trans hm.ages

end Locks

/-! ## What the calls do -/

theorem modify_eq_set {α : Type} {xs : Array α} {i : Nat} {a : α} (h : xs[i]? = some a)
    (g : α → α) : xs.modify i g = xs.setIfInBounds i (g a) := by
  apply Array.ext_getElem?
  intro j
  have hi : i < xs.size := lt_of_getElem? h
  rw [Array.getElem?_modify, Array.getElem?_setIfInBounds]
  by_cases hij : i = j
  · subst hij
    rw [if_pos rfl, if_pos rfl, if_pos hi, h]
    rfl
  · simp [hij]

theorem set_same {α : Type} {xs : Array α} {i : Nat} {a : α} (h : xs[i]? = some a) :
    xs.setIfInBounds i a = xs := by
  apply Array.ext_getElem?
  intro j
  rw [Array.getElem?_setIfInBounds]
  by_cases hij : i = j
  · subst hij
    rw [if_pos rfl, if_pos (lt_of_getElem? h), h]
  · rw [if_neg hij]

namespace Workspace

variable {w : Workspace}

@[simp] theorem locks_advance (rt : RuntimeId) (r : Runtime) (e : Engine)
    (spans : List Trace.Span) (tracing : Trace.Tracing) :
    (w.advance rt r e spans tracing).locks =
      { w.locks with runtimes := w.locks.runtimes.setIfInBounds rt ⟨r.holder, e.turn⟩ } := by
  simp [locks, advance, Runtime.lock]

theorem runtimes_locks (rt : RuntimeId) :
    w.locks.runtimes[rt]? = (w.runtimes[rt]?).map (·.lock) := by
  simp [locks]

theorem contexts_locks (c : CtxId) : w.locks.contexts[c]? = (w.contexts[c]?).map (·.lock) := by
  simp [locks]

theorem map_modify {α β : Type} {f : α → β} {g : α → α} {g' : β → β} (h : ∀ a, f (g a) = g' (f a))
    (xs : Array α) (i : Nat) : (xs.modify i g).map f = (xs.map f).modify i g' := by
  apply Array.ext_getElem?
  intro j
  rw [Array.getElem?_map, Array.getElem?_modify, Array.getElem?_modify, Array.getElem?_map]
  split <;> cases xs[j]? <;> simp [h]

theorem locks_pushContext (s : Context) :
    ({ w with contexts := w.contexts.push s } : Workspace).locks =
      { w.locks with contexts := w.locks.contexts.push s.lock } := by
  simp [locks]

theorem locks_pushRuntime (r : Runtime) :
    ({ w with runtimes := w.runtimes.push r } : Workspace).locks =
      { w.locks with runtimes := w.locks.runtimes.push r.lock } := by
  simp [locks]

theorem locks_modifyContext {c : CtxId} {s : ContextLock} (hs : w.locks.contexts[c]? = some s)
    (g : Context → Context) (g' : ContextLock → ContextLock) (hg : ∀ a, (g a).lock = g' a.lock) :
    ({ w with contexts := w.contexts.modify c g } : Workspace).locks =
      { w.locks with contexts := w.locks.contexts.setIfInBounds c (g' s) } := by
  rw [← modify_eq_set hs]
  simp only [locks, map_modify hg]

theorem locks_modifyRuntime {rt : RuntimeId} {r : RuntimeLock}
    (hr : w.locks.runtimes[rt]? = some r) (g : Runtime → Runtime) (g' : RuntimeLock → RuntimeLock)
    (hg : ∀ a, (g a).lock = g' a.lock) :
    ({ w with runtimes := w.runtimes.modify rt g } : Workspace).locks =
      { w.locks with runtimes := w.locks.runtimes.setIfInBounds rt (g' r) } := by
  rw [← modify_eq_set hr]
  simp only [locks, map_modify hg]

end Workspace

namespace Engine

variable {e : Engine} {id : Nat}

theorem run_liveContext (hid : id ≠ 0) (hlive : e.turn.2[id - 1]? = some false) :
    ∃ k : ContextState, ((EngineM.liveContext id).run e : Except Failure ContextState × Engine) =
      (.ok k, e) := by
  obtain ⟨k, hk, hdead⟩ : ∃ k, e.contexts[id - 1]? = some k ∧ k.destroyed = false := by
    simpa [turn] using hlive
  have hfind : e.context? id = some k := by
    unfold context?
    rw [if_neg hid, hk]
  refine ⟨k, ?_⟩
  unfold EngineM.liveContext
  rw [run_bind_get, hfind]
  simp only [hdead]
  rfl

theorem run_buildStart (hid : id ≠ 0) (hlive : e.turn.2[id - 1]? = some false)
    (hfree : e.turn.1 = 0) :
    ((EngineM.buildStart id).run e : Except Failure Unit × Engine) =
      (.ok (), { e with building := id }) := by
  obtain ⟨k, hk⟩ := run_liveContext hid hlive
  have hidle : e.building = 0 := hfree
  unfold EngineM.buildStart
  rw [run_bind, hk]
  change ((if e.building ≠ 0 then _ else _ : EngineM Unit).run e : Except Failure Unit × Engine) = _
  rw [if_neg (not_not_intro hidle)]
  rfl

theorem run_buildEnd (h : e.turn.1 = id) :
    ((EngineM.buildEnd id).run e : Except Failure Unit × Engine) =
      (.ok (), { e with building := 0 }) := by
  have hidle : e.building = id := h
  unfold EngineM.buildEnd
  change ((if e.building ≠ id then _ else _ : EngineM Unit).run e : Except Failure Unit × Engine) = _
  rw [if_neg (not_not_intro hidle)]
  rfl

theorem run_destroyContext (hid : id ≠ 0) (hlive : e.turn.2[id - 1]? = some false) :
    ∃ e' : Engine,
      ((EngineM.destroyContext id).run e : Except Failure Unit × Engine) = (.ok (), e') ∧
      e'.turn = (if e.turn.1 = id then 0 else e.turn.1, e.turn.2.setIfInBounds (id - 1) true) := by
  obtain ⟨k, hk⟩ := run_liveContext hid hlive
  unfold EngineM.destroyContext
  rw [run_bind, hk]
  refine ⟨_, rfl, ?_⟩
  obtain ⟨k', hk', -⟩ : ∃ k, e.contexts[id - 1]? = some k ∧ k.destroyed = false := by
    simpa [turn] using hlive
  simp only [turn, modify_eq_set hk', Array.map_setIfInBounds]
  rfl

end Engine

namespace BuildM

variable {w : Workspace} {c : CtxId} {s : Context} {r : Runtime}

section

variable {α β : Type} {ok : β → Workspace → Prop} {stop : Stop → Workspace → Prop}

theorem ends_trace {rt : RuntimeId} {n : Trace.Note} {k : Unit → BuildM β} {q : RuntimeLock}
    (hr : w.locks.runtimes[rt]? = some q)
    (hk : ∀ w', w'.locks = w.locks → Ends (k ()) w' ok stop) :
    Ends (trace rt n >>= k) w ok stop := by
  obtain ⟨r, hr', rfl⟩ : ∃ r, w.runtimes[rt]? = some r ∧ r.lock = q := by
    simpa [Workspace.runtimes_locks] using hr
  obtain ⟨spans, tracing, hrun⟩ := run_trace hr' n
  refine Ends.bind_ok hrun (hk _ ?_)
  have hsame : w.locks.runtimes.setIfInBounds rt r.lock = w.locks.runtimes := set_same hr
  rw [Workspace.locks_advance]
  exact congrArg (fun rs => { w.locks with runtimes := rs }) hsame

theorem ends_tryEngine {rt : RuntimeId} {act : EngineM α} {k : Except Failure α → BuildM β}
    {answer : Except Failure α} {e : Engine} (hr : w.runtimes[rt]? = some r)
    (hact : (act.run r.engine : Except Failure α × Engine) = (answer, e))
    (hk : ∀ w', w'.locks =
        { w.locks with runtimes := w.locks.runtimes.setIfInBounds rt ⟨r.holder, e.turn⟩ } →
      Ends (k answer) w' ok stop) :
    Ends (tryEngine rt act >>= k) w ok stop := by
  obtain ⟨spans, tracing, hrun⟩ := run_onEngineState hr
    fun e => (act.run e : Except Failure α × Engine)
  rw [hact] at hrun
  exact Ends.bind_ok hrun (hk _ (Workspace.locks_advance ..))

theorem ends_onEngine {rt : RuntimeId} {op : String} {act : EngineM α} {k : α → BuildM β}
    {a : α} {e : Engine} (hr : w.runtimes[rt]? = some r)
    (hact : (act.run r.engine : Except Failure α × Engine) = (.ok a, e))
    (hk : ∀ w', w'.locks =
        { w.locks with runtimes := w.locks.runtimes.setIfInBounds rt ⟨r.holder, e.turn⟩ } →
      Ends (k a) w' ok stop) :
    Ends (onEngine rt op act >>= k) w ok stop := by
  have hone : Ends (onEngine rt op act) w (fun x w' => x = a ∧ w'.locks =
      { w.locks with runtimes := w.locks.runtimes.setIfInBounds rt ⟨r.holder, e.turn⟩ }) stop :=
    ends_tryEngine hr hact fun w' hl => Ends.pure' ⟨rfl, hl⟩
  refine hone.bind' ?_
  rintro x w' ⟨rfl, hl⟩
  exact hk w' hl

end

theorem ends_buildStart (h : w.locks.Sound) (hs : w.contexts[c]? = some s)
    (hr : w.runtimes[s.runtime]? = some r) (hlive : s.destroyed = false)
    (hfree : r.holder = none) :
    Ends (buildStart c) w
      (fun b w' => b = w.builds.size ∧ w'.locks = w.locks.start c s.lock r.lock)
      (fun _ _ => False) := by
  have hsl : w.locks.contexts[c]? = some s.lock := by simp [Workspace.contexts_locks, hs]
  have hrl : w.locks.runtimes[s.runtime]? = some r.lock := by simp [Workspace.runtimes_locks, hr]
  obtain ⟨q, hq, hid, hturn, -⟩ := h.home hsl
  obtain rfl : q = r.lock := Option.mem_unique hq hrl
  have hturn : r.engine.turn.2[s.id - 1]? = some false := hlive ▸ hturn
  have hidle : r.engine.turn.1 = 0 := by
    obtain ⟨-, hidle⟩ | ⟨d, -, hheld, -⟩ := h.holder hrl
    · exact hidle
    · exact absurd (hheld.symm.trans hfree) (by simp)
  unfold buildStart
  refine Ends.bind_ok (by rw [run_context, hs]; rfl) ?_
  refine Ends.ite' (fun hd => absurd (hd.symm.trans hlive) (by decide)) fun _ => ?_
  refine Ends.bind_ok (by rw [run_runtime, hr]; rfl) ?_
  rw [hfree]
  -- the lock is taken, then the engine's cursor
  refine Ends.bind_modify ?_
  have hl₁ := Workspace.locks_modifyRuntime hrl ({ · with holder := some c })
    ({ · with holder := some c }) fun _ => rfl
  have hr₁ : (w.runtimes.modify s.runtime ({ · with holder := some c }))[s.runtime]? =
      some { r with holder := some c } := by
    simp [Array.getElem?_modify, hr]
  refine ends_tryEngine hr₁ (Engine.run_buildStart hid hturn hidle) fun w₂ hl₂ => ?_
  rw [hl₁, Array.setIfInBounds_setIfInBounds] at hl₂
  -- the token is made, and the context takes it
  refine Ends.bind_get ?_
  refine Ends.bind_modify ?_
  have hsize : w₂.builds.size = w.builds.size := congrArg (·.builds.size) hl₂
  have hl₃ : ({ w₂ with builds := w₂.builds.push { ctx := c } } : Workspace).locks =
      { w₂.locks with builds := w₂.locks.builds.push { ctx := c } } := rfl
  rw [hl₂] at hl₃
  refine ends_trace (q := ⟨some c, s.id, r.engine.turn.2⟩) ?_ fun w₄ hl₄ => ?_
  · rw [hl₃]
    exact Array.getElem?_setIfInBounds_self_of_lt (lt_of_getElem? hrl)
  rw [hl₃] at hl₄
  have hs₄ : w₄.locks.contexts[c]? = some s.lock := by rw [hl₄]; exact hsl
  refine Ends.bind_modify ?_
  refine Ends.pure' ⟨hsize, ?_⟩
  rw [Workspace.locks_modifyContext hs₄ _ ({ · with build := some w₂.builds.size }) fun _ => rfl,
    hl₄, hsize]
  rfl

theorem home (h : w.locks.Sound) (hs : w.contexts[c]? = some s) :
    ∃ r, w.runtimes[s.runtime]? = some r ∧ w.locks.runtimes[s.runtime]? = some r.lock := by
  have hsl : w.locks.contexts[c]? = some s.lock := by simp [Workspace.contexts_locks, hs]
  obtain ⟨q, hq, -⟩ := h.home hsl
  obtain ⟨r, hr, -⟩ : ∃ r, w.runtimes[s.runtime]? = some r ∧ r.lock = q := by
    simpa [Workspace.runtimes_locks, Context.lock] using hq
  exact ⟨r, hr, by simp [Workspace.runtimes_locks, hr]⟩

theorem building (h : w.locks.Sound) {b : BuildId} (hs : w.contexts[c]? = some s)
    (hr : w.runtimes[s.runtime]? = some r) (hb : s.build = some b) :
    r.holder = some c ∧ r.engine.turn.1 = s.id := by
  have hsl : w.locks.contexts[c]? = some s.lock := by simp [Workspace.contexts_locks, hs]
  have hrl : w.locks.runtimes[s.runtime]? = some r.lock := by simp [Workspace.runtimes_locks, hr]
  obtain ⟨q, hq, -, -, hheld⟩ := h.home hsl
  obtain rfl : q = r.lock := Option.mem_unique hq hrl
  have hheld : r.holder = some c := hheld (by simp [Context.lock, hb])
  obtain ⟨hnone, -⟩ | ⟨d, t, hd, ht, -, -, hturn⟩ := h.holder hrl
  · exact absurd (hheld.symm.trans hnone) (by simp)
  · obtain rfl : c = d := Option.mem_unique hheld hd
    obtain rfl : s.lock = t := Option.mem_unique hsl ht
    exact ⟨hheld, hturn⟩

theorem ends_markEnded {β : Type} {ok : β → Workspace → Prop} {stop : Stop → Workspace → Prop}
    {b : BuildId} {k : Unit → BuildM β} (hs : w.contexts[c]? = some s)
    (hk : ∀ w', w'.runtimes = w.runtimes → w'.locks =
        { w.locks with
          contexts := w.locks.contexts.setIfInBounds c { s.lock with build := none }
          builds := w.locks.builds.modify b ({ · with ended := true }) } →
      Ends (k ()) w' ok stop) :
    Ends (markEnded b c >>= k) w ok stop := by
  have hsl : w.locks.contexts[c]? = some s.lock := by simp [Workspace.contexts_locks, hs]
  have hl := Workspace.locks_modifyContext hsl ({ · with build := none })
    ({ · with build := none }) fun _ => rfl
  have hrun : ((markEnded b c).run w : Except Stop Unit × Workspace) = (.ok (), { w with
      builds := w.builds.modify b ({ · with ended := true })
      contexts := w.contexts.modify c ({ · with build := none }) }) := rfl
  exact Ends.bind_ok hrun (hk _ rfl (congrArg (fun l : Locks =>
    { l with builds := w.builds.modify b ({ · with ended := true }) }) hl))

theorem ends_releaseLock {β : Type} {ok : β → Workspace → Prop} {stop : Stop → Workspace → Prop}
    {rt : RuntimeId} {k : Unit → BuildM β} {q : RuntimeLock}
    (hr : w.locks.runtimes[rt]? = some q) (hheld : q.holder = some c)
    (hk : ∀ w', w'.locks =
        { w.locks with runtimes := w.locks.runtimes.setIfInBounds rt { q with holder := none } } →
      Ends (k ()) w' ok stop) :
    Ends (releaseLock rt c >>= k) w ok stop := by
  have hl := Workspace.locks_modifyRuntime hr
    (fun r => if r.holder = some c then { r with holder := none } else r)
    (fun r => if r.holder = some c then { r with holder := none } else r)
    (fun r => by by_cases hh : r.holder = some c <;> simp [Runtime.lock, hh])
  rw [if_pos hheld] at hl
  exact Ends.bind_modify (hk _ hl)

theorem ends_buildFinish (h : w.locks.Sound) {b : BuildId} {t : Build} (ht : w.builds[b]? = some t)
    (hs : w.contexts[t.ctx]? = some s) (hr : w.runtimes[s.runtime]? = some r)
    (hactive : t.ended = false) :
    Ends (buildFinish b) w
      (fun _ w' => w'.locks = w.locks.finish t.ctx s.lock r.lock b) (fun _ _ => False) := by
  have hrl : w.locks.runtimes[s.runtime]? = some r.lock := by simp [Workspace.runtimes_locks, hr]
  have hb : s.build = some b := by
    obtain ⟨q, hq, hact⟩ := h.active ht
    simp only [Workspace.contexts_locks, hs] at hq
    obtain rfl : s.lock = q := Option.some.inj hq
    exact hact hactive
  obtain ⟨hheld, hturn⟩ := building h hs hr hb
  unfold buildFinish
  refine Ends.bind_ok (by rw [run_build, ht]; rfl) ?_
  refine Ends.bind_ok (by rw [run_context, hs]; rfl) ?_
  refine Ends.ite' (fun hd => absurd (hd.symm.trans hactive) (by decide)) fun _ => ?_
  -- the context gives its token back, the engine its cursor, the runtime its lock
  refine ends_markEnded hs fun w₁ hsame hl₁ => ?_
  refine ends_tryEngine (hsame ▸ hr) (Engine.run_buildEnd hturn) fun w₂ hl₂ => ?_
  rw [hl₁] at hl₂
  have hr₂ : w₂.locks.runtimes[s.runtime]? = some ⟨r.holder, 0, r.engine.turn.2⟩ := by
    rw [hl₂]
    exact Array.getElem?_setIfInBounds_self_of_lt (lt_of_getElem? hrl)
  refine ends_releaseLock hr₂ hheld fun w₃ hl₃ => ?_
  rw [hl₂, Array.setIfInBounds_setIfInBounds] at hl₃
  refine ends_trace (q := ⟨none, 0, r.engine.turn.2⟩) ?_ fun w₄ hl₄ => ?_
  · rw [hl₃]
    exact Array.getElem?_setIfInBounds_self_of_lt (lt_of_getElem? hrl)
  exact Ends.pure' (hl₄.trans hl₃)

theorem ends_destroy_idle {q : RuntimeLock} {t : ContextLock}
    (hs : w.locks.contexts[c]? = some t) (hr : w.locks.runtimes[s.runtime]? = some q)
    (hid : s.id ≠ 0) (hlive : q.turn.2[s.id - 1]? = some false) :
    Ends (do
        modifyContext c ({ · with destroyed := true })
        trace s.runtime (.point .context "context_destroy" s.uid)
        onEngine s.runtime "destroy" (EngineM.destroyContext s.id)) w
      (fun _ w' => w'.locks =
        { w.locks with
          runtimes := w.locks.runtimes.setIfInBounds s.runtime
            { q with turn := (if q.turn.1 = s.id then 0 else q.turn.1,
                q.turn.2.setIfInBounds (s.id - 1) true) }
          contexts := w.locks.contexts.setIfInBounds c { t with destroyed := true } })
      (fun _ _ => False) := by
  refine Ends.bind_modify ?_
  have hl₁ := Workspace.locks_modifyContext hs ({ · with destroyed := true })
    ({ · with destroyed := true }) fun _ => rfl
  refine ends_trace (q := q) (hl₁ ▸ hr) fun w₂ hl₂ => ?_
  rw [hl₁] at hl₂
  obtain ⟨r, hr₂, rfl⟩ : ∃ r, w₂.runtimes[s.runtime]? = some r ∧ r.lock = q := by
    have : w₂.locks.runtimes[s.runtime]? = some q := by rw [hl₂]; exact hr
    simpa [Workspace.runtimes_locks] using this
  obtain ⟨e', hrun, hturn⟩ := Engine.run_destroyContext hid hlive
  refine ends_tryEngine hr₂ hrun fun w₃ hl₃ => ?_
  rw [hl₂, hturn] at hl₃
  exact Ends.pure' hl₃

theorem ends_destroy (h : w.locks.Sound) (hs : w.contexts[c]? = some s)
    (hr : w.runtimes[s.runtime]? = some r) :
    Ends (BuildM.destroy c) w (fun _ w' => w.locks.Moves w'.locks) (fun _ _ => False) := by
  have hsl : w.locks.contexts[c]? = some s.lock := by simp [Workspace.contexts_locks, hs]
  have hrl : w.locks.runtimes[s.runtime]? = some r.lock := by simp [Workspace.runtimes_locks, hr]
  obtain ⟨q, hq, hid, hturn, -⟩ := h.home hsl
  obtain rfl : q = r.lock := Option.mem_unique hq hrl
  unfold BuildM.destroy
  refine Ends.bind_ok (by rw [run_context, hs]; rfl) ?_
  refine Ends.ite' (fun _ => Ends.pure' .refl) fun hlive => ?_
  have hlive : s.destroyed = false := Bool.eq_false_iff.mpr hlive
  have hturn : r.engine.turn.2[s.id - 1]? = some false := hlive ▸ hturn
  cases hb : s.build with
  | none =>
    refine Ends.bind_pure ?_
    refine (ends_destroy_idle hsl hrl hid hturn).mono (fun _ w' hl => ?_) fun _ _ hf => hf
    -- the cursor stands on no context, or on one that builds
    have hother : r.lock.turn.1 ≠ s.id := by
      obtain ⟨-, hzero⟩ | ⟨d, t, -, ht, hrt, hbuild, hcursor⟩ := h.holder hrl
      · exact fun he => hid (he.symm.trans hzero)
      · intro he
        obtain rfl : d = c := h.apart ht hsl hrt (hcursor.symm.trans he)
        obtain rfl : t = s.lock := Option.mem_unique ht hsl
        simp [Context.lock, hb] at hbuild
    have hmove : w.locks.Move (w.locks.destroy c s.lock r.lock) := .destroy hsl hrl hb
    have hl : w'.locks = w.locks.destroy c s.lock r.lock := by
      rw [hl, if_neg hother]
      rfl
    exact hl ▸ .single hmove
  | some b =>
    obtain ⟨hheld, hcursor⟩ := building h hs hr hb
    have hcursor : { r.lock with holder := none }.turn.1 = s.id := hcursor
    refine ends_markEnded hs fun w₁ hsame hl₁ => ?_
    refine ends_trace (q := r.lock) (hl₁ ▸ hrl) fun w₂ hl₂ => ?_
    rw [hl₁] at hl₂
    refine ends_releaseLock (q := r.lock) (hl₂ ▸ hrl) hheld fun w₃ hl₃ => ?_
    rw [hl₂] at hl₃
    have hs₃ : w₃.locks.contexts[c]? = some { s.lock with build := none } := by
      rw [hl₃]
      exact Array.getElem?_setIfInBounds_self_of_lt (lt_of_getElem? hsl)
    have hr₃ : w₃.locks.runtimes[s.runtime]? = some { r.lock with holder := none } := by
      rw [hl₃]
      exact Array.getElem?_setIfInBounds_self_of_lt (lt_of_getElem? hrl)
    refine (ends_destroy_idle hs₃ hr₃ hid hturn).mono (fun _ w' hl => ?_) fun _ _ hf => hf
    have hend : w.locks.Move (w.locks.finish c s.lock r.lock b) := .finish hsl hrl hb
    have hmove : (w.locks.finish c s.lock r.lock b).Move
        ((w.locks.finish c s.lock r.lock b).destroy c { s.lock with build := none }
          ⟨none, 0, r.engine.turn.2⟩) :=
      .destroy (Array.getElem?_setIfInBounds_self_of_lt (lt_of_getElem? hsl))
        (Array.getElem?_setIfInBounds_self_of_lt (lt_of_getElem? hrl)) rfl
    have hl : w'.locks = (w.locks.finish c s.lock r.lock b).destroy c
        { s.lock with build := none } ⟨none, 0, r.engine.turn.2⟩ := by
      rw [hl, if_pos hcursor, hl₃]
      simp only [Locks.destroy, Locks.finish, Array.setIfInBounds_setIfInBounds]
      rfl
    exact hl ▸ .head hend (.single hmove)

theorem ends_newContext {rt : RuntimeId} (hr : w.runtimes[rt]? = some r) (uid : String) :
    Ends (newContext rt uid) w (fun _ w' => w.locks.Move w'.locks) (fun _ _ => False) := by
  have hrl : w.locks.runtimes[rt]? = some r.lock := by simp [Workspace.runtimes_locks, hr]
  have hrun : (EngineM.createContext.run r.engine : Except Failure ContextId × Engine) =
      (.ok (r.engine.contexts.push {}).size, { r.engine with contexts := r.engine.contexts.push {} }) :=
    rfl
  refine ends_onEngine hr hrun fun w₁ hl₁ => ?_
  refine Ends.bind_get ?_
  refine Ends.bind_modify ?_
  let s : Context := { runtime := rt, id := (r.engine.contexts.push {}).size, uid }
  have hl₂ : ({ w₁ with contexts := w₁.contexts.push s } : Workspace).locks =
      w.locks.addContext rt r.lock := by
    rw [Workspace.locks_pushContext, hl₁]
    simp [Locks.addContext, Runtime.lock, Engine.turn, s, Context.lock]
  refine ends_trace (q := ⟨r.holder, r.engine.turn.1, r.engine.turn.2.push false⟩) ?_ fun w₃ hl₃ => ?_
  · rw [hl₂]
    exact Array.getElem?_setIfInBounds_self_of_lt (lt_of_getElem? hrl)
  · refine Ends.pure' ?_
    rw [hl₃, hl₂]
    exact .addContext hrl

end BuildM

/-! ## What the lock protocol does not see -/

def SameLocks (w w' : Workspace) : Prop := w'.locks = w.locks

def SameTurn (e e' : Engine) : Prop := e'.turn = e.turn

instance : Std.Refl SameLocks := ⟨fun _ => rfl⟩

instance : Trans SameLocks SameLocks SameLocks := ⟨fun h h' => h'.trans h⟩

instance : Std.Refl SameTurn := ⟨fun _ => rfl⟩

instance : Trans SameTurn SameTurn SameTurn := ⟨fun h h' => h'.trans h⟩

theorem SameLocks.of_advance {w : Workspace} {rt : RuntimeId} {r : Runtime} {e : Engine}
    (spans : List Trace.Span) (tracing : Trace.Tracing) (hr : w.runtimes[rt]? = some r)
    (h : e.turn = r.engine.turn) : SameLocks w (w.advance rt r e spans tracing) := by
  have hrl : w.locks.runtimes[rt]? = some r.lock := by simp [Workspace.runtimes_locks, hr]
  unfold SameLocks
  rw [Workspace.locks_advance, h]
  exact congrArg (fun rs => { w.locks with runtimes := rs }) (set_same hrl)

instance : Follows SameLocks SameTurn where
  advance spans tracing hr h := .of_advance spans tracing hr h
  traced spans tracing hr := .of_advance spans tracing hr rfl

namespace EngineM

theorem sameTurn_knownType (id : TypeId) : Leaves SameTurn (knownType id) :=
  .bind' .get' fun _ => .ite' (.throw' _) (.pure' _)

theorem sameTurn_signatureType (abi : Abi) (result : TypeId) (params : List TypeId) :
    Leaves SameTurn (signatureType abi result params) := by
  refine .bind' (sameTurn_knownType result) fun _ => ?_
  refine .bind' (.forM' params sameTurn_knownType) fun _ => ?_
  exact fun e => rfl

end EngineM

namespace BuildM

theorem sameLocks_modifyRuntime (rt : RuntimeId) {g : Runtime → Runtime}
    (h : ∀ r, (g r).lock = r.lock) : Leaves SameLocks (modifyRuntime rt g) := by
  refine .modify' fun w => ?_
  have hmap : (w.runtimes.modify rt g).map (·.lock) = w.runtimes.map (·.lock) := by
    apply Array.ext_getElem?
    intro i
    rw [Array.getElem?_map, Array.getElem?_modify, Array.getElem?_map]
    split <;> cases w.runtimes[i]? <;> simp [h]
  exact congrArg (fun rs => { w.locks with runtimes := rs }) hmap

theorem sameLocks_signatureTy (rt : RuntimeId) (params : List Ty) (ret : Ty) (abi : Abi) :
    Leaves SameLocks (signatureTy rt params ret abi) :=
  leaves_signatureTy rt params ret abi (EngineM.sameTurn_signatureType _ _ _)

theorem sameLocks_registerNative (rt : RuntimeId) (name : String) (params : List Ty) (ret : Ty)
    (variadic : Bool) (run : Option NativeFunc) :
    Leaves SameLocks (registerNative rt name params ret variadic run) := by
  refine .ite' (.bind' (leaves_complain _ _) fun _ => ?_) ?_ <;>
  · cases run with
    | none => exact leaves_complain _ _
    | some run =>
      have hengine : Leaves SameTurn (EngineM.registerNative name run) := fun _ => rfl
      exact .bind' (sameLocks_signatureTy _ _ _ _) fun sig =>
        .bind' (sameLocks_modifyRuntime rt fun _ => rfl) fun _ =>
          .bind' (leaves_onEngine rt "native" hengine) fun _ => .pure' sig

theorem sameLocks_removeNative (rt : RuntimeId) (name : String) :
    Leaves SameLocks (removeNative rt name) := by
  have hengine : Leaves SameTurn (EngineM.removeNative name) := fun _ => rfl
  exact .bind' (sameLocks_modifyRuntime rt fun _ => rfl) fun _ =>
    leaves_onEngine rt "native" hengine

theorem ends_newRuntime (w : Workspace) (o : RuntimeOptions) :
    Ends (newRuntime o) w (fun _ w' => w.locks.Move w'.locks)
      (fun _ w' => w.locks.Move w'.locks) := by
  let e := Engine.create o.target o.maxSteps o.maxDepth (.seeded o.seed) o.clock
  let r : Runtime := { engine := e, tracer := o.tracer }
  have hl₁ : ({ w with runtimes := w.runtimes.push r } : Workspace).locks = w.locks.addRuntime := by
    have hturn : e.turn = (0, #[]) := by simp [e, Engine.turn, Engine.create]
    rw [Workspace.locks_pushRuntime]
    simp [Locks.addRuntime, Runtime.lock, r, hturn]
  have hrest : Leaves SameLocks (do
      Library.all.forM (registerLibrary w.runtimes.size)
      o.disabled.forM (removeNative w.runtimes.size)
      trace w.runtimes.size (.point .runtime "runtime_new" e.target.triple)
      pure w.runtimes.size) :=
    .bind' (.forM' _ fun n => .bind' (sameLocks_registerNative _ _ _ _ _ _) fun _ => .pure' _)
      fun _ => .bind' (.forM' _ fun name => sameLocks_removeNative _ name) fun _ =>
        .bind' (asks_trace _ _).leaves fun _ => .pure' _
  refine Ends.bind_get ?_
  refine Ends.bind_modify ?_
  have hmove : ∀ w', SameLocks { w with runtimes := w.runtimes.push r } w' →
      w.locks.Move w'.locks := by
    intro w' hsame
    rw [hsame.trans hl₁]
    exact .addRuntime
  exact (hrest.ends _).mono (fun _ => hmove) fun _ => hmove

end BuildM

/-! ## Every call is moves -/

def Turns (w w' : Workspace) : Prop := w.locks.Sound → w.locks.Moves w'.locks

instance : Std.Refl Turns := ⟨fun _ _ => .refl⟩

instance : Trans Turns Turns Turns :=
  ⟨fun h h' hs => (h hs).trans (h' ((h hs).sound hs))⟩

theorem SameLocks.turns {w w' : Workspace} (h : SameLocks w w') : Turns w w' :=
  fun _ => h ▸ .refl

namespace BuildM

variable {w : Workspace} {c : CtxId}

theorem turns_newRuntime (o : RuntimeOptions) : Leaves Turns (newRuntime o) :=
  fun w _ => .single (ends_newRuntime w o).state

theorem turns_newContext (rt : RuntimeId) (uid : String) : Leaves Turns (newContext rt uid) := by
  intro w _
  rcases hr : w.runtimes[rt]? with _ | r
  · unfold newContext onEngine tryEngine
    simp only [run_bind, run_onEngineState_none hr]
    exact .refl
  · exact .single (ends_newContext hr uid).total.state

theorem starts (h : w.locks.Sound) :
    Ends (buildStart c) w
      (fun b w' => w.locks.Move w'.locks ∧ w'.builds[b]? = some { ctx := c })
      (fun _ w' => w' = w) := by
  by_cases hstart : ∃ s r, w.contexts[c]? = some s ∧ w.runtimes[s.runtime]? = some r ∧
      s.destroyed = false ∧ r.holder = none
  · obtain ⟨s, r, hs, hr, hlive, hfree⟩ := hstart
    refine (ends_buildStart h hs hr hlive hfree).mono ?_ fun _ _ h' => h'.elim
    rintro b w' ⟨rfl, hl⟩
    have hmove : w.locks.Move (w.locks.start c s.lock r.lock) :=
      .start (by simp [Workspace.contexts_locks, hs])
        (by simp [Workspace.runtimes_locks, Context.lock, hr]) hlive hfree
    have hbuilds : w'.builds = w.builds.push { ctx := c } := congrArg (·.builds) hl
    exact ⟨hl ▸ hmove, by rw [hbuilds, Array.getElem?_push_size]⟩
  · unfold buildStart
    refine ends_context (fun _ => rfl) fun s hs => ?_
    obtain ⟨r, hr, -⟩ := home h hs
    refine Ends.ite' (fun _ => Ends.bind_throw rfl) fun hlive => ?_
    refine Ends.bind_ok (by rw [run_runtime, hr]; rfl) ?_
    cases hheld : r.holder with
    | none => exact absurd ⟨s, r, hs, hr, Bool.eq_false_iff.mpr hlive, hheld⟩ hstart
    | some d =>
      refine Ends.ite' (fun _ => Ends.bind_throw rfl) fun _ => ?_
      exact ends_context (fun _ => rfl) fun _ _ => Ends.throw' rfl

theorem turns_buildStart (c : CtxId) : Leaves Turns (buildStart c) := by
  intro w h
  have hends : Ends (buildStart c) w (fun _ w' => w.locks.Moves w'.locks)
      (fun _ w' => w.locks.Moves w'.locks) :=
    (starts h).mono (fun _ _ h' => .single h'.1) fun _ _ h' => h' ▸ .refl
  exact hends.state

theorem turns_buildFinish (b : BuildId) : Leaves Turns (buildFinish b) := by
  intro w h
  have hends : Ends (buildFinish b) w (fun _ w' => w.locks.Moves w'.locks)
      (fun _ w' => w.locks.Moves w'.locks) := by
    by_cases hactive : ∃ t, w.builds[b]? = some t ∧ t.ended = false
    · obtain ⟨t, ht, hactive⟩ := hactive
      obtain ⟨q, hq, hact⟩ := h.active ht
      obtain ⟨s, hs, rfl⟩ : ∃ s, w.contexts[t.ctx]? = some s ∧ s.lock = q := by
        simpa [Workspace.contexts_locks] using hq
      obtain ⟨r, hr, hrl⟩ := home h hs
      refine (ends_buildFinish h ht hs hr hactive).mono (fun _ w' h' => ?_) fun _ _ h' => h'.elim
      exact h' ▸ .single (.finish hq hrl (hact hactive))
    · unfold buildFinish
      refine ends_build (fun _ => .refl) fun t ht => ?_
      refine ends_context (fun _ => .refl) fun s _ => ?_
      refine Ends.ite' (fun _ => Ends.bind_throw .refl) fun hend => ?_
      exact absurd ⟨t, ht, Bool.eq_false_iff.mpr hend⟩ hactive
  exact hends.state

theorem turns_buildEnd (c : CtxId) : Leaves Turns (buildEnd c) := by
  refine .bind' (leaves_context c) fun s => ?_
  cases s.build with
  | none => exact leaves_complain _ _
  | some b => exact turns_buildFinish b

theorem turns_destroy (c : CtxId) : Leaves Turns (BuildM.destroy c) := by
  intro w h
  have hends : Ends (BuildM.destroy c) w (fun _ w' => w.locks.Moves w'.locks)
      (fun _ w' => w.locks.Moves w'.locks) := by
    cases hs : w.contexts[c]? with
    | none => exact ends_context (fun _ => .refl) fun s hs' => absurd (hs'.symm.trans hs) (by simp)
    | some s =>
      obtain ⟨r, hr, -⟩ := home h hs
      exact (ends_destroy h hs hr).mono (fun _ _ h' => h') fun _ _ h' => h'.elim
  exact hends.state

end BuildM

end TypedIR
