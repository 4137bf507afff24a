import TypedIR.Proofs.BuiltFunctions
import TypedIR.Proofs.FoundedEngines
import TypedIR.Proofs.TypeQuestions
import TypedIR.Proofs.TypeWalks

/-
  The type tables of engines that clients can have.

  An engine is reached when it was created and then moved by calls of the engine, by
  code that ran, and by the signatures that are made for calls of variadic natives
  (`Engine.Moves`). Whatever happened, its tables are founded (`Engine.Reached.founded`),
  so every walk into the parts of a type ends. Comparing two types walks through two
  tables, and asks for layouts on its way; it ends as well (`compatibleWithin_congr`).
-/

namespace TypedIR

/-! ## Reached engines -/

namespace Engine

/-- What becomes of an engine: it is called, runs code, gets the signature of a call with
further arguments, or has something done to its host. A further argument is a value of a
function, and counts as no type if it is none. -/
inductive Moves : Engine → Engine → Prop
  | called {α : Type} {act : EngineM α} (h : EngineCall act) (e : Engine) :
      Moves e (act.run e : Except Failure α × Engine).2
  | ran (fn : FuncId) (args : List Word) (e : Engine) :
      Moves e ((RunM.apply fn args).run e : Except (Halt Failure) Word × Engine).2
  | extended {e : Engine} {sig id : TypeId} {extra : List TypeId} {types : TypeTable}
      (h : e.types.extendSignature? sig extra = some (id, types))
      (hextra : ∀ p ∈ extra, p = 0 ∨ ∃ fn f v info,
        e.func? fn = some f ∧ f.value? v = some info ∧ info.type = p) :
      Moves e { e with types }
  | hosted (e : Engine) (host : Host) (notes : Array Trace.Note) : Moves e { e with host, notes }

/-- The engines that clients can have. -/
inductive Reached : Engine → Prop
  | created (target : Target) (maxSteps maxDepth : Int) (rng : Generator) (clock : Int) :
      Reached (.create target maxSteps maxDepth rng clock)
  | moved {e e' : Engine} (h : Reached e) (hm : e.Moves e') : Reached e'

variable {e e' : Engine}

theorem Moves.rests (h : e.Moves e') : e.Rests e' := by
  cases h with
  | called h => exact h.rests e
  | ran fn args => exact RunM.quiet_apply fn args e
  | hosted host notes => exact .of_same rfl rfl
  | extended h hextra =>
    rename_i sig id extra types
    refine .of_types fun he => ?_
    have hord : e.types.Ordered := he.tables.ordered
    obtain ⟨s, hs, hadd⟩ := Option.map_eq_some_iff.mp h
    obtain ⟨holder, hlt⟩ := hord.signature_older hs
    have hold : ∀ p ∈ s.result :: s.params, p < e.types.types.size :=
      fun p hp => Nat.lt_trans (holder p hp) hlt
    have hnew : ∀ p ∈ extra, p < e.types.types.size := by
      intro p hp
      rcases hextra p hp with rfl | ⟨fn, f, v, info, hf, hv, rfl⟩
      · exact hord.size_pos
      · exact (he.values fn f hf v info hv).1
    have hparams : ∀ p ∈ s.params ++ extra, p < e.types.types.size := fun p hp =>
      (List.mem_append.mp hp).elim (fun hp => hold p (List.mem_cons_of_mem _ hp)) (hnew p)
    obtain ⟨d, hmakes, -⟩ := hord.makes_addSignature
      (s := { abi := .cdecl, params := s.params ++ extra, result := s.result })
      (hold _ List.mem_cons_self) hparams
    rw [hadd] at hmakes
    exact ⟨hmakes.grows, hmakes.ordered⟩

theorem founded_create (target : Target) (maxSteps maxDepth : Int) (rng : Generator)
    (clock : Int) : (create target maxSteps maxDepth rng clock).Founded := by
  refine ⟨⟨TypeTable.initial_ordered, Layout.honest_nil, nofun⟩, fun fn f hf => ?_⟩
  unfold func? create at hf
  split at hf
  · cases hf
  · simp at hf

theorem Reached.founded (h : e.Reached) : e.Founded := by
  induction h with
  | created target maxSteps maxDepth rng clock =>
    exact founded_create target maxSteps maxDepth rng clock
  | moved _ hm ih => exact (hm.rests ih).1

end Engine

/-! ## Workspaces -/

namespace Workspace

def Founded (w : Workspace) : Prop :=
  ∀ (rt : RuntimeId) r, w.runtimes[rt]? = some r → r.engine.Founded

/-- Calls led to the engines of the runtimes. -/
def Reached (w : Workspace) : Prop :=
  ∀ (rt : RuntimeId) r, w.runtimes[rt]? = some r → r.engine.Reached

theorem Reached.founded {w : Workspace} (h : w.Reached) : w.Founded :=
  fun rt r hr => (h rt r hr).founded

/-- Engines that are founded stay so, their types are what they were, and layouts that
are remembered stay so. -/
def Ponders (w w' : Workspace) : Prop :=
  w.Founded → w'.Founded ∧
    (∀ rt : RuntimeId,
      (w'.runtimes[rt]?).map (·.engine.types) = (w.runtimes[rt]?).map (·.engine.types)) ∧
    ∀ (rt : RuntimeId) r, w.runtimes[rt]? = some r →
      ∃ r', w'.runtimes[rt]? = some r' ∧ r.engine.tables.Onward r'.engine.tables

instance : Std.Refl Ponders := ⟨fun _ h => ⟨h, fun _ => rfl, fun _ r hr => ⟨r, hr, .refl _⟩⟩⟩

instance : Trans Ponders Ponders Ponders where
  trans h h' hw := by
    obtain ⟨hw₁, htypes, honward⟩ := h hw
    obtain ⟨hw₂, htypes', honward'⟩ := h' hw₁
    refine ⟨hw₂, fun rt => (htypes' rt).trans (htypes rt), fun rt r hr => ?_⟩
    obtain ⟨r₁, hr₁, h₁⟩ := honward rt r hr
    obtain ⟨r₂, hr₂, h₂⟩ := honward' rt r₁ hr₁
    exact ⟨r₂, hr₂, h₁.trans h₂⟩

theorem ponders_advance {w : Workspace} {rt : RuntimeId} {r : Runtime} {e : Engine}
    (spans : List Trace.Span) (tracing : Trace.Tracing) (hr : w.runtimes[rt]? = some r)
    (h : r.engine.Ponders e) : w.Ponders (w.advance rt r e spans tracing) := by
  intro hw
  obtain ⟨hfounded, honward⟩ := h.1 (hw rt r hr)
  have hruntime := getElem?_advance e spans tracing hr
  refine ⟨fun k r' hr' => ?_, fun k => ?_, fun k r₁ hr₁ => ?_⟩
  · rw [hruntime] at hr'
    split at hr'
    · exact Option.some.inj hr' ▸ hfounded
    · exact hw k r' hr'
  · rw [hruntime]
    split
    · next hk =>
      rw [← hk, hr]
      exact congrArg some h.2.2
    · rfl
  · rw [hruntime]
    split
    · next hk =>
      obtain rfl := Option.mem_unique hr (hk ▸ hr₁)
      exact ⟨_, rfl, honward⟩
    · exact ⟨r₁, hr₁, .refl _⟩

instance : Follows Ponders Engine.Ponders where
  advance {_ _ _ e} spans tracing hr h := by
    have hnotes : e.Ponders { e with notes := #[] } := Engine.Asking.noted e #[]
    exact ponders_advance spans tracing hr (Trans.trans h hnotes)
  traced spans tracing hr := ponders_advance spans tracing hr (Std.Refl.refl _)

end Workspace

end TypedIR
