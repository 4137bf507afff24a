import TypedIR.Proofs.BuildPlaces
import TypedIR.Proofs.BuildRuns
import TypedIR.Proofs.FrameEmitting
import TypedIR.Proofs.StraightCalls

/-
  Functions in engines that were asked in time.

  Where the engine was not asked for the layout of a type before the type was made, a type
  that has a representation is given it, also when more types are made on the way
  (`Engine.Hosts`). So the emitters of whole numbers and addresses go through, and what
  they leave is known: a function that is longer by instructions that compute
  (`Func.Lengthens`), and what their code brings about.
-/

namespace TypedIR

/-! ## Longer functions -/

/-- The function has become longer by values and by so many instructions that compute. -/
structure Func.Lengthens (f : Func) (n : Nat) (f' : Func) : Prop where
  old : f.Extends f'
  size : f'.insns.size ≤ f.insns.size + n
  destroyed : f'.destroyed = f.destroyed
  compiled : f'.compiled = f.compiled
  straight : f.Straight → f'.Straight
  plain : f.Plain → f'.Plain
  values : ∀ {v info}, f'.value? v = some info →
    f.value? v = some info ∨ f.value? v = none ∧ info.needsSlot = false

/-- The value is one of the type, and has the representation of the type. -/
structure Func.Carries (f : Func) (c : Setting) (v : ValueId) (type : TypeId) (r : Rep) : Prop where
  value : ∃ info, f.value? v = some info ∧ info.type = type ∧ info.rep = r
  rep : c.types.HasRep c.target type r

namespace Func

variable {f f' f'' : Func} {n k : Nat} {c c' : Setting} {v : ValueId} {type : TypeId} {r : Rep}

namespace Lengthens

theorem refl (f : Func) : f.Lengthens 0 f :=
  ⟨.refl f, Nat.le_refl _, rfl, rfl, fun h => h, fun h => h, .inl⟩

theorem trans (h : f.Lengthens n f') (h' : f'.Lengthens k f'') : f.Lengthens (n + k) f'' where
  old := h.old.trans h'.old
  size := Nat.add_assoc .. ▸ Nat.le_trans h'.size (Nat.add_le_add_right h.size k)
  destroyed := h'.destroyed.trans h.destroyed
  compiled := h'.compiled.trans h.compiled
  straight := h'.straight ∘ h.straight
  plain := h'.plain ∘ h.plain
  values {v info} hv := by
    rcases h'.values hv with hold | ⟨hnew, hneeds⟩
    · exact h.values hold
    · refine .inr ⟨?_, hneeds⟩
      cases hf : f.value? v with
      | none => rfl
      | some other =>
        obtain ⟨other', hv', -⟩ := h.old.value hf
        rw [hnew] at hv'
        cases hv'

theorem within (h : f.Lengthens n f') (hle : n ≤ k) : f.Lengthens k f' :=
  { h with size := Nat.le_trans h.size (Nat.add_le_add_left hle _) }

theorem computed (hf : 0 < f.values.size) {info : ValueInfo} {i : Insn} (hi : i.op.isPlain = true)
    (hneeds : info.needsSlot = false) : f.Lengthens 1 ((f.addValue info).2.push i) where
  old := extends_computed hf
  size := size_computed.le
  destroyed := rfl
  compiled := rfl
  straight h := Straight.push (f := (f.addValue info).2) h hi
  plain h := ((h.addValue hneeds).plain.push i).plain
  values {v other} h := by
    have hadded := (value?_addValue hf v).symm.trans h
    split at hadded
    · next hv =>
      subst hv
      rw [← Option.some.inj hadded]
      exact .inr ⟨value?_next, hneeds⟩
    · exact .inl hadded

theorem isOpen (h : f.Lengthens n f') (hopen : f.Open c) : f'.Open c :=
  ⟨h.compiled.trans hopen.1, h.old.header.ctx.trans hopen.2⟩

end Lengthens

namespace Carries

theorem rep? (h : f.Carries c v type r) : f.rep? v = some r := by
  obtain ⟨info, hv, -, rfl⟩ := h.value
  exact rep?_of_value? hv

theorem pos (h : f.Carries c v type r) : 0 < v := by
  obtain ⟨info, hv, -⟩ := h.value
  exact (value?_lt hv).1

theorem values_pos (h : f.Carries c v type r) : 0 < f.values.size := by
  obtain ⟨info, hv, -⟩ := h.value
  exact Nat.lt_of_le_of_lt (Nat.zero_le _) (value?_lt hv).2.2

theorem later (h : f.Carries c v type r) (hext : f.Extends f') : f'.Carries c v type r := by
  obtain ⟨info, hv, rfl, rfl⟩ := h.value
  obtain ⟨info', hv', hsame⟩ := hext.value hv
  exact ⟨⟨info', hv', hsame.type, hsame.rep⟩, h.rep⟩

end Carries

end Func

/-- The function has become longer by at most so many instructions, which compute a value of
the type. -/
structure Func.Obtains (f : Func) (c : Setting) (n : Nat) (f' : Func) (u : ValueId) (type : TypeId)
    (r : Rep) (p : Machine → Word → Prop) : Prop where
  lengthens : f.Lengthens n f'
  carries : f'.Carries c u type r
  brings : f.Brings f' u p

theorem Rep.IsWhole.needsSlot {r : Rep} (h : r.IsWhole) {info : ValueInfo} (hr : info.rep = r)
    (haddr : info.addressable = false) : info.needsSlot = false := by
  unfold ValueInfo.needsSlot
  rw [haddr, hr]
  rcases h.1 with hc | hc | hc <;> simp [hc]

/-! ## Engines and benches -/

/-- The engine is in the setting, can call functions, gives runs so many steps, and was not
asked for the layout of a type before the type was made. -/
structure Engine.Serves (e : Engine) (c : Setting) (limit : Int) : Prop where
  target : e.target = c.target
  types : e.types = c.types
  building : e.building = c.building
  layouts : Layout.Honest c.target c.types True e.layouts
  depth : 0 < e.maxDepth
  limit : e.maxSteps = limit

/-- Such an engine has the function. -/
structure Engine.Hosts (e : Engine) (c : Setting) (limit : Int) (id : FuncId) (f : Func) : Prop
    extends e.Serves c limit where
  func : e.findFunc id = .ok f

/-- The engine has the function, can call it and gives runs so many steps. -/
structure Engine.Ready (e : Engine) (limit : Int) (id : FuncId) (f : Func) : Prop where
  func : e.findFunc id = .ok f
  depth : 0 < e.maxDepth
  limit : e.maxSteps = limit

/-- The same of a bench. -/
structure Bench.Hosts (b : Bench) (c : Setting) (f : Func) : Prop where
  target : b.target = c.target
  types : b.types = c.types
  layouts : Layout.Honest c.target c.types True b.layouts
  func : b.func = f

namespace Engine.Hosts

variable {α : Type} {e e' : Engine} {c : Setting} {limit : Int} {id : FuncId} {f f' : Func}

theorem blind (c : Setting) (limit : Int) (id : FuncId) (f : Func) :
    Engine.Blind fun e => e.Hosts c limit id f :=
  fun _ _ h => { h with func := h.func }

theorem findOpen (h : e.Hosts c limit id f) (hopen : f.Open c) : e.findOpen id = .ok f := by
  obtain ⟨hfunc, halive⟩ := EngineM.findFunc_ok h.func
  exact EngineM.findOpen_of hfunc halive hopen.1 (h.building.trans hopen.2.symm)

theorem ends_emitInto (h : e.Hosts c limit id f) (hopen : f.Open c) {act : EmitM α}
    {post : α → Setting → Func → Prop} (hact : ∀ b : Bench, b.Hosts c f → Ends act b
      (fun a b' => ∃ c' f', b'.Hosts c' f' ∧ c'.target = c.target ∧ c'.building = c.building ∧
        f'.destroyed = f.destroyed ∧ post a c' f') fun _ _ => False) :
    Ends (EngineM.emitInto id act) e (fun a e' => ∃ c' f', e'.Hosts c' limit id f' ∧ post a c' f')
      fun _ _ => False := by
  refine EngineM.ends_emitOpen (h.findOpen hopen)
    ((hact (e.bench f) ⟨h.target, h.types, h.layouts, rfl⟩).imp ?_)
  rintro a b ⟨c', f', hb, htarget, hbuilding, halive, hpost⟩
  exact ⟨c', f', {
    target := h.target.trans htarget.symm
    types := hb.types
    building := h.building.trans hbuilding.symm
    layouts := hb.layouts
    depth := h.depth
    limit := h.limit
    func := EngineM.findFunc_set h.func halive (hb.func ▸ rfl) }, hpost⟩

theorem ends_emitted (h : e.Hosts c limit id f) (hopen : f.Open c) {act : EmitM α}
    {post : α → Func → Prop} (hact : ∀ b : Bench, b.Hosts c f → Ends act b
      (fun a b' => ∃ f', b'.Hosts c f' ∧ f'.destroyed = f.destroyed ∧ post a f') fun _ _ => False) :
    Ends (EngineM.emitInto id act) e (fun a e' => ∃ f', e'.Hosts c limit id f' ∧ post a f')
      fun _ _ => False := by
  have hemit : Ends (EngineM.emitInto id act) e
      (fun a e' => ∃ c' f', e'.Hosts c' limit id f' ∧ c' = c ∧ post a f') fun _ _ => False := by
    refine h.ends_emitInto hopen fun b hb => (hact b hb).imp ?_
    rintro a b' ⟨f', hb', halive, hpost⟩
    exact ⟨c, f', hb', rfl, rfl, halive, rfl, hpost⟩
  refine hemit.imp ?_
  rintro a e' ⟨_, f', h', rfl, hpost⟩
  exact ⟨f', h', hpost⟩

theorem ends_compile (h : e.Hosts c limit id f) (hopen : f.Open c) (hleads : e.Leads f) :
    Ends (EngineM.compile id) e (fun _ e' => ∃ f', f.Framed f' ∧ e'.Ready limit id f')
      fun _ _ => False := by
  refine (EngineM.ends_compile id e).mono ?_ fun _ _ hno => hno.2 f (h.findOpen hopen) hleads
  rintro _ _ ⟨g, hg, hcases⟩
  obtain rfl := Except.ok.inj (h.func.symm.trans hg)
  rcases hcases with ⟨hc, -⟩ | ⟨-, -, notes, rfl⟩
  · cases hopen.1.symm.trans hc
  · exact ⟨e.framed f, e.framed_framed f, EngineM.findFunc_set h.func rfl rfl, h.depth, h.limit⟩

end Engine.Hosts

/-! ## Emitters -/

namespace Bench.Hosts

open Func (Converted)

variable {b : Bench} {c : Setting} {f : Func} {v : ValueId} {type source : TypeId} {r want : Rep}

theorem value (h : b.Hosts c f) {info : ValueInfo} (hv : f.value? v = some info) :
    Ends (Emit.value v) b (fun a b' => info = a ∧ b = b') fun _ _ => False := by
  refine .bind_get ?_
  rw [h.func, hv]
  exact .pure' ⟨rfl, rfl⟩

theorem repOf (h : b.Hosts c f) (hr : c.types.HasRep c.target type r) :
    Ends (Emit.repOf type) b (fun a b' => r = a ∧ b'.Hosts c f) fun _ _ => False := by
  have hfound := hr.findRep c.ordered h.layouts
  have hhonest := (TypeTable.findRep_right c.ordered type h.layouts).2
  unfold Emit.repOf
  refine .bind_get ?_
  rw [h.types, h.target]
  rcases hrun : (c.types.findRep c.target type).run b.layouts with ⟨answer, layouts⟩
  rw [hrun] at hfound hhonest
  obtain rfl : answer = .ok r := hfound
  exact .bind_set (.pure' ⟨rfl, rfl, rfl, hhonest, h.func⟩)

theorem addValue (h : b.Hosts c f) (info : ValueInfo) :
    Ends (Emit.addValue info) b
      (fun u b' => u = f.values.size ∧ b'.Hosts c (f.addValue info).2) fun _ _ => False := by
  unfold Emit.addValue
  refine .bind_get ?_
  rw [h.func]
  exact .bind_set (.pure' ⟨rfl, h.target, h.types, h.layouts, rfl⟩)

theorem push (h : b.Hosts c f) (i : Insn) :
    Ends (Emit.push i) b (fun _ b' => b'.Hosts c (f.push i)) fun _ _ => False :=
  .modify' ⟨h.target, h.types, h.layouts, congrArg (Func.push · i) h.func⟩

theorem computed (h : b.Hosts c f) (hr : c.types.HasRep c.target type r) (g : ValueId → Insn) :
    Ends (do let dest ← Emit.temp type; Emit.push (g dest); pure dest) b
      (fun u b' => u = f.values.size ∧
        b'.Hosts c ((f.addValue { type, rep := r, origin := .temp }).2.push (g u)))
      fun _ _ => False := by
  have htemp : Ends (Emit.temp type) b (fun u b' => u = f.values.size ∧
      b'.Hosts c (f.addValue { type, rep := r, origin := .temp }).2) fun _ _ => False := by
    refine .bind' (h.repOf hr) ?_
    rintro _ b₁ ⟨rfl, h₁⟩
    exact h₁.addValue _
  refine .bind' htemp ?_
  rintro u b₁ ⟨rfl, h₁⟩
  refine .bind' (h₁.push _) ?_
  intro _ b₂ h₂
  exact .pure' ⟨rfl, h₂⟩

theorem converting (h : b.Hosts c f) (hv : f.Carries c v source r) (hi : r.IsWhole)
    (hwant : c.types.HasRep c.target type want) (hiw : want.IsWhole) :
    Ends (do
      let dest ← Emit.temp type
      Emit.push { op := .convert, dest, a := v, type, rep := r }
      pure dest) b (fun u b' => ∃ f', b'.Hosts c f' ∧ f.Obtains c 1 f' u type want (Converted want r v))
      fun _ _ => False := by
  have hpos := hv.values_pos
  refine (h.computed hwant fun dest => { op := .convert, dest, a := v, type, rep := r }).imp ?_
  rintro _ b' ⟨rfl, h'⟩
  exact ⟨_, h', .computed hpos rfl (hiw.needsSlot rfl rfl),
    ⟨⟨_, Func.value?_computed hpos, rfl, rfl⟩, hwant⟩, .converting hpos hv.rep? hi hiw type⟩

theorem coerce (h : b.Hosts c f) (hv : f.Carries c v source r) (hi : r.IsWhole)
    (hwant : c.types.HasRep c.target type want) (hiw : want.IsWhole) :
    Ends (Emit.coerce v type) b (fun u b' => ∃ f' type', b'.Hosts c f' ∧
      f.Obtains c 1 f' u type' want (Converted want r v)) fun _ _ => False := by
  obtain ⟨info, hinfo, rfl, rfl⟩ := hv.value
  have hsame : ∀ b' : Bench, b'.Hosts c f → info.rep = want → ∃ f' type', b'.Hosts c f' ∧
      f.Obtains c 1 f' v type' want (Converted want info.rep v) := by
    rintro b' h' rfl
    refine ⟨f, info.type, h', (Func.Lengthens.refl f).within (Nat.zero_le 1), hv, Func.Brings.refl' ?_⟩
    rintro m _ ⟨n, hn, hread, rfl⟩
    rwa [hiw.wrap_eq hn]
  unfold Emit.coerce
  refine .bind' (h.value hinfo) ?_
  rintro _ _ ⟨rfl, rfl⟩
  refine .ite' (fun htype => .pure' (hsame _ h ?_)) fun _ => ?_
  · exact (htype ▸ hv.rep).unique hwant
  refine .bind' (h.repOf hwant) ?_
  rintro _ b₁ ⟨rfl, h₁⟩
  refine .ite' (fun heq => .pure' (hsame b₁ h₁ heq)) fun _ => ?_
  dsimp only
  rw [hi.isScalar, hiw.isScalar]
  refine (h₁.converting hv hi hwant hiw).imp ?_
  rintro u b₂ ⟨f', h₂, hobtains⟩
  exact ⟨f', type, h₂, hobtains⟩

theorem convert (h : b.Hosts c f) (hv : f.Carries c v source r) (hi : r.IsWhole)
    (hwant : c.types.HasRep c.target type want) (hiw : want.IsWhole) :
    Ends (Emit.convert v type) b
      (fun u b' => ∃ f', b'.Hosts c f' ∧ f.Obtains c 1 f' u type want (Converted want r v))
      fun _ _ => False := by
  obtain ⟨info, hinfo, rfl, rfl⟩ := hv.value
  unfold Emit.convert
  refine .bind' (h.value hinfo) ?_
  rintro _ _ ⟨rfl, rfl⟩
  refine .bind' (h.repOf hwant) ?_
  rintro _ b₁ ⟨rfl, h₁⟩
  dsimp only
  rw [hi.isScalar, hiw.isScalar]
  exact h₁.converting hv hi hwant hiw

/-- A return of a whole number or an address, as one of the type of the result. -/
theorem ret (h : b.Hosts c f) (hv : f.Carries c v source r) (hi : r.IsWhole) (hret : f.ret.IsWhole)
    {g : Signature} (hsig : c.types.signature? f.sig = some g)
    (hresult : c.types.HasRep c.target g.result f.ret) :
    Ends (Emit.ret v) b (fun _ b' => ∃ u f' type',
      b'.Hosts c (f'.push { op := .ret, a := u, rep := f.ret }) ∧
        f.Obtains c 1 f' u type' f.ret (Converted f.ret r v)) fun _ _ => False := by
  have hvoid : f.ret.cls ≠ .void := Rep.ne_void hret.isScalar
  unfold Emit.ret
  refine .bind_get (.ite' (fun hno => absurd hno (Nat.ne_of_gt hv.pos)) fun _ => ?_)
  rw [h.func]
  refine .ite' (fun hno => absurd hno hvoid) fun _ => .bind_get ?_
  rw [h.types, hsig]
  refine .bind' (h.coerce hv hi hresult hret) ?_
  rintro u b₁ ⟨f', type', h₁, hobtains⟩
  refine (h₁.push _).imp ?_
  intro _ b₂ h₂
  exact ⟨u, f', type', h₂, hobtains⟩

end Bench.Hosts

end TypedIR
