import TypedIR.Proofs.SealedFunctions
import TypedIR.Proofs.LayoutOutcomes

/-
  What loading an image makes.

  The types come first. Then a function is made for the signature and filled: the
  values after its parameters, the labels and the instructions are those of the image,
  with numbers of types read through the loaded ones, and the function is compiled.
  `Image.Fills` says what the filled function is, and each stage says what it does and
  what must be wrong with the image when it stops (`EngineM.ends_fill`).
-/

namespace TypedIR

/-! ## What is loaded -/

def Image.typeAt? (ids : Array TypeId) (ref : Int) : Option TypeId :=
  if ref = 0 then some 0 else if ref < 0 then none else ids[ref.toNat - 1]?

def Image.sigType (img : Image) (ids : Array TypeId) : TypeId :=
  ids.getD (img.sig.toNat - 1) 0

/-- A value of an image as a value of a function. -/
structure ImageValue.LoadsTo (ids : Array TypeId) (v : ImageValue) (info : ValueInfo) : Prop where
  type : Image.typeAt? ids v.type = some info.type
  origin : info.origin = .ofCode v.origin
  param : info.param = v.param
  bits : info.bits = v.bits
  addressable : info.addressable = v.addressable

theorem ImageValue.loadsTo_slotted {ids : Array TypeId} {vs : List ImageValue}
    {infos infos' : List ValueInfo} (h : List.Forall₂ (ImageValue.LoadsTo ids) vs infos)
    (hs : List.Forall₂ Slotted infos infos') :
    List.Forall₂ (ImageValue.LoadsTo ids) vs infos' := by
  induction h generalizing infos' with
  | nil => exact List.forall₂_nil_left_iff.mp hs ▸ .nil
  | @cons v info vs infos hload _ ih =>
    obtain ⟨info', rest, hslot, hrest, rfl⟩ := List.forall₂_cons_left_iff.mp hs
    refine .cons ?_ (ih hrest)
    rw [hslot]
    exact ⟨hload.type, hload.origin, hload.param, hload.bits, hload.addressable⟩

/-- An instruction of an image as one of the function `fn`. -/
def ImageInsn.insn (fn : FuncId) (i : ImageInsn) (type : TypeId) : Insn :=
  { op := .ofCode i.op, dest := i.dest, a := i.a, b := i.b, args := i.args.getD [],
    label := i.label, offset := i.offset, type,
    callee := if i.selfCall then fn else 0, native := i.native, math := .ofCode i.math,
    rep := { cls := .ofCode i.cls, size := i.size }, implicit := i.implicit }

@[inherit_doc ImageInsn.insn]
def ImageInsn.LoadsTo (fn : FuncId) (ids : Array TypeId) (i : ImageInsn) (insn : Insn) : Prop :=
  ∃ type, Image.typeAt? ids i.type = some type ∧ insn = i.insn fn type

def Insn.mentions (i : Insn) : List ValueId := i.dest :: i.a :: i.b :: i.args

def ImageInsn.mentions (i : ImageInsn) : List Nat := i.dest :: i.a :: i.b :: i.args.getD []

theorem ImageInsn.LoadsTo.mentions {fn : FuncId} {ids : Array TypeId} {i : ImageInsn} {insn : Insn}
    (h : i.LoadsTo fn ids insn) : insn.mentions = i.mentions := by
  obtain ⟨type, -, rfl⟩ := h
  rfl

/-- A parameter that was made for the signature: whether its address may be taken is
up to the image. -/
def ValueInfo.takeOver (values : List ImageValue) (p : ValueId) (info : ValueInfo) : ValueInfo :=
  { info with addressable := ((values[p]?).map (·.addressable)).getD false }

/-- What an image leaves of the function `f₀` that was made for its signature: the
parameters are the function's own, what comes after them is the image's, and jumps,
calls and operands lead somewhere. -/
structure Image.Fills (img : Image) (ids : Array TypeId) (f₀ f : Func) : Prop where
  header : f₀.SameHeader f
  compiled : f.compiled = true
  destroyed : f.destroyed = false
  params : f₀.params = img.params.getD []
  size : f.values.size = (img.values.getD []).length
  first : f.values[0]? = some .placeholder
  own : ∀ v info, v ∈ f₀.params → f₀.values[v]? = some info →
    ∃ info', f.values[v]? = some info' ∧ Slotted (info.takeOver (img.values.getD []) v) info'
  loaded : List.Forall₂ (ImageValue.LoadsTo ids) ((img.values.getD []).drop f₀.values.size)
    (f.values.toList.drop f₀.values.size)
  labels : f.labels = f₀.labels ++ ((img.labels.getD []).drop 1).toArray
  insns : List.Forall₂ (ImageInsn.LoadsTo f₀.id ids) (img.insns.getD []) f.insns.toList
  mentions : ∀ i ∈ f.insns, ∀ v ∈ i.mentions, v < f.values.size
  targets : ∀ i ∈ f.insns, i.op.isBranch = true → (f.target? i).isSome
  calls : ∀ i ∈ f.insns, i.op = .call → i.callee = f₀.id

namespace Engine

/-- Types come after their parts, and the layouts that are remembered are right. -/
def Sincere (e : Engine) : Prop :=
  e.types.Ordered ∧ Layout.Truthful e.target e.types e.layouts

/-- Everything is as it was but functions, contexts, remembered layouts and notes, and
an engine that was sincere still is. -/
structure Settled (e e' : Engine) : Prop where
  same : e' = { e with
    layouts := e'.layouts, contexts := e'.contexts, funcs := e'.funcs, notes := e'.notes }
  sincere : e.Sincere → e'.Sincere

variable {e e' e'' : Engine}

theorem Settled.target (h : e.Settled e') : e'.target = e.target := by rw [h.same]

theorem Settled.types (h : e.Settled e') : e'.types = e.types := by rw [h.same]

theorem Settled.building (h : e.Settled e') : e'.building = e.building := by rw [h.same]

theorem Settled.trans (h : e.Settled e') (h' : e'.Settled e'') : e.Settled e'' :=
  ⟨by rw [h'.same, h.same], h'.sincere ∘ h.sincere⟩

instance : Std.Refl Settled := ⟨fun _ => ⟨rfl, id⟩⟩

instance : Trans Settled Settled Settled := ⟨.trans⟩

theorem settled_noted (e : Engine) (n : Trace.Note) :
    e.Settled { e with notes := e.notes.push n } := ⟨rfl, id⟩

def Represents (e : Engine) (id : TypeId) (r : Rep) : Prop :=
  e.types.repOf id (Layout.ledTo e.target e.types [] (e.types.underlying id)) = .ok r

theorem Settled.represents (h : e.Settled e') {id : TypeId} {r : Rep} :
    e'.Represents id r ↔ e.Represents id r := by
  unfold Represents
  rw [h.target, h.types]

end Engine

namespace EngineM

open Engine

variable {e : Engine} {f g : Func} {fn : FuncId} {ids : Array TypeId}

theorem imageType_eq (f : Func) (ids : Array TypeId) (ref : Int) :
    imageType f ids ref =
      match Image.typeAt? ids ref with
      | some id => pure id
      | none => failIn f (.imageTypeRef ref) := by
  by_cases h0 : ref = 0
  · subst h0
    rfl
  · have htype : Image.typeAt? ids ref = if ref < 0 then none else ids[ref.toNat - 1]? := if_neg h0
    have himage : imageType f ids ref =
        match if ref < 0 then none else ids[ref.toNat - 1]? with
        | some id => pure id
        | none => failIn f (.imageTypeRef ref) := if_neg h0
    rw [htype]
    exact himage

theorem ends_imageType (f : Func) (ids : Array TypeId) (ref : Int) (e : Engine) :
    Ends (imageType f ids ref) e (fun t e' => e = e' ∧ Image.typeAt? ids ref = some t)
      fun _ _ => Image.typeAt? ids ref = none := by
  rw [imageType_eq]
  cases h : Image.typeAt? ids ref with
  | some id => exact .pure' ⟨rfl, rfl⟩
  | none => exact .throw' rfl

theorem ends_repOf_settled (id : TypeId) (e : Engine) :
    Ends (repOf id) e (fun r e' => e.Still e' ∧ e.Settled e' ∧ (e.Sincere → e.Represents id r))
      fun _ _ => e.Sincere → ∀ r, ¬ e.Represents id r := by
  refine .bind_get ?_
  have hanswer : e.Sincere → ((e.types.findRep e.target id).run e.layouts).1 =
        e.types.repOf id (Layout.ledTo e.target e.types [] (e.types.underlying id)) ∧
      Layout.Truthful e.target e.types ((e.types.findRep e.target id).run e.layouts).2 := by
    rintro ⟨hord, htruth⟩
    rw [TypeTable.run_findRep]
    rcases hd : e.types.find? (e.types.underlying id) with _ | d
    · refine ⟨?_, htruth⟩
      simp [TypeTable.repOf, hd]
    · have hrun := htruth.run_layoutOf (Layout.laid_ledTo hord (e.types.underlying id))
      exact ⟨congrArg (e.types.repOf id) hrun.1, hrun.2⟩
  rcases hrun : (e.types.findRep e.target id).run e.layouts with ⟨c | r, layouts⟩ <;>
    rw [hrun] at hanswer
  · refine .bind_set (Ends.throw' fun hs r hr => ?_)
    cases (hanswer hs).1.trans hr
  · refine .bind_set (Ends.pure' ⟨⟨rfl, rfl, rfl⟩, ⟨rfl, fun hs => ⟨hs.1, (hanswer hs).2⟩⟩, ?_⟩)
    intro hs
    exact (hanswer hs).1.symm

theorem ends_modifyFunc (hg : e.func? fn = some g) (k : Func → Func)
    {stop : Failure → Engine → Prop} :
    Ends (modifyFunc fn k) e (fun _ e' => e'.func? fn = some (k g) ∧ e.Settled e') stop := by
  refine .modify' ⟨?_, rfl, id⟩
  obtain ⟨hpos, hget, hlt⟩ := func?_lt hg
  unfold func?
  rw [if_neg (Nat.ne_of_gt hpos), Array.getElem?_modify, if_pos rfl, hget]
  rfl

/-! ## Values -/

theorem ends_loadValues (hg : e.func? f.id = some g) (vs : List ImageValue) :
    Ends (loadValues f ids vs) e
      (fun _ e' => ∃ infos, List.Forall₂ (ImageValue.LoadsTo ids) vs infos ∧
        e'.func? f.id = some { g with values := g.values ++ infos.toArray } ∧ e.Settled e')
      fun _ _ => e.Sincere → ∃ v ∈ vs, ∀ t r, Image.typeAt? ids v.type = some t →
        ¬ e.Represents t r := by
  induction vs generalizing e g with
  | nil => exact .pure' ⟨[], .nil, by simpa using hg, Std.Refl.refl e⟩
  | cons v rest ih =>
    refine .bind' ((ends_imageType f ids v.type e).imp_stop fun _ _ hnone _ => ?_) ?_
    · exact ⟨v, List.mem_cons_self, fun t _ ht => absurd (hnone.symm.trans ht) nofun⟩
    rintro type _ ⟨rfl, htype⟩
    refine .bind' (.tryCatch' ((ends_repOf_settled type e).imp_stop ?_)) ?_
    · intro _ e₁ hno
      refine .throw' fun hs => ⟨v, List.mem_cons_self, fun t r ht => ?_⟩
      obtain rfl := Option.mem_unique htype ht
      exact hno hs r
    rintro rep e₁ ⟨hstill, h₁, -⟩
    have hg₁ : e₁.func? f.id = some g := (SameCode.func? hstill.1 f.id).trans hg
    refine .bind' (ends_modifyFunc hg₁ _) ?_
    rintro _ e₂ ⟨hg₂, h₂⟩
    have h₁₂ : e.Settled e₂ := h₁.trans h₂
    refine (ih hg₂).mono ?_ fun _ _ hstop hs => ?_
    · rintro _ e₃ ⟨infos, hinfos, hg₃, h₃⟩
      let info : ValueInfo :=
        { type, rep, origin := .ofCode v.origin, param := v.param, bits := v.bits,
          addressable := v.addressable }
      refine ⟨info :: infos, .cons ⟨htype, rfl, rfl, rfl, rfl⟩ hinfos, ?_, h₁₂.trans h₃⟩
      rw [hg₃]
      simp [Func.addValue, info]
    · obtain ⟨w, hw, hno⟩ := hstop (h₁₂.sincere hs)
      exact ⟨w, List.mem_cons_of_mem v hw, fun t r ht hr => hno t r ht (h₁₂.represents.mpr hr)⟩

/-! ## Parameters -/

theorem ends_loadParams (hg : e.func? f.id = some g) (values : List ImageValue) (i : Nat)
    {owns ps : List ValueId} (hlen : ps.length = owns.length) :
    Ends (loadParams f values i owns ps) e
      (fun _ e' => owns = ps ∧ ∃ vs, vs.size = g.values.size ∧
        (∀ v, vs[v]? = if v ∈ owns then (g.values[v]?).map (.takeOver values v) else g.values[v]?) ∧
        e'.func? f.id = some { g with values := vs } ∧ e.Settled e')
      fun _ _ => owns ≠ ps := by
  induction owns generalizing e g i ps with
  | nil =>
    obtain rfl := List.length_eq_zero_iff.mp hlen
    exact .pure' ⟨rfl, g.values, rfl, by simp, hg, Std.Refl.refl e⟩
  | cons own owns ih =>
    obtain ⟨p, ps, rfl⟩ := List.exists_cons_of_length_eq_add_one hlen
    have hlen' : ps.length = owns.length := Nat.succ.inj hlen
    refine .ite' (fun hne => .bind_throw fun heq => hne (List.cons.inj heq).1) fun heq => ?_
    obtain rfl : own = p := not_not.mp heq
    refine .bind' (ends_modifyFunc hg _) ?_
    rintro _ e₁ ⟨hg₁, h₁⟩
    refine (ih hg₁ (i + 1) hlen').mono ?_ fun _ _ hne heq => hne (List.cons.inj heq).2
    rintro _ e₂ ⟨rfl, vs, hsize, hvs, hg₂, h₂⟩
    refine ⟨rfl, vs, by simpa using hsize, fun v => ?_, hg₂, h₁.trans h₂⟩
    rw [hvs]
    simp only [Array.getElem?_modify, List.mem_cons]
    by_cases hv : own = v
    · subst hv
      simp only [if_pos, true_or, Option.map_map]
      split <;> rfl
    · simp only [if_neg hv, Ne.symm hv, false_or]

/-! ## Instructions -/

theorem ends_loadInsns (hg : e.func? f.id = some g) (valueCount labelCount pc : Nat)
    (is : List ImageInsn) :
    Ends (loadInsns f ids valueCount labelCount pc is) e
      (fun _ e' => ∃ insns, List.Forall₂ (ImageInsn.LoadsTo f.id ids) is insns ∧
        (∀ i ∈ is, (∀ v ∈ i.mentions, v < valueCount) ∧ i.label < labelCount) ∧
        e'.func? f.id = some { g with insns := g.insns ++ insns.toArray } ∧ e.Settled e')
      fun _ _ => ∃ i ∈ is, (∃ v ∈ i.mentions, valueCount ≤ v) ∨ labelCount ≤ i.label ∨
        Image.typeAt? ids i.type = none := by
  induction is generalizing e g pc with
  | nil => exact .pure' ⟨[], .nil, nofun, by simpa using hg, Std.Refl.refl e⟩
  | cons i rest ih =>
    have hload : (∀ v ∈ i.mentions, v < valueCount) → i.label < labelCount →
        ∀ name : String, Ends (do
          let type ← imageType f ids i.type
          modifyFunc f.id (·.push (i.insn f.id type))
          note (.point .insn ("insn:" ++ (i.insn f.id type).op.name) name)
          loadInsns f ids valueCount labelCount (pc + 1) rest) e
        (fun _ e' => ∃ insns, List.Forall₂ (ImageInsn.LoadsTo f.id ids) (i :: rest) insns ∧
          (∀ j ∈ i :: rest, (∀ v ∈ j.mentions, v < valueCount) ∧ j.label < labelCount) ∧
          e'.func? f.id = some { g with insns := g.insns ++ insns.toArray } ∧ e.Settled e')
        fun _ _ => ∃ j ∈ i :: rest, (∃ v ∈ j.mentions, valueCount ≤ v) ∨ labelCount ≤ j.label ∨
          Image.typeAt? ids j.type = none := by
      intro hvalues hlabel name
      refine .bind' ((ends_imageType f ids i.type e).imp_stop fun _ _ hnone => ?_) ?_
      · exact ⟨i, List.mem_cons_self, .inr (.inr hnone)⟩
      rintro type _ ⟨rfl, htype⟩
      refine .bind' (ends_modifyFunc hg _) ?_
      rintro _ e₁ ⟨hg₁, h₁⟩
      refine .bind_modify ?_
      refine (ih (g := g.push (i.insn f.id type)) ?_ (pc + 1)).mono ?_ ?_
      · exact hg₁
      · rintro _ e₂ ⟨insns, hinsns, hall, hg₂, h₂⟩
        refine ⟨i.insn f.id type :: insns, .cons ⟨type, htype, rfl⟩ hinsns,
          List.forall_mem_cons.mpr ⟨⟨hvalues, hlabel⟩, hall⟩, ?_, ?_⟩
        · rw [hg₂]
          simp [Func.push]
        · exact h₁.trans (.trans (settled_noted e₁ _) h₂)
      · rintro _ _ ⟨j, hj, hwrong⟩
        exact ⟨j, List.mem_cons_of_mem i hj, hwrong⟩
    unfold loadInsns
    cases hunknown : firstUnknown? valueCount (i.dest :: i.a :: i.b :: i.args.getD []) with
    | some v =>
      have hle := List.find?_some hunknown
      have hv := List.mem_of_find?_eq_some hunknown
      exact .bind_throw ⟨i, List.mem_cons_self, .inl ⟨v, hv, by simpa using hle⟩⟩
    | none =>
      refine .ite' (fun hlabel => .bind_throw ?_) fun hlabel => ?_
      · exact ⟨i, List.mem_cons_self, .inr (.inl hlabel)⟩
      · refine hload (fun v hv => ?_) (Nat.lt_of_not_le hlabel) f.name
        have hall := List.find?_eq_none.mp hunknown v hv
        simpa using hall

/-! ## Compiling -/

theorem ends_compile_open (hopen : e.findOpen fn = .ok g) :
    Ends (compile fn) e
      (fun _ e' => (∃ g', g.Framed g' ∧ e'.func? fn = some g') ∧ e.Settled e' ∧ e.Leads g)
      fun _ _ => ¬ e.Leads g := by
  obtain ⟨hg, hd, hc, -⟩ := findOpen_ok hopen
  refine (ends_compile fn e).mono ?_ fun _ _ hno => hno.2 g hopen
  rintro _ _ ⟨g₀, hg₀, hcases⟩
  obtain rfl := Except.ok.inj ((findFunc_of hg hd).symm.trans hg₀)
  rcases hcases with ⟨hc', -⟩ | ⟨-, hleads, notes, rfl⟩
  · cases hc.symm.trans hc'
  refine ⟨⟨e.framed g, e.framed_framed g, (func?_set hg fn _ rfl).trans (if_pos rfl)⟩,
    ⟨rfl, fun hs => ⟨hs.1, ?_⟩⟩, hleads⟩
  exact keeps_slots hs.2 fun v _ c hc => (hc.run_layoutOf (Layout.laid_ledTo hs.1 v.type)).2

/-! ## Filling a function -/

/-- What an image must be for its function to be filled. -/
structure Fillable (img : Image) (e : Engine) (ids : Array TypeId) (f : Func) : Prop where
  values : ∀ v ∈ (img.values.getD []).drop f.values.size,
    ∃ t r, Image.typeAt? ids v.type = some t ∧ e.Represents t r
  params : f.params = img.params.getD []
  insns : ∀ i ∈ img.insns.getD [], (∀ v ∈ i.mentions, v < (img.values.getD []).length) ∧
    i.label < (f.labels ++ ((img.labels.getD []).drop 1).toArray).size ∧
    (Image.typeAt? ids i.type).isSome
  targets : ∀ i ∈ img.insns.getD [], (Opcode.ofCode i.op).isBranch = true → i.label ≠ 0 ∧
    ∃ pos, (f.labels ++ ((img.labels.getD []).drop 1).toArray)[i.label]? = some pos ∧ 0 ≤ pos
  calls : ∀ i ∈ img.insns.getD [], Opcode.ofCode i.op = .call → i.selfCall = true

theorem Fillable.settled {img : Image} {e' : Engine} (h : Fillable img e ids f)
    (he : e.Settled e') : Fillable img e' ids f where
  values v hv := by
    obtain ⟨t, r, ht, hr⟩ := h.values v hv
    exact ⟨t, r, ht, he.represents.mpr hr⟩
  params := h.params
  insns := h.insns
  targets := h.targets
  calls := h.calls

theorem size_framed {f f' : Func} (h : f.Framed f') (hpos : 0 < f.values.size) :
    f'.values.size = f.values.size := by
  have hsize := h.size_values
  have hfirst : 0 < f'.values.size := by
    obtain ⟨vs, hvalues, -⟩ := h.values
    simp [hvalues]
  rw [List.length_drop, List.length_drop, Array.length_toList, Array.length_toList] at hsize
  omega

theorem getElem?_framed {f f' : Func} (h : f.Framed f') {v : Nat} (hv : 0 < v)
    {info : ValueInfo} (hget : f.values[v]? = some info) :
    ∃ info', f'.values[v]? = some info' ∧ Slotted info info' := by
  obtain ⟨info', hv', hs, -⟩ := h.value ((if_neg (Nat.pos_iff_ne_zero.mp hv)).trans hget)
  exact ⟨info', (Func.value?_lt hv').2.1, hs⟩

theorem drop_framed {f f' : Func} (h : f.Framed f') {n : Nat} (hn : 0 < n) :
    List.Forall₂ Slotted (f.values.toList.drop n) (f'.values.toList.drop n) := by
  obtain ⟨vs, hvalues, hvs, -⟩ := h.values
  obtain ⟨k, rfl⟩ : ∃ k, n = k + 1 := ⟨n - 1, by omega⟩
  have hdrop := List.forall₂_drop k hvs
  rw [List.drop_drop] at hdrop
  rw [hvalues]
  simpa [Nat.add_comm] using hdrop

/-- A function that nothing was put into yet: its values are its parameters. -/
structure Blank (f : Func) : Prop where
  insns : f.insns = #[]
  labels : f.labels = #[-1]
  params : f.params = (List.range f.params.length).map (· + 1)
  size : f.values.size = f.params.length + 1

theorem Blank.param_lt {f : Func} (h : Blank f) {p : ValueId} (hp : p ∈ f.params) :
    0 < p ∧ p < f.values.size := by
  rw [h.params, List.mem_map] at hp
  obtain ⟨k, hk, rfl⟩ := hp
  rw [List.mem_range] at hk
  rw [h.size]
  exact ⟨Nat.succ_pos k, Nat.succ_lt_succ hk⟩

/-- A blank function is filled as the image says, or the image has something wrong with
it, or a layout is remembered that is not right. -/
theorem ends_fill {img : Image} (hopen : e.findOpen fn = .ok f) (hid : f.id = fn) (hblank : Blank f)
    (hlen : (img.params.getD []).length = f.params.length)
    (hcount : f.values.size ≤ (img.values.getD []).length) :
    Ends (fillFromImage f fn ids img) e
      (fun answer e' => answer = fn ∧ (∃ f', e'.func? fn = some f' ∧ img.Fills ids f f') ∧
        e.Settled e')
      fun _ _ => e.Sincere → ¬ Fillable img e ids f := by
  obtain ⟨hg, hd, hc, hb⟩ := findOpen_ok hopen
  subst hid
  let values := img.values.getD []
  have hcount : f.values.size ≤ values.length := hcount
  -- values
  refine .bind' ((ends_loadValues (g := f) hg (values.drop f.values.size)).imp_stop ?_) ?_
  · intro _ _ hstop hs hfill
    obtain ⟨v, hv, hno⟩ := hstop hs
    obtain ⟨t, r, ht, hr⟩ := hfill.values v hv
    exact hno t r ht hr
  rintro _ e₁ ⟨infos, hinfos, hg₁, h₁⟩
  -- parameters
  refine .bind' ((ends_loadParams hg₁ values 0 hlen).imp_stop ?_) ?_
  · exact fun _ _ hne _ hfill => hne hfill.params
  rintro _ e₂ ⟨hparams, vs, hsize, hvs, hg₂, h₂⟩
  -- labels
  refine .bind' (ends_modifyFunc hg₂ _) ?_
  rintro _ e₃ ⟨hg₃, h₃⟩
  have h₀₃ : e.Settled e₃ := h₁.trans (h₂.trans h₃)
  refine ends_answered (findOpen_of hg₃ hd hc (h₀₃.building.trans hb)) ?_
  have hlength : infos.length = values.length - f.values.size := by
    rw [← hinfos.length_eq, List.length_drop]
  have hsum : (f.values ++ infos.toArray).size = f.values.size + infos.length := by simp
  have hvsize : vs.size = values.length := by
    dsimp only at hsize
    omega
  dsimp only at hvs hg₃ ⊢
  rw [hvsize]
  -- instructions
  refine .bind' ((ends_loadInsns hg₃ values.length _ 0 _).imp_stop ?_) ?_
  · rintro _ _ ⟨i, hi, hwrong⟩ _ hfill
    obtain ⟨hmentions, hlabel, htype⟩ := hfill.insns i hi
    rcases hwrong with ⟨v, hv, hle⟩ | hle | hnone
    · exact absurd (hmentions v hv) (Nat.not_lt_of_le hle)
    · exact absurd hlabel (Nat.not_lt_of_le hle)
    · rw [hnone] at htype
      cases htype
  rintro _ e₄ ⟨insns, hinsns, hbounds, hg₄, h₄⟩
  have h₀₄ : e.Settled e₄ := h₀₃.trans h₄
  let g₄ : Func := { f with
    values := vs, labels := f.labels ++ ((img.labels.getD []).drop 1).toArray,
    insns := f.insns ++ insns.toArray }
  have hopen₄ : e₄.findOpen f.id = .ok g₄ := findOpen_of hg₄ hd hc (h₀₄.building.trans hb)
  have hall : ∀ i ∈ g₄.insns, ∃ j ∈ img.insns.getD [], j.LoadsTo f.id ids i := by
    intro i hi
    have hi' : i ∈ insns := by simpa [g₄, hblank.insns] using hi
    obtain ⟨k, hk, rfl⟩ := List.getElem_of_mem hi'
    have hk' : k < (img.insns.getD []).length := hinsns.length_eq ▸ hk
    exact ⟨_, List.getElem_mem hk', hinsns.get hk' hk⟩
  have hself : e₄.findFunc f.id = .ok g₄ := by simp [findFunc, hg₄, hd, g₄]
  -- compiling
  refine .bind' ((ends_compile_open hopen₄).imp_stop ?_) ?_
  · refine fun _ _ hno _ hfill => hno fun i hi => ?_
    obtain ⟨j, hj, type, -, rfl⟩ := hall i hi
    refine ⟨fun hbranch => ?_, fun hcall => ⟨g₄, ?_⟩⟩
    · obtain ⟨h0, pos, hpos, hle⟩ := hfill.targets j hj hbranch
      have htarget : g₄.target? (j.insn f.id type) = some pos.toNat := by
        have hlabel : g₄.label? (j.insn f.id type).label = some pos := (if_neg h0).trans hpos
        rw [Func.target?, hlabel]
        exact if_neg (Int.not_lt.mpr hle)
      rw [htarget]
      rfl
    · have hcallee : (j.insn f.id type).callee = f.id := by
        rw [ImageInsn.insn, hfill.calls j hj hcall]
        rfl
      rw [hcallee]
      exact hself
  rintro _ e₅ ⟨⟨f', hplaced, hf'⟩, h₅, hleads⟩
  refine .pure' ⟨rfl, ⟨f', hf', ?_⟩, h₀₄.trans h₅⟩
  have hpos : 0 < f.values.size := by
    have := hblank.size
    omega
  have hvpos : 0 < g₄.values.size := by
    show 0 < vs.size
    omega
  have hinsns' : f'.insns.toList = insns := by
    rw [hplaced.insns]
    simp [g₄, hblank.insns]
  have hfsize : f'.values.size = values.length := (size_framed hplaced hvpos).trans hvsize
  refine
    { header := ⟨hplaced.header.id, hplaced.header.ctx, hplaced.header.name, hplaced.header.sig,
        hplaced.header.ret, hplaced.header.params⟩
      compiled := hplaced.compiled
      destroyed := hplaced.destroyed.trans hd, params := hparams, size := hfsize
      first := ?first, own := ?own, loaded := ?loaded, labels := hplaced.labels
      insns := hinsns' ▸ hinsns, mentions := ?mentions, targets := ?targets, calls := ?calls }
  case first =>
    obtain ⟨ws, hws, -⟩ := hplaced.values
    rw [hws, Array.getElem?_append_left Nat.zero_lt_one]
    rfl
  case own =>
    intro v info hv hinfo
    have hbound := hblank.param_lt hv
    have hold : vs[v]? = some (info.takeOver values v) := by
      rw [hvs v, if_pos hv, Array.getElem?_append_left hbound.2, hinfo]
      rfl
    exact getElem?_framed hplaced hbound.1 hold
  case loaded =>
    have hrest : vs.toList.drop f.values.size = infos := by
      refine List.ext_getElem? fun k => ?_
      have hown : f.values.size + k ∉ f.params := fun h =>
        absurd (hblank.param_lt h).2 (Nat.not_lt_of_le (Nat.le_add_right _ _))
      rw [List.getElem?_drop, Array.getElem?_toList, hvs, if_neg hown,
        Array.getElem?_append_right (Nat.le_add_right _ _), Nat.add_sub_cancel_left]
      exact List.getElem?_toArray
    have hslots := drop_framed hplaced hpos
    rw [hrest] at hslots
    exact ImageValue.loadsTo_slotted hinfos hslots
  case mentions =>
    intro i hi v hv
    rw [hplaced.insns] at hi
    obtain ⟨j, hj, hload⟩ := hall i hi
    rw [hload.mentions] at hv
    exact hfsize ▸ (hbounds j hj).1 v hv
  case targets =>
    intro i hi hop
    rw [hplaced.insns] at hi
    have htarget := (hleads i hi).1 hop
    unfold Func.target? Func.label? at htarget ⊢
    rw [hplaced.labels]
    exact htarget
  case calls =>
    intro i hi hop
    rw [hplaced.insns] at hi
    obtain ⟨callee, hcallee⟩ := (hleads i hi).2 hop
    obtain ⟨j, -, type, -, rfl⟩ := hall i hi
    show (if j.selfCall then f.id else 0) = f.id
    have hcallee : e₄.findFunc (if j.selfCall then f.id else 0) = .ok callee := hcallee
    by_cases hj : j.selfCall = true
    · exact if_pos hj
    · rw [if_neg hj] at hcallee
      cases hcallee

/-! ## Making the function -/

theorem ends_paramReps_settled (i : Nat) (ps : List TypeId) (e : Engine) :
    Ends (paramReps i ps) e
      (fun reps e' => reps.length = ps.length ∧ e.Still e' ∧ e.Settled e' ∧
        (e.Sincere → List.Forall₂ (fun p r => e.Represents p r ∧ r.isScalar = true) ps reps))
      fun _ _ => e.Sincere → ∃ p ∈ ps, ∀ r, e.Represents p r → r.isScalar = false := by
  induction ps generalizing i e with
  | nil => exact .pure' ⟨rfl, Std.Refl.refl e, Std.Refl.refl e, fun _ => .nil⟩
  | cons p rest ih =>
    refine .bind' ((ends_repOf_settled p e).imp_stop ?_) ?_
    · exact fun _ _ hno hs => ⟨p, List.mem_cons_self, fun r hr => absurd hr (hno hs r)⟩
    rintro r e₁ ⟨hstill₁, h₁, hr⟩
    refine .ite' (fun hcls => .bind_get (.bind_throw fun hs => ?_)) fun hcls => ?_
    · refine ⟨p, List.mem_cons_self, fun r' hr' => ?_⟩
      obtain rfl := Except.ok.inj ((hr hs).symm.trans hr')
      rcases hcls with hcls | hcls <;> simp [Rep.isScalar, hcls]
    have hscalar : r.isScalar = true := by
      rw [not_or] at hcls
      simp [Rep.isScalar, hcls.1, hcls.2]
    refine .bind' ((ih (i + 1) e₁).imp_stop fun _ _ hstop hs => ?_) ?_
    · obtain ⟨q, hq, hno⟩ := hstop (h₁.sincere hs)
      exact ⟨q, List.mem_cons_of_mem p hq, fun r hr => hno r (h₁.represents.mpr hr)⟩
    rintro reps e₂ ⟨hlen, hstill₂, h₂, hreps⟩
    refine .pure' ⟨congrArg (· + 1) hlen, Trans.trans hstill₁ hstill₂, h₁.trans h₂, fun hs => ?_⟩
    refine .cons ⟨hr hs, hscalar⟩ ((hreps (h₁.sincere hs)).imp fun q r h => ?_)
    exact ⟨h₁.represents.mp h.1, h.2⟩

/-- What a function can be made for: a signature whose parts can be passed, in a context
that is alive and holds the cursor. -/
structure Creatable (e : Engine) (ctx : ContextId) (sig : TypeId) : Prop where
  signature : ∃ s, e.types.signature? sig = some s ∧
    (∃ r, e.Represents s.result r ∧ r.cls ≠ .struct) ∧
    ∀ p ∈ s.params, ∃ r, e.Represents p r ∧ r.isScalar = true
  live : ∃ c, e.context? ctx = some c ∧ c.destroyed = false
  building : e.building = ctx

/-- A function as it is made for a signature. -/
structure MadeFor (t : TypeTable) (ctx : ContextId) (sig : TypeId) (name : String) (fn : FuncId)
    (f : Func) : Prop where
  id : f.id = fn
  ctx : f.ctx = ctx
  name : f.name = if name = "" then defaultName fn else name
  values : ∃ s reps, t.signature? sig = some s ∧ reps.length = s.params.length ∧
    f.params.length = s.params.length ∧ f.values = #[ValueInfo.placeholder] ++
      ((s.params.zip reps).mapIdx fun i (p, r) =>
        ({ type := p, rep := r, origin := .param, param := i } : ValueInfo)).toArray
  sig : f.sig = sig
  blank : Blank f

theorem ends_createFunction_made (ctx : ContextId) (sig : TypeId) (name : String) (e : Engine) :
    Ends (createFunction ctx sig name) e
      (fun fn e' => e.Settled e' ∧
        ∃ f, MadeFor e.types ctx sig name fn f ∧ e'.findOpen fn = .ok f)
      fun _ _ => e.Sincere → ¬ Creatable e ctx sig := by
  refine .bind_get ?_
  cases hsig : e.types.signature? sig with
  | none =>
    refine .throw' fun _ hcreate => ?_
    obtain ⟨s, hs, -⟩ := hcreate.signature
    exact absurd (hsig.symm.trans hs) nofun
  | some s =>
    have hparts : ∀ {p : Prop}, (e.types.signature? sig = some s →
        (∃ r, e.Represents s.result r ∧ r.cls ≠ .struct) →
        (∀ p ∈ s.params, ∃ r, e.Represents p r ∧ r.isScalar = true) → p) →
        Creatable e ctx sig → p := by
      intro p hp hcreate
      obtain ⟨s', hs', hret, hall⟩ := hcreate.signature
      obtain rfl := Option.mem_unique hsig hs'
      exact hp hsig hret hall
    refine .bind' ((ends_repOf_settled s.result e).imp_stop ?_) ?_
    · exact fun _ _ hno hs => hparts fun _ ⟨r, hr, _⟩ _ => hno hs r hr
    rintro ret e₁ ⟨hstill₁, h₁, hret⟩
    refine .ite' (fun hcls => .bind_throw fun hs => hparts fun _ ⟨r, hr, hne⟩ _ => ?_) fun hcls => ?_
    · obtain rfl := Except.ok.inj ((hret hs).symm.trans hr)
      exact hne hcls
    refine .bind' ((ends_paramReps_settled 0 s.params e₁).imp_stop ?_) ?_
    · intro _ _ hstop hs
      refine hparts fun _ _ hall => ?_
      obtain ⟨p, hp, hno⟩ := hstop (h₁.sincere hs)
      obtain ⟨r, hr, hscalar⟩ := hall p hp
      exact Bool.false_ne_true ((hno r (h₁.represents.mpr hr)).symm.trans hscalar)
    rintro reps e₂ ⟨hlen, hstill₂, h₂, -⟩
    have hstill : e.Still e₂ := Trans.trans hstill₁ hstill₂
    have h₀₂ : e.Settled e₂ := h₁.trans h₂
    have hcontext : e₂.context? ctx = e.context? ctx := by
      unfold Engine.context?
      rw [hstill.2.1]
    refine .bind' ((ends_liveContext ctx e₂).imp_stop ?_) ?_
    · rintro _ _ ⟨-, hdead⟩ _ hcreate
      obtain ⟨c, hc, hlive⟩ := hcreate.live
      exact Bool.false_ne_true (hlive.symm.trans (hdead c (hcontext.trans hc)))
    rintro c _ ⟨rfl, -, -⟩
    refine .bind_get (.ite' (fun hne => .bind_throw fun _ hcreate => ?_) fun hb => .bind_get ?_)
    · exact hne (hstill.2.2.trans hcreate.building)
    extract_lets id name' params f
    refine .bind_modify (.bind_modify (.pure' ⟨?_, f, ?_, ?_⟩))
    · exact h₀₂.trans ⟨rfl, fun hs => hs⟩
    · have hnum : params.length = s.params.length := by
        simp [params, hlen]
      refine ⟨rfl, rfl, rfl, ⟨s, reps, hsig, hlen, ?_, rfl⟩, rfl, ⟨rfl, rfl, ?_, ?_⟩⟩
      · simp [f, hnum]
      · simp [f]
      · simp [f, Nat.add_comm]
    · refine findOpen_of ?_ rfl rfl (not_not.mp hb)
      simp [Engine.func?, id]

/-! ## Loading an image -/

/-- What an image must be to be loaded, once its types are. -/
structure Importable (img : Image) (ctx : ContextId) (e : Engine) (ids : Array TypeId) : Prop where
  sig : 0 < img.sig ∧ img.sig ≤ ids.size
  creatable : Creatable e ctx (img.sigType ids)
  fillable : ∀ fn f, MadeFor e.types ctx (img.sigType ids) img.name fn f →
    (img.params.getD []).length = f.params.length ∧
    f.values.size ≤ (img.values.getD []).length ∧ Fillable img e ids f

/-- An image that is loaded has its types loaded and fills the function that was made
for its signature. -/
theorem ends_importImage_filled (ctx : ContextId) (img : Image) {e : Engine}
    {ok : Array TypeId → Engine → Prop} {stop : Failure → Engine → Prop}
    (hload : Ends (loadTypes #[] (img.types.getD [])) e ok stop) :
    Ends (importImage ctx (some img)) e
      (fun fn e' => ∃ ids e₁ f₀ f, ok ids e₁ ∧ (0 < img.sig ∧ img.sig ≤ ids.size) ∧
        MadeFor e₁.types ctx (img.sigType ids) img.name fn f₀ ∧ img.Fills ids f₀ f ∧
        f₀.values.size ≤ (img.values.getD []).length ∧ e'.findFunc fn = .ok f ∧ e₁.Settled e')
      fun err e' => img.version ≠ Cause.currentImageVersion ∨ img.target ≠ e.target.triple ∨
        stop err e' ∨ ∃ ids e₁, ok ids e₁ ∧ (e₁.Sincere → ¬ Importable img ctx e₁ ids) := by
  refine .bind_get ?_
  refine .ite' (fun hv => .bind_throw (.inl hv)) fun _ => ?_
  refine .ite' (fun ht => .bind_throw (.inr (.inl ht))) fun _ => ?_
  refine .bind' (hload.imp_stop fun _ _ h => .inr (.inr (.inl h))) ?_
  intro ids e₁ hids
  have hstop : ∀ {err e'}, (e₁.Sincere → ¬ Importable img ctx e₁ ids) →
      img.version ≠ Cause.currentImageVersion ∨ img.target ≠ e.target.triple ∨
        stop err e' ∨ ∃ ids e₁, ok ids e₁ ∧ (e₁.Sincere → ¬ Importable img ctx e₁ ids) :=
    fun h => .inr (.inr (.inr ⟨ids, e₁, hids, h⟩))
  refine .ite' (fun hsig => .bind_throw (hstop fun _ himp => ?_)) fun hsig => ?_
  · have := himp.sig
    omega
  have hsig : 0 < img.sig ∧ img.sig ≤ ids.size := by omega
  refine .bind' ((ends_createFunction_made ctx (img.sigType ids) img.name e₁).imp_stop fun _ _ h => hstop fun hs himp => h hs himp.creatable) ?_
  rintro fn e₂ ⟨h₂, f₀, hmade, hopen⟩
  refine ends_answered hopen ?_
  refine .ite' (fun hcount => .bind_throw (hstop fun _ himp => ?_)) fun hcount => ?_
  · obtain ⟨hlen, hsize, -⟩ := himp.fillable fn f₀ hmade
    rcases hcount with hne | hlt
    · exact hne hlen
    · exact absurd hsize (Nat.not_le_of_lt hlt)
  rw [not_or, not_not, Nat.not_lt] at hcount
  refine (ends_fill hopen hmade.id hmade.blank hcount.1 hcount.2).mono ?_ fun _ _ h => hstop ?_
  · rintro _ e₃ ⟨rfl, ⟨f, hf, hfills⟩, h₃⟩
    refine ⟨ids, e₁, f₀, f, hids, hsig, hmade, hfills, hcount.2, ?_, h₂.trans h₃⟩
    simp [findFunc, hf, hfills.destroyed]
  · intro hs himp
    exact h (h₂.sincere hs) ((himp.fillable fn f₀ hmade).2.2.settled h₂)

end EngineM

end TypedIR
