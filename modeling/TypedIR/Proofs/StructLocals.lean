import TypedIR.Proofs.FieldOperations

/-
  Fields of a struct that a function declares.

  A function declares a local of a struct type, stores arguments in its fields, by index or
  by name and converted to the type of the field where it is another, and returns a field.
  Building goes through one operation after the other, and each store of a field changes
  what that field stands for and nothing else (`Workspace.Declares.ends_write`). So the
  function returns what was last stored in the field, or zero
  (`Workspace.Offers.fields_apart`).
-/

namespace TypedIR

open BuildM
open Machine (Minds)

def writeField (v : Val) : FieldRef → HostValue → BuildM Val
  | .index i, x => setField v i x
  | .named name, x => setFieldNamed v name x

/-- A function that declares a local of a struct type, stores parameters in fields of it, one
after the other, and returns a field. -/
def buildFields (b : BuildId) (params : List Ty) (ret t : Ty) (writes : List (FieldRef × Nat))
    (j : Nat) : BuildM FnId :=
  buildFunction b params ret (some fun fn => do
    let v ← declare fn t
    writes.forM fun (field, k) => do
      let _ ← writeField v field (.value (← arg fn k))
    BuildM.ret fn (.value (← field v j)))

/-- The last of the numbers that are stored in field `j`, zero if there is none. -/
def lastStored (j : Nat) (stores : List (Nat × Int)) : Int :=
  stores.foldl (fun last x => if x.1 = j then x.2 else last) 0

def storeAll (cells : List FieldCell) (stores : List (Nat × Int)) (vals : Nat → Int) : Nat → Int :=
  stores.foldl (fun vals x =>
    Function.update vals x.1 (Rep.wrap ((cells[x.1]?.map FieldCell.rep).getD .bool) x.2)) vals

/-- Which numbers are stored in which fields, if these are the numbers of the values. -/
def fieldStores (c : Setting) (t : Ty) (nums : ValueId → Option Int) (writes : List (FieldRef × Nat)) :
    List (Nat × Int) :=
  writes.map fun (field, k) => ((field.index? c t).getD 0, (nums (k + 1)).getD 0)

def argNumbers (reps : List Rep) (ns : List Int) : ValueId → Option Int
  | 0 => none
  | k + 1 => (List.zipWith Rep.wrap reps ns)[k]?

theorem of_argNumbers {reps : List Rep} {ns : List Int} {v : ValueId} {n : Int}
    (h : argNumbers reps ns v = some n) :
    ∃ k r a, v = k + 1 ∧ reps[k]? = some r ∧ ns[k]? = some a ∧ n = r.wrap a := by
  rcases v with _ | k
  · cases h
  · obtain ⟨r, a, hr, ha, rfl⟩ := List.getElem?_zipWith_eq_some.mp h
    exact ⟨k, r, a, rfl, hr, ha, rfl⟩

/-! ## A local of a struct type -/

theorem Val.Names.later {v : Val} {fn : FnId} {f f' : Func} {c c' : Setting} {t : Ty} {r : Rep}
    (h : v.Names fn f c t r) (hext : f.Extends f') (hg : c.Grows c') : v.Names fn f' c' t r :=
  ⟨h.eq, ⟨(h.carries.later hext).value, hg.target ▸ h.carries.rep.grow c.ordered hg.types⟩⟩

/-- The function has declared a local of a struct type, with the fields in these places. -/
structure Workspace.Declares (w : Workspace) (c : Setting) (limit : Int) (fn : FnId) (s : Function)
    (f : Func) (v : Val) (t : Ty) (fs : List Ty) (reps : List Rep) (cells : List FieldCell) :
    Prop where
  hosts : w.Hosts c limit fn s f
  isOpen : f.Open c
  regular : c.target.Regular
  fields : t.OfFields c s.runtime fs reps
  cells : c.cells fs reps = cells
  names : ∃ rs, v.Names fn f c t rs
  isLocal : ∃ info, f.value? v.id = some info ∧ info.origin ≠ .const
  param : ∀ {k : Nat} {tk rk}, s.params[k]? = some tk → s.paramReps[k]? = some rk →
    f.params[k]? = some (k + 1) ∧ f.Carries c (k + 1) tk.id rk ∧ tk.Whole c s.runtime rk

namespace Workspace.Declares

open Func (Furthers Takes Converted)

variable {w w' : Workspace} {c c' : Setting} {limit : Int} {fn : FnId} {s : Function} {f f' : Func}
  {v x : Val} {t tx : Ty} {fs : List Ty} {r : Rep} {reps : List Rep} {cells : List FieldCell}
  {i j k n : Nat} {y : FieldCell} {ptrSize : Int}

theorem later (h : w.Declares c limit fn s f v t fs reps cells) (hg : c.Grows c')
    (h' : w'.Hosts c' limit fn s f') (hf : f.Furthers v.id n f') :
    w'.Declares c' limit fn s f' v t fs reps cells where
  hosts := h'
  isOpen := ⟨(hf.isOpen h.isOpen).1, (hf.isOpen h.isOpen).2.trans hg.building.symm⟩
  regular := hg.target ▸ h.regular
  fields := h.fields.grow hg
  cells := (h.fields.cells_grow hg).trans h.cells
  names := h.names.imp fun _ hv => hv.later hf.old hg
  isLocal := by
    obtain ⟨info, hinfo, hlocal⟩ := h.isLocal
    obtain ⟨info', hinfo', hsame⟩ := hf.old.value hinfo
    exact ⟨info', hinfo', hsame.origin ▸ hlocal⟩
  param ht hr := by
    obtain ⟨hparam, hcarries, hwhole⟩ := h.param ht hr
    refine ⟨hf.old.header.params ▸ hparam, ?_, hwhole.grow hg⟩
    exact ⟨(hcarries.later hf.old).value, (hwhole.grow hg).rep⟩

theorem known (h : w.Declares c limit fn s f v t fs reps cells) : t.id < c.types.types.size := by
  obtain ⟨d, hd⟩ := h.fields.found
  exact (TypeTable.find?_lt hd).2

theorem isSome (h : w.Declares c limit fn s f v t fs reps cells) : (f.value? v.id).isSome := by
  obtain ⟨info, hinfo, -⟩ := h.isLocal
  rw [hinfo]
  rfl

theorem ends_address (h : w.Declares c limit fn s f v t fs reps cells) :
    Ends (address v) w (fun a w' => ∃ c' pt f', c.Grows c' ∧
      w'.Declares c' limit fn s f' v t fs reps cells ∧ a.Names fn f' c' pt c'.target.pointerRep ∧
      pt.owner = some s.runtime ∧ f.Furthers v.id 1 f' ∧ ∀ S, f.Stable S →
        f.Takes f' v.id S fun fr m => S fr m ∧ m.Reads a.id fr.base) fun _ _ => False := by
  obtain ⟨rs, hv⟩ := h.names
  obtain ⟨info, hinfo, hlocal⟩ := h.isLocal
  have hf := hv.carries.values_pos
  refine (h.hosts.ends_address h.isOpen hv hinfo hlocal h.known).imp ?_
  rintro a w' ⟨c', pt, f', hg, h', ha, howner, hid, rfl⟩
  have hfurthers : f.Furthers v.id 1 (f.addressed v.id pt.id c'.target.pointerRep) :=
    Furthers.addressed hf pt.id c'.usual.pointer_isWhole
  refine ⟨c', pt, _, hg, h.later hg h' hfurthers, ha, howner, hfurthers, fun S hS => ?_⟩
  rw [hid]
  exact Takes.addressed hf h.isSome hS

theorem ends_setField (h : w.Declares c limit fn s f v t fs reps cells) (hx : x.Names fn f c tx r)
    (htx : tx.Whole c s.runtime r) (hnumber : tx.kind = .primitive) (hy : cells[i]? = some y) :
    Ends (setField v i (.value x)) w (fun _ w' => ∃ c' f', c.Grows c' ∧
      w'.Declares c' limit fn s f' v t fs reps cells ∧ f.Furthers v.id 3 f' ∧
      ∀ size nums vals m, FieldCell.Fit size cells → f.Has v.id nums → nums x.id = some m →
        r.Holds m → f.Takes f' v.id (Minds ptrSize size cells nums vals)
          (Minds ptrSize size cells nums (Function.update vals i (y.rep.wrap m)))) fun _ _ => False := by
  obtain ⟨rs, hv⟩ := h.names
  have hy' : (c.cells fs reps)[i]? = some y := h.cells ▸ hy
  obtain ⟨ft, -, hft, hwhole, -⟩ := h.fields.cell h.regular hy'
  unfold setField
  rw [onValue_eq hv.fn_eq hv.carries.pos]
  refine .bind' (h.hosts.ends_fieldPlace? h.regular h.fields hv hft hy' _) ?_
  rintro _ w₁ ⟨rfl, h₁⟩
  dsimp only
  rw [operand?_eq hx.fn_eq hx.carries.pos, pure_bind]
  dsimp only
  refine .bind' (h₁.ends_fitted h.isOpen hx htx hnumber hwhole) ?_
  rintro o w₂ ⟨f₂, t₂, h₂, ho, hobtains⟩
  have hfitted := Furthers.of_lengthens hobtains.lengthens v.id
  have hd₂ : w₂.Declares c limit fn s f₂ v t fs reps cells :=
    h.later (.refl c) h₂ hfitted
  refine .ite' (fun _ => .bind' hd₂.ends_address ?_) fun hno => ?_
  · rintro a w₃ ⟨c₃, pt, f₃, hg, hd₃, ha, howner, haddress, hbase⟩
    have ho₃ := ho.later haddress.old hg
    refine .bind' (hd₃.hosts.ends_mstore hd₃.isOpen ha howner ho₃ y.offset) ?_
    rintro _ w₄ h₄
    have hstore := Furthers.push (f := f₃) (u := v.id) (i :=
      { op := .storeRel, a := a.id, b := o.id, offset := y.offset, type := t₂.id, rep := y.rep }) rfl
    refine .pure' ⟨c₃, _, hg, hd₃.later (.refl c₃) h₄ hstore,
      (hfitted.trans haddress).trans hstore, fun size nums vals m hfit hnums hm hheld => ?_⟩
    have hcode := hobtains.takes (S := Minds ptrSize size cells nums vals) hnums.stable h.isSome
      (w := fun _ => Word.ofInt (y.rep.wrap m)) fun fr m' hminds =>
        ⟨m, hheld, hminds.reads _ _ hm, rfl⟩
    have hstable : f₂.Stable fun fr m' => Minds ptrSize size cells nums vals fr m' ∧
        m'.Reads o.id (Word.ofInt (y.rep.wrap m)) :=
      (hnums.later hobtains.lengthens.old).stable.reads (Func.isSome_of_rep? ho.carries.rep?) _
    have hstored : f₃.Takes (f₃.push
        { op := .storeRel, a := a.id, b := o.id, offset := y.offset, type := t₂.id, rep := y.rep })
        v.id (fun fr m' => (Minds ptrSize size cells nums vals fr m' ∧
          m'.Reads o.id (Word.ofInt (y.rep.wrap m))) ∧ m'.Reads a.id fr.base)
        (Minds ptrSize size cells nums (Function.update vals i (y.rep.wrap m))) :=
      Takes.stored (hnums.later (hobtains.lengthens.old.trans haddress.old))
        (Func.isSome_of_rep? ha.carries.rep?) (Func.isSome_of_rep? ho₃.carries.rep?) hfit hy
        (hwhole.isWhole.holds_wrap m)
    exact ((hcode.trans (hbase _ hstable) hobtains.lengthens.old haddress.old).trans hstored
      (hobtains.lengthens.old.trans haddress.old) hstore.old)
  · exact absurd (Val.valid_of_pos ho.fn_eq ho.carries.pos) hno

variable (ptrSize) in
theorem ends_write (h : w.Declares c limit fn s f v t fs reps cells) {field : FieldRef}
    (hfield : field.index? c t = some i) (hy : cells[i]? = some y) (htx : s.params[k]? = some tx)
    (hr : s.paramReps[k]? = some r) (hnumber : tx.kind = .primitive) :
    Ends (do let _ ← writeField v field (.value (← arg fn k))) w (fun _ w' => ∃ c' f', c.Grows c' ∧
      w'.Declares c' limit fn s f' v t fs reps cells ∧ f.Furthers v.id 3 f' ∧
      ∀ size nums vals m, FieldCell.Fit size cells → f.Has v.id nums → nums (k + 1) = some m →
        r.Holds m → f.Takes f' v.id (Minds ptrSize size cells nums vals)
          (Minds ptrSize size cells nums (Function.update vals i (y.rep.wrap m)))) fun _ _ => False := by
  obtain ⟨rs, hv⟩ := h.names
  obtain ⟨hparam, hcarries, hwhole⟩ := h.param htx hr
  have hk := (List.getElem?_eq_some_iff.mp htx).1
  refine .bind' (h.hosts.ends_arg hk hparam hcarries hwhole) ?_
  rintro x w₁ ⟨h₁, hx, hid⟩
  rw [← hid]
  have hd₁ : w₁.Declares c limit fn s f v t fs reps cells := { h with hosts := h₁ }
  cases field with
  | index j =>
    obtain rfl := Option.some.inj hfield
    exact .bind' (hd₁.ends_setField hx hwhole hnumber hy) fun _ _ h => .pure' h
  | named name =>
    show Ends (setFieldNamed v name (.value x) >>= fun _ => pure ()) w₁ _ _
    unfold setFieldNamed
    rw [onValue_eq hv.fn_eq hv.carries.pos, bind_assoc]
    refine .bind' (h₁.ends_fieldIndex? h.fields hv hfield) ?_
    rintro _ _ ⟨rfl, rfl⟩
    exact .bind' (hd₁.ends_setField hx hwhole hnumber hy) fun _ _ h => .pure' h

def Writable (s : Function) (c : Setting) (t : Ty) (fs : List Ty) (x : FieldRef × Nat) : Prop :=
  (∃ i < fs.length, x.1.index? c t = some i) ∧ ∃ tx ∈ s.params[x.2]?, tx.kind = .primitive

variable (ptrSize) in
theorem ends_writes (h : w.Declares c limit fn s f v t fs reps cells)
    (hcells : cells.length = fs.length) (hreps : s.paramReps.length = s.params.length)
    {writes : List (FieldRef × Nat)} (hwrites : ∀ x ∈ writes, Writable s c t fs x) :
    Ends (writes.forM fun (field, k) => do let _ ← writeField v field (.value (← arg fn k))) w
      (fun _ w' => ∃ c' f', c.Grows c' ∧ w'.Declares c' limit fn s f' v t fs reps cells ∧
        f.Furthers v.id (3 * writes.length) f' ∧ ∀ size nums vals, FieldCell.Fit size cells →
          f.Has v.id nums → (∀ k r, s.paramReps[k]? = some r → ∃ m, nums (k + 1) = some m ∧ r.Holds m) →
          f.Takes f' v.id (Minds ptrSize size cells nums vals)
            (Minds ptrSize size cells nums (storeAll cells (fieldStores c t nums writes) vals)))
      fun _ _ => False := by
  induction writes generalizing w c f with
  | nil =>
    exact .pure' ⟨c, f, .refl c, h, .refl' f v.id, fun size nums vals _ _ _ => .refl' fun _ _ h => h⟩
  | cons x rest ih =>
    obtain ⟨⟨⟨i, hi, hfield⟩, tx, htx, hnumber⟩, hrest⟩ := List.forall_mem_cons.mp hwrites
    obtain ⟨field, k⟩ := x
    dsimp only at hfield htx
    have hk := (List.getElem?_eq_some_iff.mp htx).1
    have hr := List.getElem?_eq_getElem (hreps.symm ▸ hk : k < s.paramReps.length)
    have hy := List.getElem?_eq_getElem (hcells.symm ▸ hi : i < cells.length)
    rw [List.forM]
    refine .bind' (h.ends_write ptrSize hfield hy htx hr hnumber) ?_
    rintro _ w₁ ⟨c₁, f₁, hg₁, h₁, hf₁, htakes₁⟩
    refine (ih h₁ fun x hx => ?_).imp ?_
    · obtain ⟨⟨i, hi, hfield⟩, htx⟩ := hrest x hx
      exact ⟨⟨i, hi, (h.fields.index?_grow hg₁ x.1).trans hfield⟩, htx⟩
    · rintro _ w₂ ⟨c₂, f₂, hg₂, h₂, hf₂, htakes₂⟩
      refine ⟨c₂, f₂, hg₁.trans hg₂, h₂, ?_, fun size nums vals hfit hnums hall => ?_⟩
      · rw [List.length_cons, Nat.mul_succ, Nat.add_comm]
        exact hf₁.trans hf₂
      obtain ⟨m, hm, hheld⟩ := hall k _ hr
      have hfirst := htakes₁ size nums vals m hfit hnums hm hheld
      have hothers := htakes₂ size nums (Function.update vals i (cells[i].rep.wrap m)) hfit
        (hnums.later hf₁.old) hall
      have hsame : storeAll cells (fieldStores c t nums ((field, k) :: rest)) vals =
          storeAll cells (fieldStores c₁ t nums rest) (Function.update vals i (cells[i].rep.wrap m)) := by
        have hstores : fieldStores c₁ t nums rest = fieldStores c t nums rest := by
          unfold fieldStores
          simp only [h.fields.index?_grow hg₁]
        rw [hstores]
        unfold fieldStores storeAll
        rw [List.map_cons, List.foldl_cons]
        dsimp only
        rw [hfield, hm]
        simp only [Option.getD_some, hy, Option.map_some]
      rw [hsame]
      exact hfirst.trans hothers hf₁.old hf₂.old

variable (ptrSize) in
theorem ends_return (h : w.Declares c limit fn s f v t fs reps cells) (hy : cells[j]? = some y)
    (hret : f.ret = y.rep) {g : Signature} (hsig : c.types.signature? f.sig = some g)
    (hresult : c.types.HasRep c.target g.result f.ret) :
    Ends (do BuildM.ret fn (.value (← field v j))) w (fun _ w' => ∃ c' u f',
      w'.Hosts c' limit fn s (f'.push { op := .ret, a := u, rep := y.rep }) ∧ f'.Open c' ∧
        f.Furthers v.id 3 f' ∧ (f'.value? u).isSome ∧ ∀ size nums vals, FieldCell.Fit size cells →
          f.Has v.id nums → f.Takes f' v.id (Minds ptrSize size cells nums vals)
            fun _ m => m.Reads u (Word.ofInt (y.rep.wrap (vals j)))) fun _ _ => False := by
  obtain ⟨rs, hv⟩ := h.names
  have hy' : (c.cells fs reps)[j]? = some y := h.cells ▸ hy
  obtain ⟨ft, -, hft, hwhole, -⟩ := h.fields.cell h.regular hy'
  have hfield : Ends (field v j) w (fun u w' => ∃ c' a f₁ f₂, c.Grows c' ∧
      w'.Declares c' limit fn s f₂ v t fs reps cells ∧ u.Names fn f₂ c' ft y.rep ∧
      f.Furthers v.id 1 f₁ ∧ f₁.Furthers v.id 1 f₂ ∧ (f₂.value? a).isSome ∧
      ∀ size nums vals, FieldCell.Fit size cells → f.Has v.id nums →
        f.Takes f₂ v.id (Minds ptrSize size cells nums vals) fun fr m =>
          (Minds ptrSize size cells nums vals fr m ∧ m.Reads a fr.base) ∧
            m.Reads u.id (Word.ofInt (vals j))) fun _ _ => False := by
    unfold field
    rw [onValue_eq hv.fn_eq hv.carries.pos]
    refine .bind' (h.hosts.ends_fieldPlace? h.regular h.fields hv hft hy' _) ?_
    rintro _ w₁ ⟨rfl, h₁⟩
    have hd₁ : w₁.Declares c limit fn s f v t fs reps cells := { h with hosts := h₁ }
    refine .bind' hd₁.ends_address ?_
    rintro a w₂ ⟨c₂, pt, f₂, hg, hd₂, ha, howner, haddress, hbase⟩
    refine (hd₂.hosts.ends_mload hd₂.isOpen ha (hwhole.grow hg) y.offset).imp ?_
    rintro u w₃ ⟨f₃, h₃, hu, hid, rfl⟩
    have hpos := ha.carries.values_pos
    have hload : f₂.Furthers v.id 1
        ((f₂.addValue { type := ft.id, rep := y.rep, origin := .temp }).2.push
          { op := .loadRel, dest := f₂.values.size, a := a.id, offset := y.offset, type := ft.id,
            rep := y.rep }) :=
      .of_lengthens (.computed hpos rfl (hwhole.isWhole.needsSlot rfl rfl)) v.id
    have hasome := Func.isSome_of_rep? ha.carries.rep?
    refine ⟨c₂, a.id, f₂, _, hg, hd₂.later (.refl c₂) h₃ hload, hu, haddress, hload,
      hload.old.isSome_value? hasome, fun size nums vals hfit hnums => ?_⟩
    rw [hid]
    exact (hbase _ hnums.stable).trans
      (Takes.loaded hpos hd₂.isSome (hnums.later haddress.old) hasome hfit hy) haddress.old hload.old
  refine .bind' hfield ?_
  rintro u w₁ ⟨c₁, a, f₁, f₂, hg, h₁, hu, haddress, hload, ha, htakes⟩
  have hold := haddress.trans hload
  have hret' : f₂.ret = y.rep := hold.old.header.ret.trans hret
  have hsig' : c₁.types.signature? f₂.sig = some g := hold.old.header.sig ▸ hg.types.signature? hsig
  have hresult' : c₁.types.HasRep c₁.target g.result f₂.ret := by
    rw [hret', ← hret, hg.target]
    exact hresult.grow c.ordered hg.types
  refine (h₁.hosts.ends_ret h₁.isOpen hu hwhole.isWhole (hret' ▸ hwhole.isWhole) hsig'
    hresult').imp ?_
  rintro _ w₂ ⟨d, f₃, type, h₂, hobtains⟩
  rw [hret'] at h₂ hobtains
  have hlast := Furthers.of_lengthens hobtains.lengthens v.id
  refine ⟨c₁, d, f₃, h₂, hlast.isOpen h₁.isOpen, hold.trans hlast,
    Func.isSome_of_rep? hobtains.carries.rep?, fun size nums vals hfit hnums => ?_⟩
  have hstable : f₂.Stable fun fr m => (Minds ptrSize size cells nums vals fr m ∧
      m.Reads a fr.base) ∧ m.Reads u.id (Word.ofInt (vals j)) :=
    ((hnums.later hold.old).stable.reads ha _).reads (Func.isSome_of_rep? hu.carries.rep?) _
  have hcode := hobtains.takes hstable h₁.isSome (w := fun _ => Word.ofInt (y.rep.wrap (vals j)))
    fun fr m hm => ⟨vals j, hm.1.1.record.held hy, hm.2, rfl⟩
  exact ((htakes size nums vals hfit hnums).trans hcode hold.old hlast.old).mono fun _ _ hm => hm.2

end Workspace.Declares

/-! ## Calls -/

/-- A field stands for the number that was last stored in it, as its type holds it. -/
theorem storeAll_apply {cells : List FieldCell} {j : Nat} {y : FieldCell} (hy : cells[j]? = some y)
    {stores : List (Nat × Int)} {vals : Nat → Int} {last : Int} (h : vals j = y.rep.wrap last) :
    storeAll cells stores vals j =
      y.rep.wrap (stores.foldl (fun last x => if x.1 = j then x.2 else last) last) := by
  induction stores generalizing vals last with
  | nil => exact h
  | cons x rest ih =>
    refine ih ?_
    dsimp only
    by_cases hx : x.1 = j
    · rw [if_pos hx, ← hx, Function.update_self, hx, hy]
      rfl
    · rw [if_neg hx, Function.update_of_ne (Ne.symm hx), h]

namespace Func

variable {id : FuncId} {ctx : ContextId} {name : String} {sig type : TypeId} {want : Rep}
  {params : List (TypeId × Rep)} {size : Int}

theorem houses_declared (hparams : ∀ p ∈ params, p.2.IsWhole) :
    ((fresh id ctx name sig want params).declared type { cls := .struct, size }).Houses
      (params.length + 1) size := by
  have hsize : (fresh id ctx name sig want params).values.size = params.length + 1 := by
    simp [fresh]
  have hvalue : ∀ v, ((fresh id ctx name sig want params).declared type
      { cls := .struct, size }).value? v = if v = (fresh id ctx name sig want params).values.size
        then some { type, rep := { cls := .struct, size }, origin := .local }
        else (fresh id ctx name sig want params).value? v :=
    value?_addValue (hsize ▸ Nat.succ_pos _)
  rw [hsize] at hvalue
  refine ⟨⟨_, (hvalue _).trans (if_pos rfl), rfl, rfl⟩, fun {v info} hv hne => ?_⟩
  obtain ⟨i, p, -, hp, rfl⟩ := of_value?_fresh (((hvalue v).trans (if_neg hne)).symm.trans hv)
  exact (hparams p (List.mem_of_getElem? hp)).needsSlot rfl rfl

theorem Takes.ends_apply {e : Engine} {limit : Int} {f' g : Func} {i : Insn} {n : Nat} {m ptrSize : Int}
    {cells : List FieldCell} {reps : List Rep} {ns : List Int} {u : ValueId}
    (h : ((fresh id ctx name sig want params).declared type { cls := .struct, size }).Takes f' u
      (Minds ptrSize size.toNat cells (argNumbers reps ns) fun _ => 0)
      fun _ m' => m'.Reads i.a (Word.ofInt m))
    (hf : ((fresh id ctx name sig want params).declared type { cls := .struct, size }).Furthers u n f')
    (hu : u = params.length + 1) (hi : i.op = .ret) (ha : (f'.value? i.a).isSome)
    (hreps : params.map (·.2) = reps) (hwhole : ∀ r ∈ reps, r.IsWhole) (hpos : 0 < size)
    (hlt : size < 0x8000000000000000) (hfit : FieldCell.Fit size.toNat cells)
    (hg : (f'.push i).Framed g) (he : e.Ready limit id g) (hs : e.host.memory.Serves ptrSize)
    (hlen : ns.length = params.length) :
    Ends (RunM.apply id (ns.map Word.ofInt)) e (fun bits _ => bits = Word.ofInt m) fun halt _ =>
      halt.GivesUp limit runFuel (n + 1) ∨ ∀ base mem,
        ((Memory.alloc size).run e.host.memory : Except (Halt Fault) Word × Memory) ≠
          (.ok base, mem) := by
  subst hu hreps
  have hparams : ∀ p ∈ params, p.2.IsWhole := fun p hp => hwhole _ (List.mem_map_of_mem hp)
  have hhouses := hf.houses (houses_declared hparams)
  obtain ⟨hbox, hsize⟩ := Framed.boxes (f := f'.push i) hg ⟨hhouses.value, hhouses.other⟩ hpos hlt
  have hlater : f'.Extends g := (extends_push i).trans hg.old
  have hext : (fresh id ctx name sig want params).Extends g :=
    (extends_addValue (by simp [fresh])).trans (hf.old.trans hlater)
  have hregistered : g.Registered g.params :=
    registered_fresh hext fun v info hv hle => hbox.other hv (Nat.ne_of_lt (Nat.lt_succ_of_le hle))
  have hgparams : g.params = (List.range params.length).map (· + 1) := hext.header.params
  have hreserves : ∀ base mem, g.Reserves e.host.memory base mem ↔
      ((Memory.alloc size).run e.host.memory : Except (Halt Fault) Word × Memory) =
        (.ok base, mem) := by
    intro base mem
    unfold Reserves
    rw [hsize, if_pos hpos]
  refine (Func.ends_apply (n := n) (w := Word.ofInt m) he.func hg.compiled he.depth hregistered
    (by simp [hgparams, hlen]) fun base mem m' hframe hin hhost hpasses _ => ?_).imp_stop ?_
  · rw [hreserves, ← Int.toNat_of_nonneg (Int.le_of_lt hpos)] at hframe
    obtain ⟨hrecord, hserves⟩ := Memory.record_alloc hs hfit hframe
    have hreads : ∀ v k, argNumbers (params.map (·.2)) ns v = some k → m'.Reads v (Word.ofInt k) := by
      intro v number hnumber
      obtain ⟨k, r, a, rfl, hr, ha, rfl⟩ := of_argNumbers hnumber
      rw [List.getElem?_map, Option.map_eq_some_iff] at hr
      obtain ⟨p, hp, rfl⟩ := hr
      obtain ⟨hk, hget⟩ := List.getElem?_eq_some_iff.mp ha
      obtain ⟨info, hv, hsame⟩ := hext.value ((value?_fresh k).trans (congrArg _ hp))
      have hwhole := hparams p (List.mem_of_getElem? hp)
      have hpass := List.Forall₂.get hpasses (i := k) (by simp [hgparams, ← hlen, hk]) (by simpa using hk)
      simp only [hgparams, List.get_eq_getElem, List.getElem_map, List.getElem_range, hget] at hpass
      have hread := hpass info hv
      rwa [hsame.rep, hwhole.normalize_ofInt] at hread
    have hminds : Minds ptrSize size.toNat cells (argNumbers (params.map (·.2)) ns) (fun _ => 0)
        (.first g base) m' := ⟨by rw [hhost]; exact hrecord, by rw [hhost]; exact hserves, hreads⟩
    have hcode := h (e := e) hlater hbox hin hminds
    have hat : g.insns[f'.insns.size]? = some i := by
      rw [hg.insns]
      simp [Func.push]
    refine (hcode.mono fun m'' hm'' => ?_).within (Nat.sub_le_of_le_add ?_)
    · exact hm''.1.ends_ret hat hi (hlater.isSome_value? ha) hm''.2
    · exact Nat.add_comm .. ▸ hf.size
  · rintro halt _ (hgives | hno)
    · exact .inl (he.limit ▸ hgives)
    · exact .inr fun base mem hframe => hno base mem ((hreserves base mem).mpr hframe)

end Func

namespace Workspace.Declares

variable {w : Workspace} {c : Setting} {limit : Int} {fn : FnId} {s : Function} {f : Func} {v : Val}
  {rt : RuntimeId} {t ret : Ty} {fs params : List Ty} {reps paramReps : List Rep}
  {cells : List FieldCell} {name : String} {sig : TypeId} {want : Rep}

theorem ends_declare (h : w.Hosts c limit fn s (.fresh s.id c.building name sig want
      ((params.map (·.id)).zip paramReps)))
    (hfresh : s.Fresh rt params paramReps ret want)
    (hparams : List.Forall₂ (Ty.Whole c rt) params paramReps) (hregular : c.target.Regular)
    (ht : t.OfFields c rt fs reps) (hne : fs ≠ []) :
    Ends (declare fn t) w (fun v w' => v.id = params.length + 1 ∧
      w'.Declares c limit fn s ((Func.fresh s.id c.building name sig want
        ((params.map (·.id)).zip paramReps)).declared t.id
          { cls := .struct, size := (c.fieldSpace fs).size }) v t fs reps (c.cells fs reps))
      fun _ _ => False := by
  obtain rfl := hfresh.runtime
  have hpos : 0 < (Func.fresh s.id c.building name sig want
      ((params.map (·.id)).zip paramReps)).values.size := by simp [Func.fresh]
  refine (h.ends_declare ⟨rfl, rfl⟩ hpos ht.wrap? ht.valid (ht.hasRep hregular hne) (by simp)).imp ?_
  rintro v w' ⟨_, h', hv, hid, rfl⟩
  refine ⟨by simp [hid, Func.fresh, hparams.length_eq], {
    hosts := h'
    isOpen := ⟨rfl, rfl⟩
    regular := hregular
    fields := ht
    cells := rfl
    names := ⟨_, hv⟩
    isLocal := by
      rw [hid]
      exact ⟨_, (Func.value?_addValue hpos _).trans (if_pos rfl), by simp⟩
    param := ?_ }⟩
  intro k tk rk htk hrk
  rw [hfresh.params] at htk
  rw [hfresh.paramReps] at hrk
  obtain ⟨hk, rfl⟩ := List.getElem?_eq_some_iff.mp htk
  obtain ⟨hk', rfl⟩ := List.getElem?_eq_some_iff.mp hrk
  have hget : ((params.map (·.id)).zip paramReps)[k]? = some (params[k].id, paramReps[k]) := by
    simp [hk, hk']
  have hvalue : (Func.fresh s.id c.building name sig want
      ((params.map (·.id)).zip paramReps)).value? (k + 1) =
        some { type := params[k].id, rep := paramReps[k], origin := .param, param := k } := by
    rw [Func.value?_fresh, hget]
    rfl
  have hwhole := hparams.get hk hk'
  refine ⟨?_, Func.Carries.later ⟨⟨_, hvalue, rfl, rfl⟩, hwhole.rep⟩ (Func.extends_addValue hpos),
    hwhole⟩
  show ((List.range _).map (· + 1))[k]? = _
  simp [hk, hk']

theorem has_arguments (h : w.Declares c limit fn s f v t fs reps cells)
    (hv : v.id = s.params.length + 1) (hlen : s.params.length = s.paramReps.length) (ns : List Int) :
    f.Has v.id (argNumbers s.paramReps ns) := by
  intro u n hn
  obtain ⟨k, r, a, rfl, hr, -, rfl⟩ := of_argNumbers hn
  have hk : k < s.params.length := hlen ▸ (List.getElem?_eq_some_iff.mp hr).1
  obtain ⟨-, hcarries, hwhole⟩ := h.param (List.getElem?_eq_getElem hk) hr
  refine ⟨?_, r, hcarries.rep?, hwhole.isWhole, hwhole.isWhole.holds_wrap a⟩
  rw [hv]
  exact Nat.ne_of_lt (Nat.succ_lt_succ hk)

theorem holds_arguments (h : w.Declares c limit fn s f v t fs reps cells)
    (hlen : s.params.length = s.paramReps.length) {ns : List Int} (hns : ns.length = s.params.length)
    {k : Nat} {r : Rep} (hr : s.paramReps[k]? = some r) :
    ∃ m, argNumbers s.paramReps ns (k + 1) = some m ∧ r.Holds m := by
  have hk : k < s.params.length := hlen ▸ (List.getElem?_eq_some_iff.mp hr).1
  obtain ⟨-, -, hwhole⟩ := h.param (List.getElem?_eq_getElem hk) hr
  have hget := List.getElem?_eq_getElem (hns.symm ▸ hk : k < ns.length)
  exact ⟨_, List.getElem?_zipWith_eq_some.mpr ⟨r, _, hr, hget, rfl⟩, hwhole.isWhole.holds_wrap _⟩

end Workspace.Declares

/-- A function that stores numbers in the fields of a struct of its own returns the number
that was last stored in a field, or zero, as the type of the field holds it: fields do not
notice each other. Only a step limit, or that no frame can be had, can be in the way. -/
theorem Workspace.Offers.fields_apart {w : Workspace} {b : BuildId} {home : CtxId} {rt : RuntimeId}
    {c : Setting} {limit : Int} (h : w.Offers b home rt c.building (·.Awaits c limit))
    (hregular : c.target.Regular) {params fs : List Ty} {paramReps reps : List Rep}
    (hparams : List.Forall₂ (fun p r => p.Whole c rt r ∧ p.kind = .primitive) params paramReps)
    {t ret : Ty} (ht : t.OfFields c rt fs reps) {j : Nat} {want : Rep} (hret : fs[j]? = some ret)
    (hwant : reps[j]? = some want) {writes : List (FieldRef × Nat)}
    (hwrites : ∀ x ∈ writes, (∃ i < fs.length, x.1.index? c t = some i) ∧ x.2 < params.length) :
    Ends (buildFields b params ret t writes j) w (fun fn w' => ∃ s g,
      w'.Place fn s (·.Ready limit s.id g) ∧ ∀ (e : Engine) ns, e.Ready limit s.id g →
        e.host.memory.Serves c.target.ptrSize → ns.length = params.length →
          Ends (RunM.apply s.id (ns.map Word.ofInt)) e (fun bits _ => bits = Word.ofInt (want.wrap
            (lastStored j (fieldStores c t (argNumbers paramReps ns) writes))))
          fun halt _ => halt.GivesUp limit runFuel (3 * writes.length + 4) ∨ ∀ base mem,
            ((Memory.alloc (c.fieldSpace fs).size).run e.host.memory :
              Except (Halt Fault) Word × Memory) ≠ (.ok base, mem)) fun _ _ => False := by
  have hwholes : List.Forall₂ (Ty.Whole c rt) params paramReps := hparams.imp fun _ _ h => h.1
  have hne : fs ≠ [] := List.ne_nil_of_mem (List.mem_of_getElem? hret)
  have hfield : ret.Whole c rt want := by
    obtain ⟨r, hr, hwhole⟩ := ht.field hret
    obtain rfl := Option.mem_unique hwant hr
    exact hwhole
  show Ends (startFunction b params ret >>= fun fn => (declare fn t >>= fun v =>
    (writes.forM fun (field, k) => do let _ ← writeField v field (.value (← arg fn k))) >>= fun _ =>
      field v j >>= fun x => BuildM.ret fn (.value x)) >>= fun _ =>
        compile fn >>= fun _ => pure fn) w _ _
  refine .bind' (h.ends_startFunction hwholes hfield) ?_
  rintro fn w₁ ⟨s, c', name, sig, abi, hgrows, hfresh, hsig, h₁⟩
  have hwholes' : List.Forall₂ (Ty.Whole c' rt) params paramReps :=
    hwholes.imp fun _ _ h => h.grow hgrows
  have ht' := ht.grow hgrows
  have hregular' : c'.target.Regular := hgrows.target ▸ hregular
  have hlen : s.params.length = s.paramReps.length := by
    rw [hfresh.params, hfresh.paramReps, hwholes.length_eq]
  rw [bind_assoc]
  refine .bind' (Workspace.Declares.ends_declare h₁ hfresh hwholes' hregular' ht' hne) ?_
  rintro v w₂ ⟨hid, hd⟩
  have hwrites' : ∀ x ∈ writes, Workspace.Declares.Writable s c' t fs x := by
    intro x hx
    obtain ⟨⟨i, hi, hindex⟩, hk⟩ := hwrites x hx
    refine ⟨⟨i, hi, (ht.index?_grow hgrows x.1).trans hindex⟩, params[x.2], ?_,
      (hparams.get hk (hparams.length_eq ▸ hk)).2⟩
    rw [hfresh.params]
    exact List.getElem?_eq_getElem hk
  obtain ⟨y, hy, rfl⟩ := ht'.cell_of_rep hwant
  rw [bind_assoc]
  refine .bind' (hd.ends_writes c.target.ptrSize ht'.length_cells hlen.symm hwrites') ?_
  rintro _ w₃ ⟨c₃, f₃, hgrows₃, hd₃, hf₃, htakes₃⟩
  have hresult : c₃.types.HasRep c₃.target ret.id f₃.ret := by
    rw [hf₃.old.header.ret]
    exact ((hfield.grow hgrows).grow hgrows₃).rep
  have hsig₃ := hgrows₃.types.signature? hsig
  rw [show sig = f₃.sig from hf₃.old.header.sig.symm] at hsig₃
  refine .bind' (hd₃.ends_return c.target.ptrSize hy hf₃.old.header.ret hsig₃ hresult) ?_
  rintro _ w₄ ⟨c₄, u, f₄, h₄, hopen₄, hf₄, hu, htakes₄⟩
  have hstraight := hf₄.straight (hf₃.straight fun i hi => absurd hi (Array.not_mem_empty i))
  refine .bind' (h₄.ends_compile hopen₄ hstraight rfl hfresh.problem hfresh.compiled) ?_
  rintro _ w₅ ⟨g, hframed, h₅⟩
  refine .pure' ⟨s.finished, g, h₅, fun e ns he hserves hargs => ?_⟩
  have hfit := ht'.fit hregular'
  have hns : ns.length = s.params.length := by rw [hargs, hfresh.params]
  have hnums := hd.has_arguments (hfresh.params ▸ hid) hlen ns
  have hcode := (htakes₃ _ _ (fun _ => 0) hfit hnums fun _ _ => hd.holds_arguments hlen hns).trans
    (htakes₄ _ _ _ hfit (hnums.later hf₃.old)) hf₃.old hf₄.old
  have hzero := hfield.isWhole.wrap_eq hfield.isWhole.holds_zero
  have hbits : storeAll (c'.cells fs reps) (fieldStores c' t (argNumbers s.paramReps ns) writes)
      (fun _ => 0) j = y.rep.wrap (lastStored j (fieldStores c' t (argNumbers s.paramReps ns) writes)) :=
    storeAll_apply hy hzero.symm
  have hstores : fieldStores c' t (argNumbers s.paramReps ns) writes =
      fieldStores c t (argNumbers paramReps ns) writes := by
    unfold fieldStores
    rw [hfresh.paramReps]
    simp only [ht.index?_grow hgrows]
  have hreps : ∀ r ∈ s.paramReps, r.IsWhole := by
    intro r hr
    obtain ⟨k, hk, rfl⟩ := List.getElem_of_mem (hfresh.paramReps ▸ hr)
    exact (hwholes.get (hwholes.length_eq ▸ hk) hk).isWhole
  refine (hcode.ends_apply (hf₃.trans hf₄) (by simpa [hwholes.length_eq] using hid) rfl hu
    (by rw [hfresh.paramReps, List.map_snd_zip (by simp [hwholes.length_eq])]) hreps
    (ht'.size_pos hregular' hne) ht'.size hfit hframed he hserves
    (by simpa [hwholes.length_eq] using hargs)).mono ?_ ?_
  · rintro bits _ rfl
    rw [hbits, hfield.isWhole.wrap_eq (hfield.isWhole.holds_wrap _), hstores]
  · rintro halt _ (hgives | hno)
    · exact .inl hgives
    · exact .inr (ht.fieldSpace_grow hgrows ▸ hno)

/-! ## A struct of a byte and 16 bits -/

def structBuilding : Workspace :=
  (({} : Workspace).after (newRuntime {})).after (structTy 0 [Builtin.int8.ty 0, Builtin.uint16.ty 0])
    |>.after (newContext 0 "c") |>.after (buildStart 0)

def pairTy : Ty := ⟨some 0, buildingTypes.types.size, .struct⟩

def structSetting : Setting where
  target := .amd64
  types := (buildingTypes.addStruct [Builtin.int8.id, Builtin.uint16.id]).2
  building := 1
  usual := usual_amd64
  ordered := (ordered_buildingTypes.makes_addStruct fun p hp => by
    have hknown := fun b : Builtin =>
      (Builtin.hasRep ordered_buildingTypes b : buildingTypes.HasRep .amd64 b.id _).known
    rcases List.mem_pair.mp hp with rfl | rfl
    · exact hknown .int8
    · exact hknown .uint16).ordered

theorem structBuilding_offers :
    structBuilding.Offers 0 0 0 structSetting.building (·.Awaits structSetting 0) := by
  have hlt : pairTy.id < structSetting.types.size := by decide +kernel
  have hlayouts : Layout.Honest .amd64 structSetting.types True ((Layout.layoutWithin .amd64
      structSetting.types (structSetting.types.size + 1) pairTy.id).run []).2 :=
    (Layout.layoutWithin_right structSetting.ordered (structSetting.types.size + 1)
      Layout.honest_nil fun _ => ⟨hlt, Nat.lt_succ_of_lt hlt⟩).2
  exact Workspace.offers_of_state (by decide +kernel) hlayouts

theorem pairTy_space : structSetting.types.tyKind? pairTy.id = some .struct ∧
    (structSetting.types.fieldsOf (structSetting.types.underlying pairTy.id)).map (·.type) =
      [Builtin.int8.id, Builtin.uint16.id] ∧
    (structSetting.fieldSpace [Builtin.int8.ty 0, Builtin.uint16.ty 0]).size = 4 := by decide +kernel

theorem pairTy_ofFields : pairTy.OfFields structSetting 0 [Builtin.int8.ty 0, Builtin.uint16.ty 0]
    [Builtin.int8.rep .amd64, Builtin.uint16.rep .amd64] where
  owner := rfl
  kind := rfl
  known := pairTy_space.1
  fields := pairTy_space.2.1
  whole := .cons (Builtin.whole structSetting 0 (.inl rfl) nofun)
    (.cons (Builtin.whole structSetting 0 (.inr rfl) nofun) .nil)
  size := by
    rw [pairTy_space.2.2]
    decide

/-- The second field gives what was stored in it, as 16 bits, and not what was stored in the
first one. -/
theorem pair_apart :
    structBuilding.Offers 0 0 0 structSetting.building (·.Awaits structSetting 0) ∧
      structSetting.target.Regular ∧
      List.Forall₂ (fun p r => p.Whole structSetting 0 r ∧ p.kind = .primitive)
        [Builtin.int64.ty 0] [Builtin.int64.rep .amd64] ∧
      pairTy.OfFields structSetting 0 [Builtin.int8.ty 0, Builtin.uint16.ty 0]
        [Builtin.int8.rep .amd64, Builtin.uint16.rep .amd64] ∧
      (∀ x ∈ [(FieldRef.index 1, 0), (.index 0, 0)],
        (∃ i < 2, x.1.index? structSetting pairTy = some i) ∧ x.2 < 1) ∧
      Ends (buildFields 0 [Builtin.int64.ty 0] (Builtin.uint16.ty 0) pairTy
        [(.index 1, 0), (.index 0, 0)] 1) structBuilding (fun fn w' => ∃ s g,
          w'.Place fn s (·.Ready 0 s.id g) ∧ ∀ e : Engine, e.Ready 0 s.id g →
            e.host.memory.Serves 8 → Ends (RunM.apply s.id [Word.ofInt 70000]) e
              (fun bits _ => bits = 4464) fun _ _ => ∀ base mem,
                ((Memory.alloc 4).run e.host.memory : Except (Halt Fault) Word × Memory) ≠
                  (.ok base, mem)) fun _ _ => False := by
  have hlong : (Builtin.int64.ty 0).Whole structSetting 0 (Builtin.int64.rep .amd64) :=
    Builtin.whole structSetting 0 (.inl rfl) nofun
  have hregular : structSetting.target.Regular := ⟨by decide, 3, rfl⟩
  have hparams : List.Forall₂ (fun p r => Ty.Whole structSetting 0 p r ∧ p.kind = .primitive)
      [Builtin.int64.ty 0] [Builtin.int64.rep .amd64] := .cons ⟨hlong, rfl⟩ .nil
  have hwrites : ∀ x ∈ [(FieldRef.index 1, 0), (.index 0, 0)],
      (∃ i < 2, x.1.index? structSetting pairTy = some i) ∧ x.2 < 1 := by
    rintro x hx
    rcases List.mem_pair.mp hx with rfl | rfl
    · exact ⟨⟨1, by decide, rfl⟩, Nat.one_pos⟩
    · exact ⟨⟨0, by decide, rfl⟩, Nat.one_pos⟩
  refine ⟨structBuilding_offers, hregular, hparams, pairTy_ofFields, hwrites, ?_⟩
  refine (structBuilding_offers.fields_apart hregular hparams pairTy_ofFields (j := 1) rfl rfl
    hwrites).imp ?_
  rintro fn w' ⟨s, g, hplace, hcall⟩
  refine ⟨s, g, hplace, fun e he hserves => (hcall e [70000] he hserves rfl).mono ?_ ?_⟩
  · rintro bits _ rfl
    decide +kernel
  · rintro halt _ (hgives | hno)
    · cases halt with
      | failed err => exact absurd hgives.1 (by decide)
      | crashed => exact absurd hgives (Nat.not_lt.mpr (by decide))
    · rwa [pairTy_space.2.2] at hno

/-- A byte in a struct, by code whose address type was asked about before it was made. -/
def earlyFields : BuildM FnId := do
  let rt ← newRuntime {}
  let _ ← tryEngine rt (EngineM.layoutOf 34)
  let t ← structTy rt [Builtin.int8.ty rt]
  let b ← buildStart (← newContext rt "c")
  buildFields b [Builtin.int8.ty rt] (Builtin.int8.ty rt) t [(.index 0, 0)] 0

/-- A struct type of one byte that has a layout lets no function through that would give 5
back, if the type of its addresses was asked about too early. -/
theorem early_address_refuses : ∃ w f r,
    ((do call (← earlyFields) [.int .int8 5]).run {} : Except Stop HostValue × Workspace) =
        (.error (.problem (.engine "address" f)), w) ∧
      f.cause = .layout (.unknownType 34) ∧ w.runtimes[(0 : Nat)]? = some r ∧ r.engine.target = .amd64 ∧
      r.engine.types.tyKind? 32 = some .struct ∧
      (r.engine.types.fieldsOf 32).map (·.type) = [Builtin.int8.id] ∧
      Layout.plainPart .amd64 r.engine.types 32 = some { size := 1, align := 1, offsets := [0], aligns := [1] } ∧
      (Builtin.int8.rep .amd64).wrap (lastStored 0 [(0, 5)]) = 5 := by
  have hcheck : (earlyFields.run {} : Except Stop FnId × Workspace).1 =
      .error (.problem (.engine "address" { cause := .layout (.unknownType 34) })) ∧
      ∃ r ∈ (earlyFields.run {} : Except Stop FnId × Workspace).2.runtimes[(0 : Nat)]?,
        r.engine.target = .amd64 ∧ r.engine.types.tyKind? 32 = some .struct ∧
        (r.engine.types.fieldsOf 32).map (·.type) = [Builtin.int8.id] ∧
        Layout.plainPart .amd64 r.engine.types 32 =
          some { size := 1, align := 1, offsets := [0], aligns := [1] } := by decide +kernel
  obtain ⟨hanswer, r, hr, htarget, hkind, hfields, hlayout⟩ := hcheck
  have hrun : (earlyFields.run {} : Except Stop FnId × Workspace) =
      (.error (.problem (.engine "address" { cause := .layout (.unknownType 34) })),
        ({} : Workspace).after earlyFields) := Workspace.run_after hanswer
  exact ⟨_, _, r, by rw [run_bind, hrun], rfl, hr, htarget, hkind, hfields, hlayout, by decide +kernel⟩

end TypedIR
