import TypedIR.Proofs.FieldCode

/-
  What the builder emits for a field of a struct.

  Types of structs stay what they are while types are made (`Ty.OfFields.grow`). An engine
  that hosts a function knows type and offset of each field, and the operations of the
  builder that a field takes are spelled out: the address of a local, loads and stores
  at an offset, and a number converted to the type of the field
  (`Workspace.Hosts.ends_fitted`).
-/

namespace TypedIR

open BuildM

/-- A field of a struct, by its index or by its name. -/
inductive FieldRef
  | index (i : Nat)
  | named (name : String)
  deriving DecidableEq

def FieldRef.index? (c : Setting) (t : Ty) : FieldRef → Option Nat
  | .index i => some i
  | .named name => c.types.findField? (c.types.underlying t.id) name

/-! ## Struct types while types are made -/

namespace Ty.OfFields

variable {c c' : Setting} {rt : RuntimeId} {t : Ty} {fs : List Ty} {reps : List Rep}

theorem found (h : t.OfFields c rt fs reps) : ∃ d, c.types.find? t.id = some d := by
  obtain ⟨d, hd, -⟩ := h.descriptor
  exact TypeTable.known_of_underlying hd

theorem fieldSpace_grow (h : t.OfFields c rt fs reps) (hg : c.Grows c') :
    c'.fieldSpace fs = c.fieldSpace fs := by
  have hsame : (fs.map (·.id)).map (Layout.known c'.target c'.types) =
      (fs.map (·.id)).map (Layout.known c.target c.types) := by
    refine List.map_congr_left fun id hid => ?_
    obtain ⟨f, hf, rfl⟩ := List.mem_map.mp hid
    obtain ⟨i, hi⟩ := List.mem_iff_getElem?.mp hf
    obtain ⟨r, -, hwhole⟩ := h.field hi
    have hid := hwhole.rep.known
    unfold Layout.known Layout.plainPart
    rw [hg.target, Layout.plain_eq c.ordered hg.types _ _ hid (Nat.lt_succ_self _) (Nat.lt_succ_self _)]
  unfold Setting.fieldSpace
  rw [hsame]

theorem cells_grow (h : t.OfFields c rt fs reps) (hg : c.Grows c') :
    c'.cells fs reps = c.cells fs reps := by
  unfold Setting.cells
  rw [h.fieldSpace_grow hg]

theorem fieldsOf_grow (h : t.OfFields c rt fs reps) (hg : c.Grows c') :
    c'.types.fieldsOf (c'.types.underlying t.id) = c.types.fieldsOf (c.types.underlying t.id) := by
  obtain ⟨d, hd, -⟩ := h.descriptor
  obtain ⟨d', hd'⟩ := h.found
  rw [c.ordered.underlying_eq hg.types (TypeTable.find?_lt hd').2]
  unfold TypeTable.fieldsOf TypeTable.fields?
  rw [hd, hg.types.find? hd, hg.structs]

theorem grow (h : t.OfFields c rt fs reps) (hg : c.Grows c') : t.OfFields c' rt fs reps where
  owner := h.owner
  kind := h.kind
  known := c.ordered.tyKind?_grow hg.types h.known
  fields := by rw [h.fieldsOf_grow hg, h.fields]
  whole := h.whole.imp fun _ _ hf => hf.grow hg
  size := by
    rw [h.fieldSpace_grow hg]
    exact h.size

theorem index?_grow (h : t.OfFields c rt fs reps) (hg : c.Grows c') (field : FieldRef) :
    field.index? c' t = field.index? c t := by
  cases field with
  | index i => rfl
  | named name =>
    unfold FieldRef.index? TypeTable.findField?
    rw [h.fieldsOf_grow hg]

end Ty.OfFields

theorem TypeTable.HasRep.eq_of_alike {target : Target} {t : TypeTable} {id id' : TypeId}
    {d d' : Descriptor} {r r' : Rep} (h : t.HasRep target id r) (h' : t.HasRep target id' r')
    (hd : t.find? (t.underlying id) = some d) (hd' : t.find? (t.underlying id') = some d')
    (hnumber : d.kind = .int ∨ d.kind = .uint) (hkind : d'.kind = d.kind) (hwidth : d'.width = d.width) :
    r = r' := by
  have hlayout : ∀ size, (Layout.numberLayout size (t.underlying id')).toOption =
      (Layout.numberLayout size (t.underlying id)).toOption := by
    intro size
    unfold Layout.numberLayout
    split <;> rfl
  obtain ⟨l, hl, hr⟩ := h
  obtain ⟨l', hl', hr'⟩ := h'
  unfold Layout.plainPart Layout.plain at hl hl'
  unfold repOf at hr hr'
  rw [hd] at hl hr
  rw [hd'] at hl' hr'
  dsimp only at hl hr hl' hr'
  rw [hkind] at hl' hr'
  rw [hwidth, hlayout] at hl'
  rcases hnumber with hk | hk <;> rw [hk] at hl hr hl' hr' <;>
    (obtain rfl := Option.mem_unique hl hl'; exact Except.ok.inj (hr.symm.trans hr'))

/-! ## Engines -/

namespace Engine.Hosts

variable {e : Engine} {c : Setting} {limit : Int} {id : FuncId} {f : Func} {t : Ty} {fs : List Ty}
  {reps : List Rep} {rt : RuntimeId} {i : Nat}

theorem ends_field (h : e.Hosts c limit id f) (ht : t.OfFields c rt fs reps) {ft : Ty}
    (hf : fs[i]? = some ft) :
    Ends (EngineM.field t.id i) e (fun a e' => a.type = ft.id ∧ e' = e) fun _ _ => False := by
  have hfield : ((c.types.fieldsOf (c.types.underlying t.id)).map (·.type))[i]? = some ft.id := by
    rw [ht.fields, List.getElem?_map, hf]
    rfl
  rw [List.getElem?_map, Option.map_eq_some_iff] at hfield
  obtain ⟨x, hx, htype⟩ := hfield
  refine .bind_get ?_
  rw [h.types]
  dsimp only
  rw [if_neg (by omega), Int.toNat_natCast, hx]
  exact .pure' ⟨htype, rfl⟩

theorem ends_layoutOf (h : e.Hosts c limit id f) {type : TypeId} {l : Layout}
    (hl : Layout.plainPart c.target c.types type = some l) :
    Ends (EngineM.layoutOf type) e (fun a e' => a = .ok l ∧ e'.Hosts c limit id f)
      fun _ _ => False := by
  have hlt := Layout.lt_of_plain hl
  obtain ⟨hright, hhonest⟩ := Layout.layoutWithin_right c.ordered (c.types.size + 1) h.layouts
    fun _ => ⟨hlt, Nat.lt_succ_of_lt hlt⟩
  have hagrees := hright.agrees
  unfold EngineM.layoutOf Layout.layoutOf
  refine .bind_get ?_
  rcases hrun : (Layout.layoutWithin e.target e.types (e.types.size + 1) type).run e.layouts with
    ⟨answer, layouts⟩
  rw [h.types, h.target] at hrun
  rw [hrun] at hagrees hhonest
  have hanswer : answer = .ok l := by
    cases answer with
    | ok l' =>
      obtain rfl := Option.mem_unique (show Layout.plainPart _ _ type = some l' from hagrees) hl
      rfl
    | error why => exact absurd ((hagrees trivial).symm.trans hl) nofun
  exact .bind_set (.pure' ⟨hanswer, h.toServes.relaid hhonest, h.func⟩)

theorem ends_fieldOffset (h : e.Hosts c limit id f) (hreg : c.target.Regular)
    (ht : t.OfFields c rt fs reps) {x : FieldCell} (hx : (c.cells fs reps)[i]? = some x) :
    Ends (EngineM.fieldOffset t.id i) e (fun a e' => a = x.offset ∧ e'.Hosts c limit id f)
      fun _ _ => False := by
  obtain ⟨ft, o, hf, -, hoffset, -, hat⟩ := ht.cell hreg hx
  have hlow := (Layout.FieldAt.inside (ht.proper hreg) hat).1
  refine .bind' (h.ends_field ht hf) ?_
  rintro _ _ ⟨-, rfl⟩
  refine .bind_get ?_
  rw [h.types]
  refine .bind' (h.ends_layoutOf (ht.plainPart hreg (List.ne_nil_of_mem (List.mem_of_getElem? hf)))) ?_
  rintro _ e' ⟨rfl, h'⟩
  have hoff : Layout.Answer.fieldOffset? (.ok (c.fieldSpace fs)) i = some o := by
    unfold Layout.Answer.fieldOffset?
    dsimp only
    rw [if_neg (by omega), Int.toNat_natCast]
    exact hat.2
  rw [hoff]
  exact .pure' ⟨by omega, h'⟩

end Engine.Hosts

/-! ## Operations of the builder -/

namespace Workspace.Hosts

open Func (Converted)

variable {w : Workspace} {c : Setting} {limit : Int} {fn : FnId} {s : Function} {f : Func}
  {v a o : Val} {t source pt : Ty} {fs : List Ty} {r want rs : Rep} {reps : List Rep} {i : Nat}

theorem ends_baseOf (h : w.Hosts c limit fn s f) (ht : t.Whole c s.runtime r) :
    Ends (baseOf t) w (fun d w' => w' = w ∧ c.types.find? (c.types.underlying t.id) = some d)
      fun _ _ => False := by
  obtain ⟨d, hd⟩ := ht.rep.found
  unfold baseOf
  rw [ht.owner]
  refine Place.ends_table h fun e he => .ite' (fun _ => .pure' ⟨rfl, ?_⟩) fun hno => ?_
  · rw [he.types, hd, Option.getD_some]
  · exact absurd ht.known.valid hno

theorem ends_compatible (h : w.Hosts c limit fn s f) (hs : source.Whole c s.runtime r)
    (hnumber : source.kind = .primitive) (ht : t.Whole c s.runtime want) :
    Ends (compatible source t) w (fun yes w' => w' = w ∧ (yes = true → r = want))
      fun _ _ => False := by
  have htable : ∀ {t : Ty} {r : Rep}, t.Whole c s.runtime r →
      Ends (tableSize t) w (fun _ w' => w' = w) fun _ _ => False := by
    intro t r ht
    unfold tableSize
    rw [ht.owner]
    exact Place.ends_table h fun _ _ => .pure' rfl
  refine .bind' (htable hs) ?_
  rintro n _ rfl
  refine .bind' (htable ht) ?_
  rintro k _ rfl
  unfold compatibleWithin
  refine .ite' (fun _ => .pure' ⟨rfl, fun hno => absurd hno Bool.false_ne_true⟩)
    fun _ => .ite' (fun hsame => ?_) fun _ => ?_
  · exact .pure' ⟨rfl, fun _ => (hsame.2 ▸ hs.rep).unique ht.rep⟩
  rw [hnumber]
  refine .bind' (h.ends_baseOf hs) ?_
  rintro d _ ⟨rfl, hd⟩
  refine .bind' (h.ends_baseOf ht) ?_
  rintro d' _ ⟨rfl, hd'⟩
  refine .pure' ⟨rfl, fun hyes => ?_⟩
  rw [Bool.and_eq_true, beq_iff_eq, beq_iff_eq] at hyes
  obtain ⟨d'', hd'', hreading⟩ := hs.known.reading
  obtain rfl := Option.mem_unique hd hd''
  rw [hnumber] at hreading
  refine hs.rep.eq_of_alike ht.rep hd hd' ?_ hyes.1.symm hyes.2.symm
  generalize r.cls = cls at hreading
  cases hreading with
  | int hk => exact .inl hk
  | uint hk => exact .inr hk

theorem ends_fitted (h : w.Hosts c limit fn s f) (hopen : f.Open c) (hv : v.Names fn f c source r)
    (hs : source.Whole c s.runtime r) (hnumber : source.kind = .primitive)
    (ht : t.Whole c s.runtime want) :
    Ends (fitted v t) w (fun u w' => ∃ f' t', w'.Hosts c limit fn s f' ∧ u.Names fn f' c t' want ∧
      f.Obtains c 1 f' u.id t'.id want (Converted want r v.id)) fun _ _ => False := by
  have htype : v.type = source := by rw [hv.eq]
  unfold fitted
  rw [htype]
  refine .bind' (h.ends_compatible hs hnumber ht) ?_
  rintro yes _ ⟨rfl, hsame⟩
  refine .ite' (fun hyes => ?_) fun _ => ?_
  · obtain rfl := hsame hyes
    refine .pure' ⟨f, source, h, hv, (Func.Lengthens.refl f).within (Nat.zero_le 1), hv.carries,
      Func.Brings.refl' ?_⟩
    rintro m _ ⟨n, hn, hread, rfl⟩
    rwa [hs.isWhole.wrap_eq hn]
  · refine (h.ends_cast hopen hv hs.isWhole ht).imp ?_
    rintro u w' ⟨f', h', hu, hobtains⟩
    exact ⟨f', t, h', hu, hobtains⟩

theorem ends_declare (h : w.Hosts c limit fn s f) (hopen : f.Open c) (hf : 0 < f.values.size)
    (hwrap : c.types.wrap? s.runtime t.id = some t) (hvalid : t.valid = true)
    (hr : c.types.HasRep c.target t.id r) (hvoid : r.cls ≠ .void) :
    Ends (declare fn t) w (fun v w' => ∃ f', w'.Hosts c limit fn s f' ∧ v.Names fn f' c t r ∧
      v.id = f.values.size ∧ f' = f.declared t.id r)
      fun _ _ => False := by
  have hemit : ∀ e : Engine, e.Hosts c limit s.id f → Ends (EngineM.createValue s.id t.id) e
      (fun u e' => ∃ f', e'.Hosts c limit s.id f' ∧ f'.Carries c u t.id r ∧ u = f.values.size ∧
        f' = f.declared t.id r) fun _ _ => False := by
    intro e he
    refine he.ends_emitted hopen fun b hb => ?_
    refine (hb.createLocal hr hvoid).imp ?_
    rintro u b' ⟨rfl, hb'⟩
    have hvalue : (f.declared t.id r).value? f.values.size =
        some { type := t.id, rep := r, origin := .local } :=
      (Func.value?_addValue hf f.values.size).trans (if_pos rfl)
    exact ⟨_, hb', rfl, ⟨⟨_, hvalue, rfl, rfl⟩, hr⟩, rfl, rfl⟩
  unfold declare
  rw [if_pos hvalid]
  exact h.ends_emit "declare" hwrap (fun u f' => u = f.values.size ∧
    f' = f.declared t.id r) hemit

theorem ends_address (h : w.Hosts c limit fn s f) (hopen : f.Open c) (hv : v.Names fn f c t r)
    {info : ValueInfo} (hinfo : f.value? v.id = some info) (hlocal : info.origin ≠ .const)
    (hknown : t.id < c.types.types.size) :
    Ends (address v) w (fun a w' => ∃ c' pt f', c.Grows c' ∧ w'.Hosts c' limit fn s f' ∧
      a.Names fn f' c' pt c'.target.pointerRep ∧ pt.owner = some s.runtime ∧ a.id = f.values.size ∧
        f' = f.addressed v.id pt.id c'.target.pointerRep) fun _ _ => False := by
  obtain ⟨info', hinfo', htype, -⟩ := hv.carries.value
  obtain rfl := Option.mem_unique hinfo' hinfo
  have hmade := c.ordered.makes_pointer hknown
  let pt : Ty := ⟨some s.runtime, (c.types.intern (.pointer t.id)).1, .pointer⟩
  have hkind : (c.pointing hknown).types.tyKind? pt.id = some .pointer := by
    have hself : (c.pointing hknown).types.underlying pt.id = pt.id :=
      TypeTable.underlying_of_not_tagged hmade.found nofun
    have hplain : (c.pointing hknown).types.isBool pt.id = false :=
      (Tables.base_of_untagged (s := ⟨.amd64, (c.pointing hknown).types, []⟩) hmade.found rfl
        nofun).plain
    unfold TypeTable.tyKind? TypeTable.kindOf
    rw [hplain, hself, show (c.pointing hknown).types.find? pt.id = _ from hmade.found]
    rfl
  let f' := f.addressed v.id pt.id c.target.pointerRep
  have hcarries : f'.Carries (c.pointing hknown) f.values.size pt.id c.target.pointerRep := by
    have hmark : 0 < (f.mark v.id).values.size := by
      rw [Func.size_mark]
      exact hv.carries.values_pos
    have hvalue : f'.value? (f.mark v.id).values.size =
        some { type := pt.id, rep := c.target.pointerRep, origin := .temp } :=
      Func.value?_computed hmark
    rw [Func.size_mark] at hvalue
    exact ⟨⟨_, hvalue, rfl, rfl⟩, .address hmade.found (.inl rfl)⟩
  have hact : ∀ e : Engine, e.Hosts c limit s.id f → Ends (EngineM.addressOf s.id v.id) e
      (fun d e' => e'.Hosts (c.pointing hknown) limit s.id f' ∧ d = f.values.size)
      fun _ _ => False := by
    intro e he
    have hmade : Ends (EngineM.addressOf s.id v.id) e (fun d e' => ∃ c' g,
        e'.Hosts c' limit s.id g ∧ c' = c.pointing hknown ∧ g = f' ∧ d = f.values.size)
        fun _ _ => False := by
      refine he.ends_emitInto hopen fun b hb => (hb.addressOf hinfo hlocal htype hknown).imp ?_
      rintro d b' ⟨rfl, hb'⟩
      exact ⟨_, _, hb', rfl, rfl, rfl, rfl, rfl, rfl⟩
    refine hmade.imp ?_
    rintro d e' ⟨_, _, he', rfl, rfl, rfl⟩
    exact ⟨he', rfl⟩
  unfold address
  rw [onValue_eq hv.fn_eq hv.carries.pos]
  refine (Place.ends_emit h "address" (t := pt) hact ?_ ?_).imp ?_
  · exact fun d e notes he => ⟨Engine.Hosts.blind _ limit s.id f' notes he.1, he.2⟩
  · rintro d e ⟨he, rfl⟩
    obtain ⟨other, hother, hotype, -⟩ := hcarries.value
    refine ⟨f', other, he.func, hother, ?_⟩
    rw [he.types, hotype]
    unfold TypeTable.wrap?
    rw [hkind]
    rfl
  · rintro a w' ⟨ha, hs, r', hr', he, hid⟩
    exact ⟨c.pointing hknown, pt, f', c.grows_pointing hknown, ⟨hs, r', hr', he⟩,
      ⟨ha, hid ▸ hcarries⟩, rfl, hid, rfl⟩

theorem ends_mstore (h : w.Hosts c limit fn s f) (hopen : f.Open c)
    (ha : a.Names fn f c pt c.target.pointerRep) (howner : pt.owner = some s.runtime)
    (ho : o.Names fn f c t r) (off : Int) :
    Ends (mstore a (.value o) off) w (fun _ w' => w'.Hosts c limit fn s
      (f.push { op := .storeRel, a := a.id, b := o.id, offset := off, type := t.id, rep := r }))
      fun _ _ => False := by
  have htype : a.type = pt := by rw [ha.eq]
  have htarget : Ends (targetOf? pt) w (fun _ w' => w' = w) fun _ _ => False := by
    refine .ite' (fun _ => .pure' rfl) fun _ => ?_
    unfold ownerOf
    rw [howner]
    exact .bind_pure (Place.ends_table h fun _ _ => .pure' rfl)
  have hemit : ∀ e : Engine, e.Hosts c limit s.id f → Ends (EngineM.storeRel s.id a.id off o.id) e
      (fun _ e' => e'.Hosts c limit s.id (f.push
        { op := .storeRel, a := a.id, b := o.id, offset := off, type := t.id, rep := r }))
      fun _ _ => False := by
    intro e he
    have hmade : Ends (EngineM.storeRel s.id a.id off o.id) e (fun _ e' => ∃ g,
        e'.Hosts c limit s.id g ∧ g = f.push
          { op := .storeRel, a := a.id, b := o.id, offset := off, type := t.id, rep := r })
        fun _ _ => False := by
      refine he.ends_emitted hopen fun b hb => (hb.storeRel ha.carries.rep? ho.carries off).imp ?_
      exact fun _ b' hb' => ⟨_, hb', rfl, rfl⟩
    refine hmade.imp ?_
    rintro _ e' ⟨_, he', rfl⟩
    exact he'
  unfold mstore
  rw [onValue_eq ha.fn_eq ha.carries.pos, htype]
  have hnamed : Ends (runtimeOf fn) w (fun _ w' => w' = w) fun _ _ => False :=
    Place.ends_function h (.pure' rfl)
  refine .bind' hnamed ?_
  rintro _ _ rfl
  refine .bind' htarget ?_
  rintro target _ rfl
  dsimp only
  rw [operand?_eq ho.fn_eq ho.carries.pos, pure_bind]
  refine .bind' (ends_guarded (Place.ends_onFunc h "mstore" hemit
    fun _ => Engine.Hosts.blind c limit s.id _)) ?_
  exact fun _ w' h' => .pure' h'

theorem ends_mload (h : w.Hosts c limit fn s f) (hopen : f.Open c)
    (ha : a.Names fn f c pt c.target.pointerRep) (ht : t.Whole c s.runtime r) (off : Int) :
    Ends (mload a off t) w (fun u w' => ∃ f', w'.Hosts c limit fn s f' ∧ u.Names fn f' c t r ∧
      u.id = f.values.size ∧ f' = (f.addValue { type := t.id, rep := r, origin := .temp }).2.push
        { op := .loadRel, dest := f.values.size, a := a.id, offset := off, type := t.id, rep := r })
      fun _ _ => False := by
  unfold mload
  rw [onValue_eq ha.fn_eq ha.carries.pos, if_pos ht.known.valid]
  refine h.ends_emit "mload" ht.wrap? (fun u f' => u = f.values.size ∧ f' = _) fun e he => ?_
  refine he.ends_emitted hopen fun b hb => ?_
  refine (hb.loadRel ha.carries.rep? ht.rep ht.isWhole.isScalar off).imp ?_
  rintro u b' ⟨rfl, hb'⟩
  exact ⟨_, hb', rfl, ⟨⟨_, Func.value?_computed ha.carries.values_pos, rfl, rfl⟩, ht.rep⟩, rfl, rfl⟩

/-! ### Places of fields -/

theorem ends_checkField (h : w.Hosts c limit fn s f) (ht : t.OfFields c s.runtime fs reps)
    (hi : i < fs.length) (op : String) :
    Ends (checkField t op i) w (fun _ w' => w' = w) fun _ _ => False := by
  have hcount : Ends (fieldCount t) w (fun n w' => n = fs.length ∧ w' = w) fun _ _ => False := by
    refine .ite' (fun hno => absurd ht.kind hno) fun _ => ?_
    unfold ownerOf
    rw [ht.owner]
    refine .bind_pure (Place.ends_engine h fun e he => .pure' ⟨?_, rfl⟩)
    unfold Engine.fieldCount
    rw [he.types, ← List.length_map (·.type), ht.fields, List.length_map]
  refine .ite' (fun hno => absurd ht.kind hno) fun _ => .bind' hcount ?_
  rintro n _ ⟨rfl, rfl⟩
  exact .ite' (fun hno => by omega) fun _ => .pure' rfl

theorem ends_fieldPlace? (h : w.Hosts c limit fn s f) (hreg : c.target.Regular)
    (ht : t.OfFields c s.runtime fs reps) (hv : v.Names fn f c t rs) {ft : Ty} {x : FieldCell}
    (hf : fs[i]? = some ft) (hx : (c.cells fs reps)[i]? = some x) (op : String) :
    Ends (fieldPlace? fn v op i) w (fun a w' => a = some (ft, (x.offset : Int)) ∧
      w'.Hosts c limit fn s f) fun _ _ => False := by
  have hblind : Engine.Blind fun e => e.Hosts c limit s.id f := Engine.Hosts.blind c limit s.id f
  have hi := (List.getElem?_eq_some_iff.mp hf).1
  obtain ⟨rf, -, hwhole⟩ := ht.field hf
  have htype : Ends (fieldType t i) w (fun a w' => a = ft ∧ w'.Hosts c limit fn s f)
      fun _ _ => False := by
    refine .bind' (h.ends_checkField ht hi _) ?_
    rintro _ _ rfl
    unfold ownerOf
    rw [ht.owner]
    refine .bind_pure (.bind' (Place.ends_onEngine h "field_type" (Q := fun a e =>
      a.type = ft.id ∧ e.Hosts c limit s.id f) (fun e he => (he.ends_field ht hf).mono
        (fun a e' ha => ⟨ha.1, ha.2 ▸ he⟩) fun _ _ h => h)
      fun _ _ notes he => ⟨he.1, hblind notes he.2⟩) ?_)
    rintro a w₁ ⟨hs, r', hr', htype, he⟩
    have h₁ : w₁.Hosts c limit fn s f := ⟨hs, r', hr', he⟩
    unfold wrapType
    refine Place.ends_table h₁ fun e he => ?_
    rw [he.types, htype, hwhole.wrap?]
    exact .pure' ⟨rfl, h₁⟩
  have hoffset : ∀ {w : Workspace}, w.Hosts c limit fn s f → Ends (fieldOffset t i) w
      (fun a w' => a = x.offset ∧ w'.Hosts c limit fn s f) fun _ _ => False := by
    intro w h
    refine .bind' (h.ends_checkField ht hi _) ?_
    rintro _ _ rfl
    unfold ownerOf
    rw [ht.owner]
    refine .bind_pure ((Place.ends_onEngine h "offset" (fun e he => he.ends_fieldOffset hreg ht hx)
      fun _ _ notes he => ⟨he.1, hblind notes he.2⟩).imp ?_)
    rintro a w₁ ⟨hs, r', hr', rfl, he⟩
    exact ⟨rfl, hs, r', hr', he⟩
  have hstruct : v.kind = .struct := by
    rw [hv.eq]
    unfold ValKind.ofTy
    rw [ht.kind]
  have hvtype : v.type = t := by rw [hv.eq]
  unfold fieldPlace?
  rw [hvtype]
  refine .ite' (fun hno => absurd hstruct hno) fun _ => ends_guarded (.bind' htype ?_)
  rintro _ w₁ ⟨rfl, h₁⟩
  refine .bind' (hoffset h₁) ?_
  rintro _ w₂ ⟨rfl, h₂⟩
  exact .pure' ⟨rfl, h₂⟩

theorem ends_fieldIndex? (h : w.Hosts c limit fn s f) (ht : t.OfFields c s.runtime fs reps)
    (hv : v.Names fn f c t rs) {name : String} (hname : (FieldRef.named name).index? c t = some i) :
    Ends (fieldIndex? fn v name) w (fun a w' => a = some i ∧ w' = w) fun _ _ => False := by
  have hvtype : v.type = t := by rw [hv.eq]
  have hfound : Ends (findField v.type name) w (fun a w' => a = i ∧ w' = w)
      fun _ _ => False := by
    rw [hvtype]
    refine .ite' (fun hno => absurd ht.kind hno) fun _ => ?_
    unfold ownerOf
    rw [ht.owner]
    refine .bind_pure (Place.ends_engine h fun e he => ?_)
    have hfind : e.findField? t.id name = some i := by
      unfold Engine.findField?
      rw [he.types]
      exact hname
    rw [hfind]
    exact .pure' ⟨rfl, rfl⟩
  refine ends_guarded (.bind' hfound ?_)
  rintro _ _ ⟨rfl, rfl⟩
  exact .pure' ⟨rfl, rfl⟩

end Workspace.Hosts

end TypedIR
