import TypedIR.Proofs.ErasedComparisons

/-
  What constructors make.

  A type that a constructor makes of types that have erasures has the erasure that is
  put together of theirs. Said three times: of the table (`Tables.Erased.tag` and the
  like), of calls of the engine (`EngineM.ends_pointerMade` and the like), and of the
  builder, where every constructor is a check and then one call of the engine
  (`BuildM.ends_constructor`).
-/

namespace TypedIR

namespace Tables

variable {s s' : Tables} {E : Erasure} {id base : TypeId} {d : Descriptor}

/-- The erasure depends on what is below the names, and on whether there is a truth
value. -/
theorem Erased.congr {id' : TypeId} (hbool : s.types.isBool id' = s.types.isBool id)
    (hbelow : s.types.underlying id' = s.types.underlying id) (h : s.Erased E id) :
    s.Erased E id' := by
  have hbase : ∀ {k d}, s.Base k id d → s.Base k id' d := fun hd =>
    ⟨hbool.trans hd.plain, by rw [hbelow]; exact hd.found, hd.kind⟩
  cases E with
  | void =>
    obtain ⟨d, hd⟩ := h
    exact ⟨d, hbase hd⟩
  | bool => exact ⟨hbool.trans h.1, by rw [hbelow]; exact h.2⟩
  | int | uint | float | pointer =>
    obtain ⟨d, hd, hrest⟩ := h
    exact ⟨d, hbase hd, hrest⟩
  | struct offsets fields =>
    obtain ⟨d, hd, hall, hlayout⟩ := h
    exact ⟨d, hbase hd, hall, by rw [hbelow]; exact hlayout⟩
  | signature abi params result =>
    obtain ⟨d, hd, hsig⟩ := h
    exact ⟨d, hbase hd, by rw [hbelow]; exact hsig⟩

theorem Erased.tag (hs : s.Founded) (hd : s.types.find? id = some d) (hk : d.kind = .tagged)
    {deco : Decoration} (hdeco : s.types.decoration? id = some deco) (htag : deco.tag ≠ .bool)
    (h : s.Erased E d.elem) : s.Erased E id :=
  h.congr (hs.ordered.isBool_of_tag hd hk hdeco htag) (hs.ordered.underlying_tagged hd hk)

theorem base_of_untagged {k : Kind} (hd : s.types.find? id = some d) (hk : d.kind = k)
    (hne : k ≠ .tagged) : s.Base k id d := by
  have hnt : d.kind ≠ .tagged := hk ▸ hne
  refine ⟨?_, by rw [TypeTable.underlying_of_not_tagged hd hnt]; exact hd, hk⟩
  have hdeco : s.types.decoration? id = none := by
    unfold TypeTable.decoration?
    rw [hd]
    exact if_neg fun h => hnt h.1
  unfold TypeTable.isBool
  cases s.types.types.size with
  | zero => rfl
  | succ n => rw [TypeTable.boolWithin, hdeco]

open TypeTable in
theorem erased_builtin (hs : s.Founded) (b : Builtin) : s.Erased b.erase b.id := by
  have hplain : ∀ {k : Kind} {id : TypeId} {d}, TypeTable.initial.find? id = some d → d.kind = k →
      k ≠ .tagged → s.Base k id d :=
    fun hd hk hne => base_of_untagged (hs.ordered.builtins.find? hd) hk hne
  have hfound : ∀ {d}, TypeTable.initial.find? b.id = some d → s.types.find? b.id = some d :=
    fun h => hs.ordered.builtins.find? h
  cases b with
  | void => exact ⟨{ kind := .void }, hplain (by rw [initial_eq]; rfl) rfl (by decide)⟩
  | int8 => exact ⟨.int 8, hplain (by rw [initial_eq]; rfl) rfl (by decide), rfl⟩
  | int16 => exact ⟨.int 16, hplain (by rw [initial_eq]; rfl) rfl (by decide), rfl⟩
  | int32 => exact ⟨.int 32, hplain (by rw [initial_eq]; rfl) rfl (by decide), rfl⟩
  | int64 => exact ⟨.int 64, hplain (by rw [initial_eq]; rfl) rfl (by decide), rfl⟩
  | uint8 => exact ⟨.uint 8, hplain (by rw [initial_eq]; rfl) rfl (by decide), rfl⟩
  | uint16 => exact ⟨.uint 16, hplain (by rw [initial_eq]; rfl) rfl (by decide), rfl⟩
  | uint32 => exact ⟨.uint 32, hplain (by rw [initial_eq]; rfl) rfl (by decide), rfl⟩
  | uint64 => exact ⟨.uint 64, hplain (by rw [initial_eq]; rfl) rfl (by decide), rfl⟩
  | nint => exact ⟨.int 0, hplain (by rw [initial_eq]; rfl) rfl (by decide), rfl⟩
  | nuint => exact ⟨.uint 0, hplain (by rw [initial_eq]; rfl) rfl (by decide), rfl⟩
  | float32 => exact ⟨.float 32, hplain (by rw [initial_eq]; rfl) rfl (by decide), rfl⟩
  | float64 => exact ⟨.float 64, hplain (by rw [initial_eq]; rfl) rfl (by decide), rfl⟩
  | voidPtr =>
    have hvoid : s.Erased .void 1 :=
      ⟨{ kind := .void }, hplain (by rw [initial_eq]; rfl) rfl (by decide)⟩
    exact ⟨.pointer 1, hplain (by rw [initial_eq]; rfl) rfl (by decide), hvoid⟩
  | bool =>
    have hinit : TypeTable.initial.isBool 15 = true ∧
        TypeTable.initial.find? (TypeTable.initial.underlying 15) = some (.int 8) := by
      rw [initial_eq]
      exact ⟨rfl, rfl⟩
    refine ⟨?_, ?_⟩
    · rw [TypeTable.initial_ordered.isBool_grow hs.ordered.builtins (by rw [initial_types]; decide)]
      exact hinit.1
    · rw [TypeTable.initial_ordered.underlying_eq hs.ordered.builtins (by rw [initial_types]; decide)]
      exact hs.ordered.builtins.find? hinit.2
  | stringz =>
    have hbyte : s.Erased (.uint 8) 6 :=
      ⟨.uint 8, hplain (by rw [initial_eq]; rfl) rfl (by decide), rfl⟩
    have hpointer : s.Erased (.pointer (.uint 8)) 16 :=
      ⟨.pointer 6, hplain (by rw [initial_eq]; rfl) rfl (by decide), hbyte⟩
    obtain ⟨deco, hdeco, htag⟩ : ∃ deco, TypeTable.initial.decoration? 17 = some deco ∧
        deco.tag = .stringz := ⟨{ tag := .stringz }, by rw [initial_eq]; exact ⟨rfl, rfl⟩⟩
    have hd : TypeTable.initial.find? 17 = some { kind := .tagged, elem := 16, slot := 2 } := by
      rw [initial_eq]
      rfl
    have hkept := TypeTable.initial_ordered.decoration?_grow hs.ordered.builtins hd
    refine Erased.tag hs (hs.ordered.builtins.find? hd) rfl (hkept.trans hdeco) ?_ hpointer
    rw [htag]
    decide

end Tables

/-! ## What is made of known types -/

/-- What constructors make a type of: the numbers of its parts. -/
inductive TypeShape where
  | pointer (target : TypeId)
  | struct (fields : List TypeId)
  | signature (s : Signature)

def TypeShape.kind : TypeShape → TyKind
  | .pointer _ => .pointer
  | .struct _ => .struct
  | .signature _ => .signature

namespace TypeTable

def Shaped (t : TypeTable) (id : TypeId) : TypeShape → Prop
  | .pointer target => t.find? id = some (.pointer target)
  | .struct fields => ∃ d, t.find? id = some d ∧ d.kind = .struct ∧ t.parts d = fields
  | .signature s => ∃ d, t.find? id = some d ∧ d.kind = .signature ∧
      t.signatures[d.slot]? = some s

variable {t t' : TypeTable} {id : TypeId} {x : TypeShape} {g : Signature}

theorem Ordered.shaped_grow (h : t.Ordered) (hg : t.Grows t') (hx : t.Shaped id x) :
    t'.Shaped id x := by
  cases x with
  | pointer target => exact hg.find? hx
  | struct fields =>
    obtain ⟨d, hd, hk, hparts⟩ := hx
    exact ⟨d, hg.find? hd, hk, (hg.parts (h.slots hd)).trans hparts⟩
  | signature s =>
    obtain ⟨d, hd, hk, hs⟩ := hx
    exact ⟨d, hg.find? hd, hk, hg.signatures hs⟩

theorem Shaped.signature? (h : t.Shaped id (.signature g)) :
    t.signature? (t.underlying id) = some g := by
  obtain ⟨d, hd, hk, hg⟩ := h
  rw [underlying_of_not_tagged hd (by rw [hk]; decide)]
  unfold TypeTable.signature?
  rw [hd]
  exact (if_pos hk).trans hg

end TypeTable

namespace Tables

variable {s : Tables} {E : Erasure} {id base : TypeId}

theorem erased_pointer (hd : s.types.Shaped id (.pointer base)) (h : s.Erased E base) :
    s.Erased (.pointer E) id :=
  ⟨.pointer base, base_of_untagged hd rfl (by decide), h⟩

theorem erased_signature {g : Signature} {params : List Erasure}
    (h : s.types.Shaped id (.signature g))
    (hparams : List.Forall₂ s.Erased params g.params) (hresult : s.Erased E g.result) :
    s.Erased (.signature g.abi params E) id := by
  have ⟨d, hd, hk, _⟩ := h
  exact ⟨d, base_of_untagged hd hk (by decide), g, h.signature?, rfl,
    (s.allErased_iff _ _).mpr hparams, hresult⟩

theorem erased_struct (hs : s.Founded) {ids : List TypeId} {fields : List Erasure} {l : Layout}
    (h : s.types.Shaped id (.struct ids)) (hfields : List.Forall₂ s.Erased fields ids)
    (hl : s.layouts.lookup id = some (.ok l)) :
    Layout.placeAll {} (fields.map (Erasure.layout? s.target)) = some l ∧
      s.Erased (.struct l.offsets fields) id := by
  obtain ⟨d, hd, hk, rfl⟩ := h
  have hself := TypeTable.underlying_of_not_tagged hd (by rw [hk]; decide)
  have hE : s.Erased (.struct l.offsets fields) id :=
    ⟨d, base_of_untagged hd hk (by decide), (s.allErased_iff _ _).mpr hfields, l,
      by rw [hself]; exact hl, rfl⟩
  refine ⟨?_, hE⟩
  have hplain : Layout.plainPart s.target s.types id = some l := (hs.honest id _ hl).agrees
  rw [← Erasure.layouts?_eq]
  exact (hE.layout hs).symm.trans hplain

theorem Erased.lt (h : s.Erased E id) : id < s.types.types.size := by
  obtain ⟨d, hd⟩ := h.known
  exact (TypeTable.find?_lt hd).2

end Tables

namespace EngineM

variable {α : Type} {e : Engine} {E : Erasure} {id : TypeId} {ok : α → Engine → Prop}

/-! ## Calls of the engine -/

theorem ends_knowing (id : TypeId) {k : PUnit → EngineM α}
    (h : (∃ d, e.types.find? id = some d) → Ends (k ⟨⟩) e ok fun _ _ => True) :
    Ends (knownType id >>= k) e ok fun _ _ => True := by
  have hknown : Ends (knownType id) e (fun _ e' => e' = e ∧ ∃ d, e.types.find? id = some d)
      fun _ _ => True := by
    refine .bind_get (.ite' (fun _ => .throw' trivial) fun h => .pure' ⟨rfl, ?_⟩)
    exact Option.ne_none_iff_exists'.mp (by simpa using h)
  refine .bind' hknown ?_
  rintro _ _ ⟨rfl, hd⟩
  exact h hd

theorem ends_knowingAll (ids : List TypeId) {k : PUnit → EngineM α}
    (h : (∀ id ∈ ids, ∃ d, e.types.find? id = some d) → Ends (k ⟨⟩) e ok fun _ _ => True) :
    Ends (ids.forM knownType >>= k) e ok fun _ _ => True := by
  induction ids with
  | nil => exact h (List.forall_mem_nil _)
  | cons id rest ih =>
    show Ends ((knownType id >>= fun _ => rest.forM knownType) >>= k) e _ _
    rw [bind_assoc]
    exact ends_knowing id fun hd => ih fun hrest => h (List.forall_mem_cons.mpr ⟨hd, hrest⟩)

theorem ends_making {g : TypeTable → TypeId × TypeTable} {d : Descriptor} (he : e.Founded)
    (h : e.types.Makes (g e.types) d) :
    Ends (makeType g) e (fun id e' => e.tables.Onward e'.tables ∧ e'.tables.Founded ∧
      id = (g e.types).1 ∧ e'.types = (g e.types).2 ∧ e'.types.find? id = some d) fun _ _ => True :=
  .bind_get (.bind_set (.pure' ⟨Tables.onward_types h.grows, he.tables.grow h.grows h.ordered,
    rfl, rfl, h.found⟩))

theorem ends_pointerShaped (he : e.Founded) (target : TypeId) :
    Ends (pointerType target) e (fun p e' => e.tables.Onward e'.tables ∧
      e'.types.Shaped p (.pointer target)) fun _ _ => True := by
  have hord : e.types.Ordered := he.tables.ordered
  refine ends_knowing target fun ⟨d, hd⟩ => ?_
  refine (ends_making he (hord.makes_pointer (TypeTable.find?_lt hd).2)).imp ?_
  exact fun p e' h => ⟨h.1, h.2.2.2.2⟩

theorem ends_signatureShaped (he : e.Founded) (abi : Abi) (result : TypeId)
    (params : List TypeId) :
    Ends (signatureType abi result params) e (fun p e' => e.tables.Onward e'.tables ∧
      e'.types.Shaped p (.signature { abi, params, result })) fun _ _ => True := by
  have hord : e.types.Ordered := he.tables.ordered
  refine ends_knowing result fun ⟨d, hd⟩ => ends_knowingAll params fun hparams => ?_
  have hlt : ∀ p ∈ params, p < e.types.types.size := fun p hp => by
    obtain ⟨d, hd⟩ := hparams p hp
    exact (TypeTable.find?_lt hd).2
  obtain ⟨d, hmakes, hk, hsig⟩ := hord.makes_addSignature (s := { abi, params, result })
    (TypeTable.find?_lt hd).2 hlt
  refine (ends_making he hmakes).imp ?_
  rintro p e' ⟨honward, -, -, htypes, hd⟩
  rw [← htypes] at hsig
  exact ⟨honward, d, hd, hk, hsig⟩

theorem ends_pointerMade (he : e.Founded) (hE : e.tables.Erased E id) :
    Ends (pointerType id) e (fun p e' => e'.tables.Erased (.pointer E) p) fun _ _ => True := by
  refine (ends_pointerShaped he id).imp ?_
  rintro p e' ⟨honward, hp⟩
  exact Tables.erased_pointer hp (hE.onward he.tables honward)

theorem ends_signatureMade (he : e.Founded) (abi : Abi) {params : List Erasure}
    {ids : List TypeId} (hE : e.tables.Erased E id) (hparams : List.Forall₂ e.tables.Erased params ids) :
    Ends (signatureType abi id ids) e
      (fun p e' => e'.tables.Erased (.signature abi params E) p) fun _ _ => True := by
  refine (ends_signatureShaped he abi id ids).imp ?_
  rintro p e' ⟨honward, hp⟩
  exact Tables.erased_signature hp (hparams.imp fun _ _ h => h.onward he.tables honward)
    (hE.onward he.tables honward)

theorem ends_taggedMade (he : e.Founded) (hE : e.tables.Erased E id) {tag : Tag}
    (htag : tag ≠ .bool) (data : String) :
    Ends (taggedType id tag data) e (fun p e' => e'.tables.Erased E p) fun _ _ => True := by
  have hord : e.types.Ordered := he.tables.ordered
  obtain ⟨d, hmakes, hk, rfl, hdeco⟩ := hord.makes_addTagged { tag, data } hE.lt
  refine ends_knowing _ fun _ => (ends_making he hmakes).imp ?_
  rintro p e' ⟨honward, hfounded, -, htypes, hd⟩
  rw [← htypes] at hdeco
  have hfound : e'.types.decoration? p = some { tag, data } := by
    unfold TypeTable.decoration?
    rw [hd]
    exact (if_pos ⟨hk, Nat.ne_of_gt ((hfounded.ordered.slots hd).2.2 hk).1⟩).trans hdeco
  exact Tables.Erased.tag hfounded hd hk hfound htag (hE.onward he.tables honward)

theorem ends_layoutGiven (id : TypeId) (e : Engine) :
    Ends (layoutOf id) e (fun answer e' => e.tables.Onward e'.tables ∧ e'.types = e.types ∧
      (e.tables.Founded → e'.tables.Founded) ∧ e'.layouts.lookup id = some answer)
      fun _ _ => False :=
  .bind_get (.bind_set (.pure' ⟨e.tables.onward_asked id, rfl, fun he => he.asked id,
    Layout.lookup_layoutOf id e.layouts⟩))

theorem ends_structShaped (he : e.Founded) (ids : List TypeId) :
    Ends (structType ids) e (fun p e' => e.tables.Onward e'.tables ∧ e'.tables.Founded ∧
      e'.types.Shaped p (.struct ids) ∧ ∃ l, e'.layouts.lookup p = some (.ok l))
      fun _ _ => True := by
  refine ends_knowingAll ids fun hids => ?_
  have hlt : ∀ p ∈ ids, p < e.types.types.size := fun p hp => by
    obtain ⟨d, hd⟩ := hids p hp
    exact (TypeTable.find?_lt hd).2
  have hord : e.types.Ordered := he.tables.ordered
  refine .bind' (ends_making he (hord.makes_addStruct hlt)) ?_
  rintro p e₁ ⟨honward, he₁, -, htypes, hd⟩
  refine .bind' (ends_layoutGiven p e₁).total ?_
  rintro answer e₂ ⟨honward₂, htypes₂, he₂, hanswer⟩
  cases answer with
  | error r => exact .throw' trivial
  | ok l =>
    have hparts : e₂.types.parts e.types.nextStruct = ids := by
      rw [htypes₂, htypes]
      simp [TypeTable.parts, TypeTable.nextStruct, TypeTable.addStruct, TypeTable.append,
        Function.comp_def]
    exact .pure' ⟨honward.trans honward₂, he₂ he₁, ⟨_, htypes₂ ▸ hd, rfl, hparts⟩, l, hanswer⟩

theorem ends_structMade (he : e.Founded) {fields : List Erasure} {ids : List TypeId}
    (hE : List.Forall₂ e.tables.Erased fields ids) :
    Ends (structType ids) e (fun p e' => ∃ l, e'.tables.Erased (.struct l.offsets fields) p ∧
      Layout.placeAll {} (fields.map (Erasure.layout? e.target)) = some l) fun _ _ => True := by
  refine (ends_structShaped he ids).imp ?_
  rintro p e' ⟨honward, he', hp, l, hl⟩
  have hfields := hE.imp fun _ _ h => h.onward he.tables honward
  obtain ⟨hplaced, hstruct⟩ := Tables.erased_struct (s := e'.tables) he' hp hfields hl
  have htarget : e'.tables.target = e.target := honward.target
  exact ⟨l, hstruct, htarget ▸ hplaced⟩

end EngineM

/-! ## Constructors of the builder -/

theorem Engine.Reached.along {e e' : Engine} (he : e.Reached)
    (h : Relation.ReflTransGen Engine.Moves e e') : e'.Reached ∧ e.tables.Onward e'.tables := by
  induction h with
  | refl => exact ⟨he, .refl _⟩
  | tail _ hm ih => exact ⟨.moved ih.1 hm, ih.2.trans (hm.rests ih.1.founded).2⟩

/-- What becomes of a workspace: its engines move along, and new ones are such that
clients can have them. -/
structure Workspace.Moves (w w' : Workspace) : Prop where
  moved : ∀ (rt : RuntimeId) r, w.runtimes[rt]? = some r →
    ∃ r', w'.runtimes[rt]? = some r' ∧ Relation.ReflTransGen Engine.Moves r.engine r'.engine
  created : ∀ (rt : RuntimeId) r', w'.runtimes[rt]? = some r' → w.runtimes[rt]? = none →
    r'.engine.Reached

theorem Workspace.Moves.refl (w : Workspace) : w.Moves w := by
  refine ⟨fun rt r hr => ⟨r, hr, .refl⟩, fun rt r' hr' hr => ?_⟩
  rw [hr] at hr'
  cases hr'

theorem Workspace.Moves.trans {w w' w'' : Workspace} (h : w.Moves w') (h' : w'.Moves w'') :
    w.Moves w'' := by
  refine ⟨fun rt r hr => ?_, fun rt r'' hr'' hr => ?_⟩
  · obtain ⟨r', hr', halong⟩ := h.moved rt r hr
    obtain ⟨r'', hr'', halong'⟩ := h'.moved rt r' hr'
    exact ⟨r'', hr'', halong.trans halong'⟩
  · cases hr' : w'.runtimes[rt]? with
    | none => exact h'.created rt r'' hr'' hr'
    | some r' =>
      obtain ⟨r₁, hr₁, halong⟩ := h'.moved rt r' hr'
      obtain rfl := Option.mem_unique hr'' hr₁
      exact ((h.created rt r' hr' hr).along halong).1

theorem Workspace.Moves.reached {w w' : Workspace} (h : w.Moves w') (hw : w.Reached) :
    w'.Reached := by
  intro rt r' hr'
  cases hr : w.runtimes[rt]? with
  | none => exact h.created rt r' hr' hr
  | some r =>
    obtain ⟨r'', hr'', halong⟩ := h.moved rt r hr
    obtain rfl := Option.mem_unique hr' hr''
    exact ((hw rt r hr).along halong).1

namespace BuildM

variable {w : Workspace} {E : Erasure} {rt : RuntimeId} {r : Runtime} {id : TypeId}

theorem moves_advance {α : Type} {act : EngineM α} (hcall : EngineCall act)
    (spans : List Trace.Span) (tracing : Trace.Tracing) (hr : w.runtimes[rt]? = some r) :
    w.Moves (w.advance rt r
      { (act.run r.engine : Except Failure α × Engine).2 with notes := #[] } spans tracing) := by
  have hruntime := Workspace.getElem?_advance
    { (act.run r.engine : Except Failure α × Engine).2 with notes := #[] } spans tracing hr
  constructor
  · intro k r₁ hr₁
    rw [hruntime]
    split
    · next hk =>
      obtain rfl := Option.mem_unique hr (hk ▸ hr₁)
      exact ⟨_, rfl, .tail (.single (.called hcall r.engine)) (.hosted _ _ _)⟩
    · exact ⟨r₁, hr₁, .refl⟩
  · intro k r' hr' hnone
    rw [hruntime] at hr'
    split at hr'
    · next hk =>
      rw [← hk, hr] at hnone
      cases hnone
    · rw [hnone] at hr'
      cases hr'

theorem moves_tryEngine {α : Type} (rt : RuntimeId) {act : EngineM α} (hcall : EngineCall act) :
    Leaves Workspace.Moves (tryEngine rt act) := by
  intro w
  unfold tryEngine
  cases hr : w.runtimes[rt]? with
  | none =>
    rw [run_onEngineState_none hr]
    exact .refl w
  | some r =>
    obtain ⟨spans, tracing, hrun⟩ := run_onEngineState hr
      fun e => (act.run e : Except Failure α × Engine)
    rw [hrun]
    exact moves_advance hcall spans tracing hr

/-- A constructor: a call of an engine that gives a type, and what the builder makes of
that type. -/
theorem ends_constructed {act : EngineM TypeId} (made : TypeId → Tables → Prop) (op : String)
    (hr : w.runtimes[rt]? = some r) (hcall : EngineCall act)
    (hact : Ends act r.engine (fun id e => made id e.tables) fun _ _ => True) :
    Ends (do wrapType rt (← onEngine rt op act)) w (fun a w' => w.Moves w' ∧
      ∃ r' : Runtime, w'.runtimes[rt]? = some r' ∧ r'.engine.types.wrap? rt a.id = some a ∧
        made a.id r'.engine.tables) fun _ _ => True := by
  have hstate : Ends act r.engine
      (fun _ e => e = (act.run r.engine : Except Failure TypeId × Engine).2)
      fun _ e => e = (act.run r.engine : Except Failure TypeId × Engine).2 := .of_state rfl
  have hboth := ends_operation op hr (hact.and' hstate)
  refine .bind' (hboth.imp_stop fun _ _ _ => trivial) ?_
  rintro id _ ⟨_, spans, tracing, ⟨hmade, rfl⟩, rfl⟩
  have hr' := Workspace.getElem?_advance
    { (act.run r.engine : Except Failure TypeId × Engine).2 with notes := #[] } spans tracing hr rt
  rw [if_pos rfl] at hr'
  refine (ends_wraps (.inl rfl)).mono ?_ fun _ _ _ => trivial
  rintro a _ ⟨rfl, r'', hr'', hwrap⟩
  obtain rfl := Option.mem_unique hr' hr''
  obtain ⟨-, rfl, -⟩ := TypeTable.of_wrap? hwrap
  exact ⟨moves_advance hcall spans tracing hr, _, hr', hwrap, hmade⟩

theorem ends_constructor {act : EngineM TypeId} (op : String) (hr : w.runtimes[rt]? = some r)
    (hcall : EngineCall act)
    (hact : Ends act r.engine (fun id e => e.tables.Erased E id) fun _ _ => True) :
    Ends (do wrapType rt (← onEngine rt op act)) w (fun a w' => w.Moves w' ∧ a.owner = some rt ∧
      w'.Erased E a) fun _ _ => True := by
  refine (ends_constructed (fun id s => s.Erased E id) op hr hcall hact).imp ?_
  rintro a w' ⟨hmoves, r', hr', hwrap, hE⟩
  have hkind : a.kind = E.kind :=
    Option.some.inj ((TypeTable.of_wrap? hwrap).2.2.1.symm.trans hE.tyKind)
  have hown := (TypeTable.of_wrap? hwrap).1
  exact ⟨hmoves, hown, rt, r', hown, hr', hE, hkind⟩

variable {p : Ty} {params : List Erasure} {ps : List Ty}

theorem ends_pointerTy_made (hw : w.Founded) (hr : w.runtimes[rt]? = some r)
    (hE : r.engine.tables.Erased E p.id) :
    Ends (pointerTy rt p) w (fun a w' => w.Moves w' ∧ a.owner = some rt ∧
      w'.Erased (.pointer E) a) fun _ _ => True :=
  .ite' (fun _ => .bind_throw trivial) fun _ =>
    ends_constructor "create" hr (.pointerType _) (EngineM.ends_pointerMade (hw rt r hr) hE)

theorem ends_validFields (i : Nat) (fields : List Ty) (w : Workspace) :
    Ends (validFields i fields) w (fun _ w' => w' = w) fun _ _ => True := by
  induction fields generalizing i with
  | nil => exact .pure' rfl
  | cons f rest ih => exact .ite' (fun _ => .bind_throw trivial) fun _ => ih (i + 1)

theorem ends_validParams (i : Nat) (params : List Ty) (w : Workspace) :
    Ends (validParams i params) w (fun _ w' => w' = w) fun _ _ => True := by
  induction params generalizing i with
  | nil => exact .pure' rfl
  | cons p rest ih =>
    refine .ite' (fun _ => .bind_throw trivial) fun _ => ?_
    exact .ite' (fun _ => .bind_throw trivial) fun _ => ih (i + 1)

theorem ends_structTy_made (hw : w.Founded) (hr : w.runtimes[rt]? = some r)
    (hE : List.Forall₂ r.engine.tables.Erased params (ps.map (·.id))) :
    Ends (structTy rt ps) w (fun a w' => w.Moves w' ∧ a.owner = some rt ∧
      ∃ l, Layout.placeAll {} (params.map (Erasure.layout? r.engine.target)) = some l ∧
        w'.Erased (.struct l.offsets params) a) fun _ _ => True := by
  refine .bind' (ends_validFields 0 ps w) ?_
  rintro _ _ rfl
  have hstruct := EngineM.ends_structMade (hw rt r hr) hE
  -- which layout it is follows from the fields
  cases hplaced : Layout.placeAll {} (params.map (Erasure.layout? r.engine.target)) with
  | none =>
    rw [hplaced] at hstruct
    have hnone : Ends (EngineM.structType (ps.map (·.id))) r.engine (fun _ _ => False)
        fun _ _ => True := hstruct.imp fun _ _ h => nomatch h
    exact .stopped ((ends_operation "create" hr hnone).mono (fun _ _ h => by
      obtain ⟨_, _, _, h, -⟩ := h
      exact h) fun _ _ _ => trivial)
  | some l =>
    rw [hplaced] at hstruct
    have hl : Ends (EngineM.structType (ps.map (·.id))) r.engine
        (fun id e => e.tables.Erased (.struct l.offsets params) id) fun _ _ => True := by
      refine hstruct.imp ?_
      rintro id e ⟨l', hE, hl'⟩
      obtain rfl := Option.some.inj hl'
      exact hE
    refine (ends_constructor "create" hr (.structType _) hl).imp ?_
    exact fun _ _ h => ⟨h.1, h.2.1, l, rfl, h.2.2⟩

theorem ends_signatureTy_made (hw : w.Founded) (hr : w.runtimes[rt]? = some r) (abi : Abi)
    (hparams : List.Forall₂ r.engine.tables.Erased params (ps.map (·.id)))
    (hE : r.engine.tables.Erased E p.id) :
    Ends (signatureTy rt ps p abi) w (fun a w' => w.Moves w' ∧ a.owner = some rt ∧
      w'.Erased (.signature abi params E) a) fun _ _ => True := by
  refine .ite' (fun _ => .bind_throw trivial) fun _ => .bind' (ends_validParams 0 ps w) ?_
  rintro _ _ rfl
  exact ends_constructor "create" hr (.signatureType _ _ _)
    (EngineM.ends_signatureMade (hw rt r hr) abi hE hparams)

theorem ends_withName_made (hw : w.Founded) (hr : w.runtimes[rt]? = some r)
    (hown : p.owner = some rt) (hE : r.engine.tables.Erased E p.id) (name : String) :
    Ends (withName p name) w (fun a w' => w.Moves w' ∧ a.owner = some rt ∧ w'.Erased E a)
      fun _ _ => True := by
  refine .ite' (fun _ => .bind_throw trivial) fun _ => ends_owned hown ?_
  refine ends_constructor "with_name" hr (.taggedType _ _ _)
    (EngineM.ends_taggedMade (hw rt r hr) hE ?_ name)
  split <;> decide

end BuildM

end TypedIR
