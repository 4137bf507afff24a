/-
  How runs end: the rules all later proofs about operations are built from.

  Every layer runs in a monad that keeps a state and can stop. `Ends act s ok
  stop` says what a run of `act` from `s` comes to: `ok` holds of the answer
  and the state after it, or `stop` of what it stopped with and the state then.
  There is one rule for each way to put operations together, so an operation is
  proved about by walking through its text.
-/

namespace TypedIR

variable {ε σ α β : Type}

theorem any_toOption {x : Except ε α} {p : α → Bool} :
    x.toOption.any p = true ↔ ∃ a, x = .ok a ∧ p a = true := by
  cases x <;> simp [Except.toOption]

theorem lt_of_getElem? {xs : Array α} {i : Nat} {x : α} (h : xs[i]? = some x) : i < xs.size :=
  (Array.getElem?_eq_some_iff.mp h).1

theorem run_bind (act : ExceptT ε (StateM σ) α) (k : α → ExceptT ε (StateM σ) β) (s : σ) :
    ((act >>= k).run s : Except ε β × σ) =
      match (act.run s : Except ε α × σ) with
      | (.ok a, s') => (k a).run s'
      | (.error e, s') => (.error e, s') := by
  have h : ((act >>= k).run s : Except ε β × σ) =
      (ExceptT.bindCont k (act.run s).1 : StateM σ (Except ε β)) (act.run s).2 := rfl
  rw [h]
  rcases (act.run s : Except ε α × σ) with ⟨_ | _, _⟩ <;> rfl

theorem run_bind_get (k : σ → ExceptT ε (StateM σ) α) (s : σ) :
    ((get >>= k).run s : Except ε α × σ) = (k s).run s := rfl

theorem run_tryCatch (act : ExceptT ε (StateM σ) α) (k : ε → ExceptT ε (StateM σ) α) (s : σ) :
    ((tryCatch act k).run s : Except ε α × σ) =
      match (act.run s : Except ε α × σ) with
      | (.ok a, s') => (.ok a, s')
      | (.error e, s') => (k e).run s' := by
  have h : ((tryCatch act k).run s : Except ε α × σ) =
      ((match (act.run s).1 with
        | .ok a => pure (.ok a)
        | .error e => (k e).run) : StateM σ (Except ε α)) (act.run s).2 := rfl
  rw [h]
  rcases (act.run s : Except ε α × σ) with ⟨_ | _, _⟩ <;> rfl

/-- How a request ends: `ok` of the answer and the state then, or `stop` of the reason and that. -/
def Ends (act : ExceptT ε (StateM σ) α) (s : σ) (ok : α → σ → Prop) (stop : ε → σ → Prop) :
    Prop :=
  match (act.run s : Except ε α × σ) with
  | (.ok a, s') => ok a s'
  | (.error e, s') => stop e s'

namespace Ends

variable {act : ExceptT ε (StateM σ) α} {s : σ}
  {ok ok' : α → σ → Prop} {stop stop' : ε → σ → Prop}

theorem pure' {a : α} (h : ok a s) : Ends (pure a : ExceptT ε (StateM σ) α) s ok stop := h

theorem throw' {e : ε} (h : stop e s) : Ends (throw e : ExceptT ε (StateM σ) α) s ok stop := h

theorem mono (h : Ends act s ok stop) (hok : ∀ a s', ok a s' → ok' a s')
    (hstop : ∀ e s', stop e s' → stop' e s') : Ends act s ok' stop' := by
  unfold Ends at h ⊢
  rcases hr : (act.run s : Except ε α × σ) with ⟨e | a, s'⟩
  · rw [hr] at h
    exact hstop e s' h
  · rw [hr] at h
    exact hok a s' h

theorem imp (h : Ends act s ok stop) (hok : ∀ a s', ok a s' → ok' a s') : Ends act s ok' stop :=
  h.mono hok fun _ _ h => h

theorem imp_stop (h : Ends act s ok stop) (hstop : ∀ e s', stop e s' → stop' e s') :
    Ends act s ok stop' :=
  h.mono (fun _ _ h => h) hstop

theorem total (h : Ends act s ok fun _ _ => False) : Ends act s ok stop :=
  h.imp_stop fun _ _ h => h.elim

theorem any (act : ExceptT ε (StateM σ) α) (s : σ) :
    Ends act s (fun _ _ => True) fun _ _ => True := by
  unfold Ends
  split <;> trivial

theorem bind_any {k : α → ExceptT ε (StateM σ) β} {after : β → σ → Prop}
    (hk : ∀ a s', Ends (k a) s' after fun _ _ => True) :
    Ends (act >>= k) s after fun _ _ => True := by
  unfold Ends
  rw [run_bind]
  rcases (act.run s : Except ε α × σ) with ⟨e | a, s'⟩
  · trivial
  · exact hk a s'

theorem and' (h : Ends act s ok stop) (h' : Ends act s ok' stop') :
    Ends act s (fun a t => ok a t ∧ ok' a t) (fun e t => stop e t ∧ stop' e t) := by
  unfold Ends at h h' ⊢
  rcases hr : (act.run s : Except ε α × σ) with ⟨e | a, s'⟩ <;> rw [hr] at h h' <;> exact ⟨h, h'⟩

theorem bind' {k : α → ExceptT ε (StateM σ) β} {after : β → σ → Prop}
    (h : Ends act s ok stop) (hk : ∀ a s', ok a s' → Ends (k a) s' after stop) :
    Ends (act >>= k) s after stop := by
  unfold Ends at h
  unfold Ends
  rw [run_bind]
  rcases hr : (act.run s : Except ε α × σ) with ⟨e | a, s'⟩
  · rw [hr] at h
    exact h
  · rw [hr] at h
    exact hk a s' h

theorem bind_ok {a : α} {s' : σ} {k : α → ExceptT ε (StateM σ) β} {after : β → σ → Prop}
    (h : (act.run s : Except ε α × σ) = (.ok a, s')) (hk : Ends (k a) s' after stop) :
    Ends (act >>= k) s after stop := by
  unfold Ends
  rw [run_bind, h]
  exact hk

theorem stopped {k : α → ExceptT ε (StateM σ) β} {after : β → σ → Prop}
    (h : Ends act s (fun _ _ => False) stop) : Ends (act >>= k) s after stop :=
  h.bind' fun _ _ h' => h'.elim

theorem state {post : σ → Prop} (h : Ends act s (fun _ => post) (fun _ => post)) :
    post (act.run s : Except ε α × σ).2 := by
  unfold Ends at h
  rcases hr : (act.run s : Except ε α × σ) with ⟨e | a, s'⟩ <;> rwa [hr] at h

theorem of_state {post : σ → Prop} (h : post (act.run s : Except ε α × σ).2) :
    Ends act s (fun _ => post) (fun _ => post) := by
  unfold Ends
  rcases hr : (act.run s : Except ε α × σ) with ⟨e | a, s'⟩ <;> rwa [hr] at h

theorem run_eq {r : Except ε α × σ}
    (h : Ends act s (fun a s' => r = (.ok a, s')) fun e s' => r = (.error e, s')) :
    (act.run s : Except ε α × σ) = r := by
  unfold Ends at h
  rcases hr : (act.run s : Except ε α × σ) with ⟨e | a, s'⟩ <;> rw [hr] at h <;> exact h.symm

theorem of_run {r : Except ε α × σ} (h : (act.run s : Except ε α × σ) = r) :
    Ends act s (fun a s' => r = (.ok a, s')) fun e s' => r = (.error e, s') := by
  unfold Ends
  rcases hr : (act.run s : Except ε α × σ) with ⟨e | a, s'⟩ <;> rw [← h, hr]

theorem ok_of_run {a : α} {s' : σ} (h : Ends act s ok stop)
    (hrun : (act.run s : Except ε α × σ) = (.ok a, s')) : ok a s' := by
  unfold Ends at h
  rwa [hrun] at h

theorem stop_of_run {e : ε} {s' : σ} (h : Ends act s ok stop)
    (hrun : (act.run s : Except ε α × σ) = (.error e, s')) : stop e s' := by
  unfold Ends at h
  rwa [hrun] at h

theorem get' {ok : σ → σ → Prop} (h : ok s s) :
    Ends (get : ExceptT ε (StateM σ) σ) s ok stop := h

theorem set' {t : σ} {ok : PUnit → σ → Prop} (h : ok ⟨⟩ t) :
    Ends (set t : ExceptT ε (StateM σ) PUnit) s ok stop := h

theorem modify' {g : σ → σ} {ok : PUnit → σ → Prop} (h : ok ⟨⟩ (g s)) :
    Ends (modify g : ExceptT ε (StateM σ) PUnit) s ok stop := h

theorem bind_throw {e : ε} {k : α → ExceptT ε (StateM σ) β} {after : β → σ → Prop}
    (h : stop e s) : Ends (throw e >>= k) s after stop := h

theorem bind_pure {a : α} {k : α → ExceptT ε (StateM σ) β} {after : β → σ → Prop}
    (h : Ends (k a) s after stop) : Ends (pure a >>= k) s after stop := h

theorem bind_get {k : σ → ExceptT ε (StateM σ) β} {after : β → σ → Prop}
    (h : Ends (k s) s after stop) : Ends (get >>= k) s after stop := h

theorem bind_set {t : σ} {k : PUnit → ExceptT ε (StateM σ) β} {after : β → σ → Prop}
    (h : Ends (k ⟨⟩) t after stop) : Ends (set t >>= k) s after stop := h

theorem bind_modify {g : σ → σ} {k : PUnit → ExceptT ε (StateM σ) β} {after : β → σ → Prop}
    (h : Ends (k ⟨⟩) (g s) after stop) : Ends (modify g >>= k) s after stop := h

theorem ite' {c : Prop} [Decidable c] {other : ExceptT ε (StateM σ) α}
    (hpos : c → Ends act s ok stop) (hneg : ¬ c → Ends other s ok stop) :
    Ends (if c then act else other) s ok stop := by
  by_cases h : c
  · rw [if_pos h]; exact hpos h
  · rw [if_neg h]; exact hneg h

theorem tryCatch' {handler : ε → ExceptT ε (StateM σ) α}
    (h : Ends act s ok fun e s' => Ends (handler e) s' ok stop) :
    Ends (tryCatch act handler) s ok stop := by
  unfold Ends at h
  unfold Ends
  rw [run_tryCatch]
  rcases hr : (act.run s : Except ε α × σ) with ⟨e | a, s'⟩
  · rw [hr] at h
    exact h
  · rw [hr] at h
    exact h

end Ends

/-! ## Runs that keep to a step relation -/

/-- A run of `act` takes the state one `step` further, also when it stops, and
`post` holds of its answer. -/
def Keeps (step : σ → σ → Prop) (act : ExceptT ε (StateM σ) α) (s : σ) (post : α → σ → Prop) :
    Prop :=
  Ends act s (fun a s' => step s s' ∧ post a s') (fun _ s' => step s s')

namespace Keeps

variable {step : σ → σ → Prop} {act : ExceptT ε (StateM σ) α} {s : σ} {post post' : α → σ → Prop}

theorem pure' {a : α} (hs : step s s) (h : post a s) :
    Keeps step (pure a : ExceptT ε (StateM σ) α) s post :=
  Ends.pure' ⟨hs, h⟩

theorem throw' {e : ε} (hs : step s s) : Keeps step (throw e : ExceptT ε (StateM σ) α) s post :=
  Ends.throw' hs

theorem mono (h : Keeps step act s post) (hp : ∀ a s', step s s' → post a s' → post' a s') :
    Keeps step act s post' :=
  Ends.mono h (fun a s' h' => ⟨h'.1, hp a s' h'.1 h'.2⟩) (fun _ _ h' => h')

theorem ok {a : α} {s' : σ} (h : Keeps step act s post)
    (hr : (act.run s : Except ε α × σ) = (.ok a, s')) : step s s' ∧ post a s' := by
  unfold Keeps Ends at h
  rw [hr] at h
  exact h

theorem bind' [Trans step step step] {k : α → ExceptT ε (StateM σ) β} {after : β → σ → Prop}
    (h : Keeps step act s post)
    (hk : ∀ a s', step s s' → post a s' → Keeps step (k a) s' after) :
    Keeps step (act >>= k) s after := by
  refine Ends.bind' h fun a s' h' => ?_
  refine Ends.mono (hk a s' h'.1 h'.2) ?_ ?_
  · exact fun x s'' h'' => ⟨Trans.trans h'.1 h''.1, h''.2⟩
  · exact fun _ s'' h'' => Trans.trans h'.1 h''

theorem ite' {c : Prop} [Decidable c] {other : ExceptT ε (StateM σ) α}
    (hpos : c → Keeps step act s post) (hneg : ¬ c → Keeps step other s post) :
    Keeps step (if c then act else other) s post :=
  Ends.ite' hpos hneg

theorem get' (hs : step s s) :
    Keeps step (get : ExceptT ε (StateM σ) σ) s (fun a s' => s = a ∧ s = s') :=
  Ends.get' ⟨hs, rfl, rfl⟩

theorem set' {t : σ} (hs : step s t) :
    Keeps step (set t : ExceptT ε (StateM σ) PUnit) s (fun _ s' => t = s') :=
  Ends.set' ⟨hs, rfl⟩

theorem modify' {g : σ → σ} (hs : step s (g s)) :
    Keeps step (modify g : ExceptT ε (StateM σ) PUnit) s (fun _ s' => g s = s') :=
  Ends.modify' ⟨hs, rfl⟩

end Keeps

/-! ## Runs from two states -/

/-- From `s` and `s'` a run of `act` answers the same or stops with the same,
and leaves states that `R` relates. -/
def Agree (R : σ → σ → Prop) (act : ExceptT ε (StateM σ) α) (s s' : σ) : Prop :=
  (act.run s' : Except ε α × σ).1 = (act.run s : Except ε α × σ).1 ∧
    R (act.run s : Except ε α × σ).2 (act.run s' : Except ε α × σ).2

def Respects (R : σ → σ → Prop) (act : ExceptT ε (StateM σ) α) : Prop :=
  ∀ s s', R s s' → Agree R act s s'

namespace Agree

variable {R : σ → σ → Prop} {act : ExceptT ε (StateM σ) α} {s s' : σ}

theorem bind' {k : α → ExceptT ε (StateM σ) β} (h : Agree R act s s')
    (hk : ∀ a s₁ s₁', (act.run s : Except ε α × σ) = (.ok a, s₁) → R s₁ s₁' → Agree R (k a) s₁ s₁') :
    Agree R (act >>= k) s s' := by
  obtain ⟨hanswer, hafter⟩ := h
  unfold Agree
  rw [run_bind, run_bind]
  rcases hr : (act.run s : Except ε α × σ) with ⟨answer, s₁⟩
  rcases hr' : (act.run s' : Except ε α × σ) with ⟨answer', s₁'⟩
  rw [hr, hr'] at hanswer hafter
  obtain rfl : answer' = answer := hanswer
  cases answer' with
  | error e => exact ⟨rfl, hafter⟩
  | ok a => exact hk a _ _ hr hafter

theorem tryCatch' {handler : ε → ExceptT ε (StateM σ) α} (h : Agree R act s s')
    (hh : ∀ e s₁ s₁', R s₁ s₁' → Agree R (handler e) s₁ s₁') :
    Agree R (tryCatch act handler) s s' := by
  obtain ⟨hanswer, hafter⟩ := h
  unfold Agree
  rw [run_tryCatch, run_tryCatch]
  rcases hr : (act.run s : Except ε α × σ) with ⟨answer, s₁⟩
  rcases hr' : (act.run s' : Except ε α × σ) with ⟨answer', s₁'⟩
  rw [hr, hr'] at hanswer hafter
  obtain rfl : answer' = answer := hanswer
  cases answer' with
  | error e => exact hh e _ _ hafter
  | ok a => exact ⟨rfl, hafter⟩

theorem ite' {c : Prop} [Decidable c] {other : ExceptT ε (StateM σ) α}
    (hpos : c → Agree R act s s') (hneg : ¬ c → Agree R other s s') :
    Agree R (if c then act else other) s s' := by
  by_cases h : c
  · rw [if_pos h]; exact hpos h
  · rw [if_neg h]; exact hneg h

end Agree

namespace Respects

variable {R : σ → σ → Prop} {act : ExceptT ε (StateM σ) α}

theorem pure' (a : α) : Respects R (pure a : ExceptT ε (StateM σ) α) := fun _ _ h => ⟨rfl, h⟩

theorem throw' (e : ε) : Respects R (throw e : ExceptT ε (StateM σ) α) := fun _ _ h => ⟨rfl, h⟩

theorem bind' {k : α → ExceptT ε (StateM σ) β} (h : Respects R act) (hk : ∀ a, Respects R (k a)) :
    Respects R (act >>= k) :=
  fun s s' hs => (h s s' hs).bind' fun a s₁ s₁' _ => hk a s₁ s₁'

theorem ite' {c : Prop} [Decidable c] {other : ExceptT ε (StateM σ) α}
    (hpos : c → Respects R act) (hneg : ¬ c → Respects R other) :
    Respects R (if c then act else other) :=
  fun s s' hs => .ite' (fun hc => hpos hc s s' hs) fun hc => hneg hc s s' hs

theorem bind_get {k : σ → ExceptT ε (StateM σ) α}
    (h : ∀ s s', R s s' →
      ((k s').run s' : Except ε α × σ).1 = ((k s).run s : Except ε α × σ).1 ∧
      R ((k s).run s : Except ε α × σ).2 ((k s').run s' : Except ε α × σ).2) :
    Respects R (get >>= k) := h

theorem modify' {g : σ → σ} (h : ∀ s s', R s s' → R (g s) (g s')) :
    Respects R (modify g : ExceptT ε (StateM σ) PUnit) := fun s s' hs => ⟨rfl, h s s' hs⟩

end Respects

/-! ## Operations that keep to a step relation from every state -/

/-- Whatever the state, `act` takes it one `step` further, also when it stops. -/
def Leaves (step : σ → σ → Prop) (act : ExceptT ε (StateM σ) α) : Prop :=
  ∀ s, step s (act.run s : Except ε α × σ).2

namespace Leaves

variable {step : σ → σ → Prop} {act : ExceptT ε (StateM σ) α}

theorem ends (h : Leaves step act) (s : σ) :
    Ends act s (fun _ s' => step s s') (fun _ s' => step s s') :=
  Ends.of_state (h s)

theorem mono {step' : σ → σ → Prop} (h : Leaves step act)
    (himp : ∀ s s', step s s' → step' s s') : Leaves step' act :=
  fun s => himp s _ (h s)

/-- What leaves every state as it is keeps any relation. -/
theorem still [Std.Refl step] (h : Leaves Eq act) : Leaves step act :=
  h.mono fun s _ hs => hs ▸ Std.Refl.refl s

theorem pure' [Std.Refl step] (a : α) : Leaves step (pure a : ExceptT ε (StateM σ) α) :=
  fun s => Std.Refl.refl s

theorem throw' [Std.Refl step] (e : ε) : Leaves step (throw e : ExceptT ε (StateM σ) α) :=
  fun s => Std.Refl.refl s

theorem bind_pure {a : α} {k : α → ExceptT ε (StateM σ) β} (h : Leaves step (k a)) :
    Leaves step ((pure a : ExceptT ε (StateM σ) α) >>= k) := h

theorem bind_throw [Std.Refl step] {e : ε} {k : α → ExceptT ε (StateM σ) β} :
    Leaves step ((throw e : ExceptT ε (StateM σ) α) >>= k) :=
  fun s => Std.Refl.refl s

theorem get' [Std.Refl step] : Leaves step (get : ExceptT ε (StateM σ) σ) :=
  fun s => Std.Refl.refl s

theorem modify' {g : σ → σ} (h : ∀ s, step s (g s)) :
    Leaves step (modify g : ExceptT ε (StateM σ) PUnit) := h

theorem bind' [Trans step step step] {k : α → ExceptT ε (StateM σ) β} (h : Leaves step act)
    (hk : ∀ a, Leaves step (k a)) : Leaves step (act >>= k) := by
  intro s
  have hs := h s
  rw [run_bind]
  rcases hr : (act.run s : Except ε α × σ) with ⟨e | a, s'⟩
  · rwa [hr] at hs
  · rw [hr] at hs
    exact Trans.trans hs (hk a s')

theorem tryCatch' [Trans step step step] {handler : ε → ExceptT ε (StateM σ) α}
    (h : Leaves step act) (hh : ∀ e, Leaves step (handler e)) :
    Leaves step (tryCatch act handler) := by
  intro s
  have hs := h s
  rw [run_tryCatch]
  rcases hr : (act.run s : Except ε α × σ) with ⟨e | a, s'⟩
  · rw [hr] at hs
    exact Trans.trans hs (hh e s')
  · rwa [hr] at hs

theorem ite' {c : Prop} [Decidable c] {other : ExceptT ε (StateM σ) α} (hpos : Leaves step act)
    (hneg : Leaves step other) : Leaves step (if c then act else other) := by
  by_cases h : c
  · rw [if_pos h]; exact hpos
  · rw [if_neg h]; exact hneg

theorem bind_get {k : σ → ExceptT ε (StateM σ) α}
    (h : ∀ s, step s ((k s).run s : Except ε α × σ).2) : Leaves step (get >>= k) := h

theorem forM' [Std.Refl step] [Trans step step step] {γ : Type}
    {f : γ → ExceptT ε (StateM σ) PUnit} (xs : List γ) (h : ∀ x, Leaves step (f x)) :
    Leaves step (xs.forM f) := by
  induction xs with
  | nil => exact pure' _
  | cons x xs ih => exact bind' (h x) fun _ => ih

theorem mapM' [Std.Refl step] [Trans step step step] {γ : Type}
    {f : γ → ExceptT ε (StateM σ) β} (xs : List γ) (h : ∀ x, Leaves step (f x)) :
    Leaves step (xs.mapM f) := by
  induction xs with
  | nil => exact pure' _
  | cons x xs ih =>
    rw [List.mapM_cons]
    exact bind' (h x) fun _ => bind' ih fun _ => pure' _

end Leaves

def Onward (p : σ → Prop) (s s' : σ) : Prop := p s → p s'

instance (p : σ → Prop) : Std.Refl (Onward p) := ⟨fun _ => id⟩

instance (p : σ → Prop) : Trans (Onward p) (Onward p) (Onward p) := ⟨fun h h' => h' ∘ h⟩

end TypedIR
