import Mathlib

/-!
# Programs over a state that may fail

Reasoning rules for `StateT σ (Except ε)`, the monad of a sequential program that reads and
writes a state and may stop with an error. A program's runs are read through `run`: from a
state, it either returns a value and a final state or throws.

The rules invert a successful run: a successful `x >>= f` is a successful `x` followed by a
successful `f`, a successful `throw` does not exist, and a successful `forM` over a list keeps any
invariant that each successful round keeps; a `forM` whose rounds succeed from the invariant
succeeds (`forM_ok`). Proofs about such programs peel a run apart with
these rules and never unfold `bind`.
-/

namespace StateExcept

variable {σ ε α β : Type}

/-- A run of `x >>= f` is a run of `x` followed, on success, by a run of `f`. -/
theorem run_bind (x : StateT σ (Except ε) α) (f : α → StateT σ (Except ε) β) (s : σ) :
    (x >>= f).run s = match x.run s with
      | .ok (a, s') => (f a).run s'
      | .error e => .error e := by
  simp only [StateT.run_bind]
  cases x.run s <;> rfl

/-- Once the run of `x` is known, a run of `x >>= f` goes on with `f`. -/
theorem run_bind_of_eq_ok {x : StateT σ (Except ε) α} {f : α → StateT σ (Except ε) β} {s s' : σ}
    {a : α} (h : x.run s = .ok (a, s')) : (x >>= f).run s = (f a).run s' := by
  rw [run_bind, h]

/-- A run of `x >>= f` in which `x` throws throws the same error. -/
theorem run_bind_of_eq_error {x : StateT σ (Except ε) α} {f : α → StateT σ (Except ε) β} {s : σ}
    {e : ε} (h : x.run s = .error e) : (x >>= f).run s = .error e := by
  rw [run_bind, h]

theorem run_pure (a : α) (s : σ) : (pure a : StateT σ (Except ε) α).run s = .ok (a, s) := rfl

theorem run_get (s : σ) : (get : StateT σ (Except ε) σ).run s = .ok (s, s) := rfl

theorem run_get_bind (f : σ → StateT σ (Except ε) β) (s : σ) : (get >>= f).run s = (f s).run s :=
  rfl

theorem run_modify (f : σ → σ) (s : σ) :
    (modify f : StateT σ (Except ε) PUnit).run s = .ok ((), f s) := rfl

theorem run_set (s' s : σ) : (set s' : StateT σ (Except ε) PUnit).run s = .ok ((), s') := rfl

@[simp] theorem run_bind_eq_ok {x : StateT σ (Except ε) α} {f : α → StateT σ (Except ε) β} {s : σ}
    {r : β × σ} : (x >>= f).run s = .ok r ↔ ∃ a s', x.run s = .ok (a, s') ∧ (f a).run s' = .ok r := by
  simp only [StateT.run_bind]
  cases x.run s with
  | error e => simp [bind, Except.bind]
  | ok p =>
    obtain ⟨a, s'⟩ := p
    simp [bind, Except.bind]

@[simp] theorem run_pure_eq_ok {a : α} {s : σ} {r : α × σ} :
    (pure a : StateT σ (Except ε) α).run s = .ok r ↔ r = (a, s) := by
  rw [StateT.run_pure]
  simp [pure, Except.pure, eq_comm]

@[simp] theorem run_get_eq_ok {s : σ} {r : σ × σ} :
    (get : StateT σ (Except ε) σ).run s = .ok r ↔ r = (s, s) := by
  rw [StateT.run_get]
  simp [pure, Except.pure, eq_comm]

@[simp] theorem run_modify_eq_ok {f : σ → σ} {s : σ} {r : PUnit × σ} :
    (modify f : StateT σ (Except ε) PUnit).run s = .ok r ↔ r = ((), f s) := by
  rw [StateT.run_modify]
  simp [pure, Except.pure, eq_comm]

@[simp] theorem run_throw_ne_ok {e : ε} {s : σ} {r : α × σ} :
    ¬ (throw e : StateT σ (Except ε) α).run s = .ok r := by
  simp [throw, throwThe, MonadExceptOf.throw, bind, Except.bind]

/-- The value of an `Except` that succeeded, `a` otherwise. -/
def okOr (r : Except ε α) (a : α) : α :=
  match r with
  | .ok x => x
  | .error _ => a

/-- An `Except` that a decision procedure has checked to succeed is `.ok` of its value. -/
theorem eq_ok_okOr {r : Except ε α} (a : α) (h : r.toBool = true) : r = .ok (okOr r a) := by
  cases r with
  | error e => cases h
  | ok x => rfl

/-- Without a state: a successful `x >>= f` in `Except` is a successful `x` followed by a
successful `f`. -/
theorem bind_eq_ok {x : Except ε α} {f : α → Except ε β} {b : β} :
    x >>= f = .ok b ↔ ∃ a, x = .ok a ∧ f a = .ok b := by
  cases x with
  | error e => simp [bind, Except.bind]
  | ok a => simp [bind, Except.bind]

/-- A successful `forM` keeps every invariant that each successful round keeps. The invariant
may depend on the rounds done so far. -/
theorem forM_inv {xs : List β} {f : β → StateT σ (Except ε) PUnit} (I : List β → σ → Prop)
    (step : ∀ ys x zs, xs = ys ++ x :: zs → ∀ s s', I ys s → (f x).run s = .ok ((), s') →
      I (ys ++ [x]) s')
    {s s' : σ} (hs : I [] s) (h : (forM xs f).run s = .ok ((), s')) : I xs s' := by
  induction xs generalizing I s with
  | nil =>
    simp only [List.forM_nil, run_pure_eq_ok, Prod.mk.injEq] at h
    rw [h.2]
    exact hs
  | cons x xs ih =>
    simp only [List.forM_cons, run_bind_eq_ok] at h
    obtain ⟨_, s₁, h₁, h₂⟩ := h
    have hs₁ : I [x] s₁ := step [] x xs rfl s s₁ hs h₁
    exact ih (fun ys => I (x :: ys))
      (fun ys y zs e t t' ht hr => step (x :: ys) y zs (by rw [e]; rfl) t t' ht hr) hs₁ h₂

/-- A successful `forM` keeps every invariant that each of its successful rounds keeps. -/
theorem forM_inv' {xs : List β} {f : β → StateT σ (Except ε) PUnit} (I : σ → Prop)
    (step : ∀ x ∈ xs, ∀ s s', I s → (f x).run s = .ok ((), s') → I s') {s s' : σ} (hs : I s)
    (h : (forM xs f).run s = .ok ((), s')) : I s' :=
  forM_inv (fun _ => I) (fun ys x zs e t t' ht hr => step x (by simp [e]) t t' ht hr) hs h

/-- A `forM` whose every round succeeds from a state of the invariant, and keeps it, succeeds.
The invariant may depend on the rounds done so far. -/
theorem forM_ok {xs : List β} {f : β → StateT σ (Except ε) PUnit} (I : List β → σ → Prop)
    (step : ∀ ys x zs, xs = ys ++ x :: zs → ∀ s, I ys s → ∃ s', (f x).run s = .ok ((), s') ∧
      I (ys ++ [x]) s')
    {s : σ} (hs : I [] s) : ∃ s', (forM xs f).run s = .ok ((), s') ∧ I xs s' := by
  induction xs generalizing I s with
  | nil => exact ⟨s, rfl, hs⟩
  | cons x xs ih =>
    obtain ⟨s₁, h₁, hs₁⟩ := step [] x xs rfl s hs
    obtain ⟨s', h', hs'⟩ := ih (fun ys => I (x :: ys))
      (fun ys y zs e t ht => step (x :: ys) y zs (by rw [e]; rfl) t ht) hs₁
    refine ⟨s', ?_, hs'⟩
    rw [List.forM_cons, run_bind_of_eq_ok h₁]
    exact h'

/-! ## Relations a program keeps -/

/-- Every successful run of `x` ends in a state related to its first one by `R`. -/
def Preserves (R : σ → σ → Prop) (x : StateT σ (Except ε) α) : Prop :=
  ∀ ⦃s a s'⦄, x.run s = .ok (a, s') → R s s'

namespace Preserves

variable {R : σ → σ → Prop}

theorem pure [Std.Refl R] (a : α) : Preserves R (pure a : StateT σ (Except ε) α) := by
  intro s b s' h
  obtain ⟨-, rfl⟩ := Prod.mk.inj (run_pure_eq_ok.mp h)
  exact Std.Refl.refl _

theorem get [Std.Refl R] : Preserves R (get : StateT σ (Except ε) σ) := by
  intro s b s' h
  obtain ⟨-, rfl⟩ := Prod.mk.inj (run_get_eq_ok.mp h)
  exact Std.Refl.refl _

theorem throw (e : ε) : Preserves R (throw e : StateT σ (Except ε) α) :=
  fun _ _ _ h => absurd h run_throw_ne_ok

/-- A run that throws first has no successful end. -/
theorem throw_bind (e : ε) (f : α → StateT σ (Except ε) β) :
    Preserves R ((MonadExcept.throw e : StateT σ (Except ε) α) >>= f) := by
  intro s b s' h
  obtain ⟨a, s₁, h₁, -⟩ := run_bind_eq_ok.mp h
  exact absurd h₁ run_throw_ne_ok

theorem modify {f : σ → σ} (h : ∀ s, R s (f s)) : Preserves R (modify f : StateT σ (Except ε) PUnit) := by
  intro s b s' hr
  obtain ⟨-, rfl⟩ := Prod.mk.inj (run_modify_eq_ok.mp hr)
  exact h s

theorem bind [IsTrans σ R] {x : StateT σ (Except ε) α} {f : α → StateT σ (Except ε) β}
    (hx : Preserves R x) (hf : ∀ a, Preserves R (f a)) : Preserves R (x >>= f) := by
  intro s b s' h
  obtain ⟨a, s₁, h₁, h₂⟩ := run_bind_eq_ok.mp h
  exact IsTrans.trans _ _ _ (hx h₁) (hf a h₂)

theorem ite {c : Prop} [Decidable c] {x y : StateT σ (Except ε) α} (hx : Preserves R x)
    (hy : Preserves R y) : Preserves R (if c then x else y) := by
  split
  · exact hx
  · exact hy

theorem forM [IsPreorder σ R] {xs : List β} {f : β → StateT σ (Except ε) PUnit}
    (h : ∀ b ∈ xs, Preserves R (f b)) : Preserves R (forM xs f) := by
  intro s u s' hr
  exact forM_inv (fun _ t => R s t)
    (fun _ b _ e t t' ht hb => IsTrans.trans _ _ _ ht (h b (by simp [e]) hb)) (Std.Refl.refl s) hr

/-- A relation kept is kept again by any weaker one. -/
theorem mono {R' : σ → σ → Prop} {x : StateT σ (Except ε) α} (hx : Preserves R x)
    (h : ∀ s s', R s s' → R' s s') : Preserves R' x :=
  fun _ _ _ hr => h _ _ (hx hr)

end Preserves

/-! ## What a program's final state satisfies -/

/-- Every successful run of `x` ends in a state that satisfies `Q`. -/
def Ensures (Q : σ → Prop) (x : StateT σ (Except ε) α) : Prop :=
  ∀ ⦃s a s'⦄, x.run s = .ok (a, s') → Q s'

namespace Ensures

variable {Q : σ → Prop}

/-- Only the last action decides. -/
theorem bind {x : StateT σ (Except ε) α} {f : α → StateT σ (Except ε) β}
    (hf : ∀ a, Ensures Q (f a)) : Ensures Q (x >>= f) := by
  intro s b s' h
  obtain ⟨a, s₁, -, h₂⟩ := run_bind_eq_ok.mp h
  exact hf a h₂

theorem ite {c : Prop} [Decidable c] {x y : StateT σ (Except ε) α} (hx : Ensures Q x)
    (hy : Ensures Q y) : Ensures Q (if c then x else y) := by
  split
  · exact hx
  · exact hy

theorem modify {f : σ → σ} (h : ∀ s, Q (f s)) : Ensures Q (modify f : StateT σ (Except ε) PUnit) := by
  intro s b s' hr
  obtain ⟨-, rfl⟩ := Prod.mk.inj (run_modify_eq_ok.mp hr)
  exact h s

end Ensures

end StateExcept
