import Mathlib

/-!
# Transition systems

A transition system is a predicate on initial states and a step relation. A state is reachable
when some run of steps leads to it from an initial state; an invariant holds of every reachable
state, and an action invariant of every step taken from one.

`Refines C A f` says that the system `C` refines `A` under the mapping `f`: an initial state of
`C` maps to an initial state of `A`, and each step of `C` from a reachable state maps to a step of
`A` or leaves the image unchanged (a stutter). The image of every reachable state of `C` is then
reachable in `A` (`Refines.reachable`), so every invariant of `A` holds of `C` read through `f`.
-/

namespace Machine

/-- A transition system over the states `σ`. -/
structure System (σ : Type) where
  init : σ → Prop
  next : σ → σ → Prop

variable {σ τ : Type}

/-- The states some run of `S` reaches. -/
inductive Reachable (S : System σ) : σ → Prop
  | init {s : σ} : S.init s → Reachable S s
  | step {s t : σ} : Reachable S s → S.next s t → Reachable S t

/-- The inductive-invariant rule: a predicate of the initial states that every step from a
reachable state keeps holds of every reachable state. -/
theorem Reachable.invariant {S : System σ} {I : σ → Prop} (hinit : ∀ s, S.init s → I s)
    (hstep : ∀ s t, Reachable S s → I s → S.next s t → I t) {s : σ} (hs : Reachable S s) :
    I s := by
  induction hs with
  | init h => exact hinit _ h
  | step hr hn ih => exact hstep _ _ hr ih hn

/-- `C` refines `A` under `f`, up to stuttering. -/
structure Refines (C : System σ) (A : System τ) (f : σ → τ) : Prop where
  init : ∀ s, C.init s → A.init (f s)
  step : ∀ s t, Reachable C s → C.next s t → A.next (f s) (f t) ∨ f t = f s

/-- A refinement maps reachable states to reachable states. -/
theorem Refines.reachable {C : System σ} {A : System τ} {f : σ → τ} (hr : Refines C A f)
    {s : σ} (hs : Reachable C s) : Reachable A (f s) := by
  induction hs with
  | init h => exact .init (hr.init _ h)
  | @step s t hs hn ih =>
    rcases hr.step s t hs hn with h | h
    · exact .step ih h
    · rw [h]
      exact ih

/-- An action invariant of `A` holds of each step of `C` read through `f`, stutters aside. -/
theorem Refines.step_of_reachable {C : System σ} {A : System τ} {f : σ → τ} (hr : Refines C A f)
    {P : τ → τ → Prop} (hP : ∀ a b, Reachable A a → A.next a b → P a b) {s t : σ}
    (hs : Reachable C s) (hn : C.next s t) : P (f s) (f t) ∨ f t = f s :=
  (hr.step s t hs hn).imp_left (hP _ _ (hr.reachable hs))

end Machine
