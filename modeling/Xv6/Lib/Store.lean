import Mathlib

/-!
# Stores under a sequence of writes

A store `α → β` (a disk, a memory) changed by a list of single-location writes, applied oldest
first. A program that writes a store one location at a time and may stop at any point leaves it
with some prefix of its writes applied, so the rules here are stated for arbitrary lists and used
on prefixes: how lists compose, which locations a list leaves alone, and what a location holds
after a list whose writes to it all carry one value.
-/

namespace Store

variable {α β : Type*} [DecidableEq α]

/-- Apply the writes `ws`, oldest first, to the store `d`. -/
def apply (d : α → β) : List (α × β) → α → β
  | [] => d
  | w :: ws => apply (Function.update d w.1 w.2) ws

@[simp] lemma apply_nil (d : α → β) : apply d [] = d := rfl

@[simp] lemma apply_cons (d : α → β) (w : α × β) (ws : List (α × β)) :
    apply d (w :: ws) = apply (Function.update d w.1 w.2) ws := rfl

lemma apply_append (d : α → β) (ws vs : List (α × β)) :
    apply d (ws ++ vs) = apply (apply d ws) vs := by
  induction ws generalizing d with
  | nil => rfl
  | cons w ws ih => exact ih _

/-- A location that no write names keeps its value. -/
lemma apply_of_forall_ne (d : α → β) {ws : List (α × β)} {x : α} (h : ∀ w ∈ ws, w.1 ≠ x) :
    apply d ws x = d x := by
  induction ws generalizing d with
  | nil => rfl
  | cons w ws ih =>
    rw [apply_cons, ih _ (fun w' hw' => h w' (List.mem_cons_of_mem _ hw')),
      Function.update_of_ne (h w List.mem_cons_self).symm]

/-- A location whose writes all carry `v`, and that is written at least once, ends with `v`. -/
lemma apply_of_mem (d : α → β) {ws : List (α × β)} {x : α} {v : β}
    (hv : ∀ w ∈ ws, w.1 = x → w.2 = v) (hx : ∃ w ∈ ws, w.1 = x) : apply d ws x = v := by
  induction ws generalizing d with
  | nil => simp at hx
  | cons w ws ih =>
    rw [apply_cons]
    by_cases hrest : ∃ w' ∈ ws, w'.1 = x
    · exact ih _ (fun w' hw' => hv w' (List.mem_cons_of_mem _ hw')) hrest
    · have hw : w.1 = x := by
        obtain ⟨w', hw', e⟩ := hx
        rcases List.mem_cons.1 hw' with rfl | hw'
        · exact e
        · exact absurd ⟨w', hw', e⟩ hrest
      have hnot : ∀ w' ∈ ws, w'.1 ≠ x := fun w' hw' e => hrest ⟨w', hw', e⟩
      rw [apply_of_forall_ne _ hnot, ← hw, Function.update_self, hv w List.mem_cons_self hw]

/-- Writes of the values a store already holds change nothing. -/
lemma apply_of_agree (d : α → β) {ws : List (α × β)} (h : ∀ w ∈ ws, d w.1 = w.2) :
    apply d ws = d := by
  funext x
  by_cases hx : ∃ w ∈ ws, w.1 = x
  · obtain ⟨w, hw, rfl⟩ := hx
    exact apply_of_mem d (fun w' hw' e => by rw [← h w' hw', e]) ⟨w, hw, rfl⟩
  · exact apply_of_forall_ne d fun w hw e => hx ⟨w, hw, e⟩

/-- Writing `f a` at every location `a` of a list: the listed locations hold `f`, the others are
untouched. -/
lemma apply_map (d : α → β) (xs : List α) (f : α → β) (x : α) :
    apply d (xs.map fun a => (a, f a)) x = if x ∈ xs then f x else d x := by
  split
  · rename_i hx
    refine apply_of_mem d (fun w hw e => ?_) ⟨(x, f x), List.mem_map_of_mem hx, rfl⟩
    obtain ⟨a, -, rfl⟩ := List.mem_map.1 hw
    cases e
    rfl
  · rename_i hx
    refine apply_of_forall_ne d fun w hw e => hx ?_
    obtain ⟨a, ha, rfl⟩ := List.mem_map.1 hw
    exact e ▸ ha

end Store
