import Mathlib

/-!
# Singly linked lists through a store

A list threaded through a store: each cell's `next` field names the following cell and the last
one names `nil`. `Chain next nil head l` says that following `next` from `head` visits exactly
the cells of `l` and then reaches `nil`. The lemmas say how pushing a cell in front and popping
the head change the chain, and that a change to `next` at cells off the chain does not.
-/

namespace SList

variable {α : Type} (next : α → α) (nil : α)

/-- Following `next` from `head` visits the cells of `l`, in order, and then reaches `nil`. -/
def Chain : α → List α → Prop
  | head, [] => head = nil
  | head, x :: l => head = x ∧ x ≠ nil ∧ Chain (next x) l

variable {next nil}

@[simp] lemma chain_nil {head : α} : Chain next nil head [] ↔ head = nil := Iff.rfl

@[simp] lemma chain_cons {head x : α} {l : List α} :
    Chain next nil head (x :: l) ↔ head = x ∧ x ≠ nil ∧ Chain next nil (next x) l := Iff.rfl

/-- A chain is determined by its head. -/
lemma Chain.unique {head : α} {l l' : List α} (h : Chain next nil head l)
    (h' : Chain next nil head l') : l = l' := by
  induction l generalizing head l' with
  | nil =>
    cases l' with
    | nil => rfl
    | cons y l' => exact absurd (h'.1.symm.trans h) h'.2.1
  | cons x l ih =>
    cases l' with
    | nil => exact absurd (h.1.symm.trans h') h.2.1
    | cons y l' =>
      obtain rfl := h.1.symm.trans h'.1
      rw [ih h.2.2 h'.2.2]

/-- No cell of a chain is `nil`. -/
lemma Chain.ne_nil {head : α} {l : List α} (h : Chain next nil head l) {x : α} (hx : x ∈ l) :
    x ≠ nil := by
  induction l generalizing head with
  | nil => cases hx
  | cons y l ih =>
    rcases List.mem_cons.mp hx with rfl | hx
    · exact h.2.1
    · exact ih h.2.2 hx

/-- The chain only reads `next` at its own cells. -/
lemma Chain.congr {next' : α → α} {head : α} {l : List α} (h : Chain next nil head l)
    (hnext : ∀ x ∈ l, next' x = next x) : Chain next' nil head l := by
  induction l generalizing head with
  | nil => exact h
  | cons x l ih =>
    refine ⟨h.1, h.2.1, ?_⟩
    rw [hnext x List.mem_cons_self]
    exact ih h.2.2 fun y hy => hnext y (List.mem_cons_of_mem x hy)

/-- Pushing a new cell `x` in front: its `next` is the old head, and no other cell changes. -/
lemma Chain.push {next' : α → α} {head x : α} {l : List α} (h : Chain next nil head l)
    (hx : x ≠ nil) (hnext : next' x = head) (hother : ∀ y ∈ l, next' y = next y) :
    Chain next' nil x (x :: l) :=
  ⟨rfl, hx, hnext ▸ h.congr hother⟩

/-- Popping the head leaves the chain from its `next`. -/
lemma Chain.tail {head x : α} {l : List α} (h : Chain next nil head (x :: l)) :
    Chain next nil (next x) l := h.2.2

end SList
