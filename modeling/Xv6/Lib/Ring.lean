import Mathlib

/-!
# Ring buffers with free-running counters

A buffer of `N` slots indexed by `uint` counters that only ever go up (or step back by one), each
reduced `% N` when it picks a slot, as the pipe and the console input buffer do. When `N` divides
`2^32`, the wrap of a counter past `2^32` does not move its slot (`slot_toNat`), and the contents
between two counters are a list: `view N buf r len`, the `len` slots from the counter `r` on. A
store at the slot after the view appends to it while the view is shorter than `N` (`view_push`),
and the view from `r + 1` is the view from `r` without its first slot (`view_pop`). The distance
between two counters, `(w - r).toNat`, moves by one with each step (`dist_succ`, `dist_pred`).
-/

namespace Ring

variable {α : Type} {N : Nat}

/-- The `len` slots of `buf` from the counter `r` on. -/
def view (N : Nat) (buf : Nat → α) (r : UInt32) (len : Nat) : List α :=
  (List.range len).map fun k => buf ((r + UInt32.ofNat k) % UInt32.ofNat N).toNat

@[simp] lemma length_view (buf : Nat → α) (r : UInt32) (len : Nat) : (view N buf r len).length = len := by
  simp [view]

section Slots

variable (hN : N ∣ 2 ^ 32)
include hN

/-- The slot of the counter `a + k`: the wrap at `2^32` is a multiple of `N`. -/
lemma slot_toNat (a : UInt32) (k : Nat) :
    ((a + UInt32.ofNat k) % UInt32.ofNat N).toNat = (a.toNat + k) % N := by
  rw [UInt32.toNat_mod, UInt32.toNat_add, UInt32.toNat_ofNat', UInt32.toNat_ofNat']
  have hk : k % 2 ^ 32 % N = k % N := Nat.mod_mod_of_dvd k hN
  rcases (Nat.le_of_dvd (by norm_num) hN).lt_or_eq with hlt | heq
  · rw [Nat.mod_eq_of_lt hlt, Nat.mod_mod_of_dvd _ hN, Nat.add_mod, hk, ← Nat.add_mod]
  · -- `N = 2^32`: the slot is the counter itself
    subst heq
    rw [Nat.mod_self, Nat.mod_zero, Nat.add_mod, Nat.mod_mod, ← Nat.add_mod]

/-- A store at the slot after a view shorter than `N` appends to it. -/
lemma view_push (buf : Nat → α) (r : UInt32) {len : Nat} (hlen : len < N) (x : α) :
    view N (Function.update buf ((r + UInt32.ofNat len) % UInt32.ofNat N).toNat x) r (len + 1) =
      view N buf r len ++ [x] := by
  unfold view
  rw [List.range_succ, List.map_append, List.map_singleton, Function.update_self]
  congr 1
  refine List.map_congr_left fun k hk => Function.update_of_ne ?_ _ _
  rw [slot_toNat hN, slot_toNat hN]
  -- two counters less than `N` apart lie in different slots
  intro e
  have hk' : k % N = len % N := Nat.ModEq.add_left_cancel' r.toNat e
  rw [Nat.mod_eq_of_lt (lt_trans (List.mem_range.mp hk) hlen), Nat.mod_eq_of_lt hlen] at hk'
  exact absurd hk' (Nat.ne_of_lt (List.mem_range.mp hk))

/-- The view from `r + 1` is the view from `r` without its first slot. -/
lemma view_pop (buf : Nat → α) (r : UInt32) (len : Nat) :
    view N buf r (len + 1) = buf (r % UInt32.ofNat N).toNat :: view N buf (r + 1) len := by
  unfold view
  rw [List.range_succ_eq_map, List.map_cons, List.map_map, show UInt32.ofNat 0 = 0 from rfl,
    add_zero]
  congr 1
  refine List.map_congr_left fun k _ => congrArg buf ?_
  rw [slot_toNat hN, slot_toNat hN, UInt32.toNat_add, UInt32.toNat_one,
    Nat.add_mod ((r.toNat + 1) % _), Nat.mod_mod_of_dvd _ hN, ← Nat.add_mod]
  congr 1
  omega

end Slots

/-! ## Distances between counters -/

section Dist

variable {w r : UInt32}

/-- One step of the counter ahead lengthens the distance by one, below `2^32 - 1`. -/
lemma dist_succ (h : (w - r).toNat < 2 ^ 32 - 1) : (w + 1 - r).toNat = (w - r).toNat + 1 := by
  rw [show w + 1 - r = (w - r) + 1 by grind, UInt32.toNat_add, UInt32.toNat_one]
  omega

/-- One step of the counter behind shortens a distance that is not `0` by one. -/
lemma dist_pred (h : (w - r).toNat ≠ 0) : (w - (r + 1)).toNat = (w - r).toNat - 1 := by
  rw [show w - (r + 1) = (w - r) - 1 by grind, UInt32.toNat_sub_of_le _ _ (UInt32.le_iff_toNat_le.mpr (by
    rw [UInt32.toNat_one]
    omega))]
  rfl

lemma dist_eq_zero_iff : (w - r).toNat = 0 ↔ w = r := by
  constructor
  · intro e
    have : w - r = 0 := UInt32.toNat_inj.mp e
    grind
  · rintro rfl
    rw [UInt32.sub_self]
    rfl

end Dist

end Ring
