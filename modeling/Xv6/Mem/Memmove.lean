import Mathlib

/-!
# `memmove`

Model of `memmove` of `kernel/string.c` (count a `uint`) and of `user/ulib.c` (count an `int`),
over a byte memory indexed by address. An address is a `Nat`: a region `[a, a + n)` of the
address space does not wrap, so the pointer comparisons and sums of the C code are the ones on
`Nat`.

Both functions copy with one of two loops: `copyUp` (`*d++ = *s++`) from the low ends, or
`copyDown` (`*--d = *--s`) from the high ends, after advancing both pointers by `n`. They choose
with different tests: the kernel copies down when `src < dst` and the regions overlap, the user
library whenever `src <= dst`. Each loop is correct exactly when it reads every source byte
before it overwrites it (`copyUp_moved`, `copyDown_moved`), and both tests pick such a loop for
every pair of regions (`memmove_moved`, `umemmove_moved`). The user library's loops run `n` times
for `n > 0` and not at all otherwise, so a count `n <= 0` changes nothing.
-/

namespace Xv6

/-- Byte memory: the byte at each address. -/
abbrev Mem := Nat → UInt8

namespace Memmove

/-- `while (n-- > 0) *d++ = *s++;` -/
def copyUp : Nat → Nat → Nat → Mem → Mem
  | 0, _, _, m => m
  | n + 1, s, d, m => copyUp n (s + 1) (d + 1) (Function.update m d (m s))

/-- `while (n-- > 0) *--d = *--s;`, from the ends `s` and `d` of the regions. -/
def copyDown : Nat → Nat → Nat → Mem → Mem
  | 0, _, _, m => m
  | n + 1, s, d, m => copyDown n (s - 1) (d - 1) (Function.update m (d - 1) (m (s - 1)))

/-- `memmove(dst, src, n)` of `kernel/string.c`. -/
def memmove (m : Mem) (dst src : Nat) (n : UInt32) : Mem :=
  if n == 0 then m
  else if src < dst && src + n.toNat > dst then copyDown n.toNat (src + n.toNat) (dst + n.toNat) m
  else copyUp n.toNat src dst m

/-- `memmove(vdst, vsrc, n)` of `user/ulib.c`. For `n <= 0` the C code moves both pointers back
by `-n` and runs no round; the model runs no round. -/
def umemmove (m : Mem) (dst src : Nat) (n : Int32) : Mem :=
  if src > dst then copyUp n.toInt.toNat src dst m
  else copyDown n.toInt.toNat (src + n.toInt.toNat) (dst + n.toInt.toNat) m

/-- `m'` is `m` after the `n` bytes at `src` were moved to `dst`: the region at `dst` holds the
old bytes of the region at `src`, and every byte outside the region at `dst` is unchanged. -/
def Moved (m m' : Mem) (dst src n : Nat) : Prop :=
  (∀ i < n, m' (dst + i) = m (src + i)) ∧ ∀ a, a < dst ∨ dst + n ≤ a → m' a = m a

/-- Copying up is right when no byte is overwritten before it is read: the source starts at or
above the destination, or ends at or below it. -/
theorem copyUp_moved : ∀ (n s d : Nat) (m : Mem), d ≤ s ∨ s + n ≤ d →
    Moved m (copyUp n s d m) d s n
  | 0, s, d, m, _ => ⟨fun _ hi => absurd hi (Nat.not_lt_zero _), fun _ _ => rfl⟩
  | n + 1, s, d, m, h => by
    -- the first round writes `d`; the rest is a move of `n` bytes that never reads `d`
    rw [copyUp]
    set m₁ := Function.update m d (m s) with hm₁
    obtain ⟨hin, hout⟩ := copyUp_moved n (s + 1) (d + 1) m₁ (by omega)
    have hread : ∀ i < n, m₁ (s + 1 + i) = m (s + 1 + i) := fun i hi =>
      Function.update_of_ne (by omega) _ _
    refine ⟨fun i hi => ?_, fun a ha => ?_⟩
    · rcases Nat.eq_zero_or_pos i with rfl | hpos
      · simp only [Nat.add_zero]
        rw [hout d (.inl (Nat.lt_succ_self d)), hm₁, Function.update_self]
      · have e₁ : d + i = d + 1 + (i - 1) := by omega
        have e₂ : s + i = s + 1 + (i - 1) := by omega
        rw [e₁, e₂, hin (i - 1) (by omega), hread (i - 1) (by omega)]
    · rw [hout a (by omega), hm₁, Function.update_of_ne (by omega)]

/-- Copying down from the ends `s` and `d` is right when the source region lies at or below the
destination region, or ends at or below its start. -/
theorem copyDown_moved : ∀ (n s d : Nat) (m : Mem), n ≤ s → n ≤ d → s ≤ d ∨ s ≤ d - n →
    Moved m (copyDown n s d m) (d - n) (s - n) n
  | 0, s, d, m, _, _, _ => ⟨fun _ hi => absurd hi (Nat.not_lt_zero _), fun _ _ => rfl⟩
  | n + 1, s, d, m, hs, hd, h => by
    -- the first round writes `d - 1`; the rest is a move of `n` bytes below it that never
    -- reads `d - 1`
    rw [copyDown]
    set m₁ := Function.update m (d - 1) (m (s - 1)) with hm₁
    obtain ⟨hin, hout⟩ := copyDown_moved n (s - 1) (d - 1) m₁ (by omega) (by omega) (by omega)
    have hread : ∀ i < n, m₁ (s - 1 - n + i) = m (s - 1 - n + i) := fun i hi =>
      Function.update_of_ne (by omega) _ _
    refine ⟨fun i hi => ?_, fun a ha => ?_⟩
    · by_cases hlast : i = n
      · subst hlast
        have e₁ : d - (i + 1) + i = d - 1 := by omega
        have e₂ : s - (i + 1) + i = s - 1 := by omega
        rw [e₁, e₂, hout (d - 1) (.inr (by omega)), hm₁, Function.update_self]
      · have e₁ : d - (n + 1) + i = d - 1 - n + i := by omega
        have e₂ : s - (n + 1) + i = s - 1 - n + i := by omega
        rw [e₁, e₂, hin i (by omega), hread i (by omega)]
    · rw [hout a (by omega), hm₁, Function.update_of_ne (by omega)]

/-- The kernel `memmove` moves the region, for every pair of regions and every count. -/
theorem memmove_moved (m : Mem) (dst src : Nat) (n : UInt32) :
    Moved m (memmove m dst src n) dst src n.toNat := by
  unfold memmove
  by_cases h0 : n = 0
  · subst h0
    exact ⟨fun _ hi => absurd hi (by simp), fun _ _ => rfl⟩
  rw [if_neg (by simpa using h0)]
  by_cases hover : src < dst ∧ src + n.toNat > dst
  · -- `src` below `dst` and overlapping: copy down from the ends
    rw [if_pos (by simpa using hover)]
    have h := copyDown_moved n.toNat (src + n.toNat) (dst + n.toNat) m (by omega) (by omega)
      (.inl (by omega))
    rwa [Nat.add_sub_cancel, Nat.add_sub_cancel] at h
  · rw [if_neg (by simpa using hover)]
    exact copyUp_moved n.toNat src dst m (by omega)

-- a move up by two bytes over an overlap copies down
example : (List.range 6).map (memmove (fun a => UInt8.ofNat a) 2 0 3) = [0, 1, 0, 1, 2, 5] := by
  decide

/-- The user-library `memmove` moves the region of `n` bytes for every count `n > 0`, and a
region of none for `n <= 0`. -/
theorem umemmove_moved (m : Mem) (dst src : Nat) (n : Int32) :
    Moved m (umemmove m dst src n) dst src n.toInt.toNat := by
  unfold umemmove
  by_cases hgt : src > dst
  · rw [if_pos hgt]
    exact copyUp_moved _ src dst m (.inl (by omega))
  · rw [if_neg hgt]
    have h := copyDown_moved n.toInt.toNat (src + n.toInt.toNat) (dst + n.toInt.toNat) m
      (by omega) (by omega) (.inl (by omega))
    rwa [Nat.add_sub_cancel, Nat.add_sub_cancel] at h

/-- For `n <= 0` the user-library `memmove` changes nothing. -/
theorem umemmove_nonpos (m : Mem) (dst src : Nat) {n : Int32} (hn : n ≤ 0) :
    umemmove m dst src n = m := by
  have h : n.toInt.toNat = 0 := by
    rw [Int.toNat_eq_zero]
    exact Int32.le_iff_toInt_le.1 hn
  unfold umemmove
  split <;> rw [h] <;> rfl

/-- `memmove` with overlap: the kernel's for every count, the user library's for every count
`n > 0`, and the user library's does nothing for `n <= 0`. -/
theorem memmove_overlap :
    (∀ (m : Mem) (dst src : Nat) (n : UInt32), Moved m (memmove m dst src n) dst src n.toNat) ∧
    (∀ (m : Mem) (dst src : Nat) (n : Int32), 0 < n →
      Moved m (umemmove m dst src n) dst src n.toInt.toNat) ∧
    (∀ (m : Mem) (dst src : Nat) (n : Int32), n ≤ 0 → umemmove m dst src n = m) :=
  ⟨memmove_moved, fun m dst src n _ => umemmove_moved m dst src n,
    fun m dst src _ hn => umemmove_nonpos m dst src hn⟩

end Memmove

end Xv6
