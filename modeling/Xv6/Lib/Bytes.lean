import Mathlib

/-!
# Byte buffers

Fixed-size byte buffers `Bytes n` with their little-endian view: `getLE b o w` reads the `w`
bytes at offset `o` as an unsigned number, `setLE b o w v` stores the low `8 * w` bits of `v`
there, and `setLEs`/`getLEs` do the same for a run of equal-width fields. `bit b k` is bit
`k % 8` of byte `k / 8`, the view a bitmap is read through. Reads and writes past the end of the
buffer read `0` and change nothing, so the operations are total.

The lemmas are the read-after-write and frame rules that every decoder of an on-disk record is
built from: a read of the bytes just written returns the stored value, and a read of bytes that a
write does not touch returns what was there before.
-/

/-- A buffer of `n` bytes. -/
abbrev Bytes (n : Nat) := Fin n → UInt8

namespace Bytes

variable {n : Nat}

/-- The byte at offset `o`; reads past the end give `0`. -/
def get (b : Bytes n) (o : Nat) : UInt8 :=
  if h : o < n then b ⟨o, h⟩ else 0

/-- Overwrite the byte at offset `o`; a write past the end changes nothing. -/
def set (b : Bytes n) (o : Nat) (v : UInt8) : Bytes n :=
  fun i => if i.val = o then v else b i

/-- The `w` bytes at offset `o`, read as a little-endian unsigned number. -/
def getLE (b : Bytes n) : Nat → Nat → Nat
  | _, 0 => 0
  | o, w + 1 => (b.get o).toNat + 256 * b.getLE (o + 1) w

/-- Store the low `8 * w` bits of `v` little-endian in the `w` bytes at offset `o`. -/
def setLE (b : Bytes n) : Nat → Nat → Nat → Bytes n
  | _, 0, _ => b
  | o, w + 1, v => (b.set o (UInt8.ofNat v)).setLE (o + 1) w (v / 256)

/-- Two buffers are equal when they agree at every offset below their size. -/
lemma ext_get {b b' : Bytes n} (h : ∀ o, o < n → b.get o = b'.get o) : b = b' := by
  funext i
  have := h i.val i.isLt
  simpa [get, i.isLt] using this

@[simp] lemma get_set_self (b : Bytes n) {o : Nat} (h : o < n) (v : UInt8) :
    (b.set o v).get o = v := by
  simp [get, set, h]

lemma get_set_of_ne (b : Bytes n) {o o' : Nat} (h : o' ≠ o) (v : UInt8) :
    (b.set o v).get o' = b.get o' := by
  by_cases ho : o' < n <;> simp [get, set, ho, h]

/-- Storing back the byte just read changes nothing. -/
@[simp] lemma set_get_self (b : Bytes n) (o : Nat) : b.set o (b.get o) = b := by
  funext i
  by_cases e : i.val = o
  · subst e
    simp [set, get, i.isLt]
  · simp [set, e]

/-- A little-endian read of `w` bytes is below `256 ^ w`. -/
lemma getLE_lt (b : Bytes n) (o w : Nat) : b.getLE o w < 256 ^ w := by
  induction w generalizing o with
  | zero => simp [getLE]
  | succ w ih =>
    have hb := (b.get o).toNat_lt
    have := ih (o + 1)
    simp only [getLE, Nat.pow_succ]
    omega

/-- A read that starts past the end gives `0`. -/
lemma getLE_of_le (b : Bytes n) {o : Nat} (h : n ≤ o) (w : Nat) : b.getLE o w = 0 := by
  induction w generalizing o with
  | zero => rfl
  | succ w ih =>
    have hget : b.get o = 0 := dif_neg (Nat.not_lt.2 h)
    simp [getLE, hget, ih (Nat.le_succ_of_le h)]

/-- A read depends only on the bytes it covers. -/
lemma getLE_congr {b b' : Bytes n} {o w : Nat}
    (h : ∀ o', o ≤ o' → o' < o + w → b.get o' = b'.get o') : b.getLE o w = b'.getLE o w := by
  induction w generalizing o with
  | zero => rfl
  | succ w ih =>
    simp only [getLE]
    rw [h o (Nat.le_refl _) (by omega), ih (fun o' h1 h2 => h o' (by omega) (by omega))]

/-- A little-endian store leaves every byte outside its range as it was. -/
lemma get_setLE_of_not_mem (b : Bytes n) {o w o' : Nat} (v : Nat) (h : o' < o ∨ o + w ≤ o') :
    (b.setLE o w v).get o' = b.get o' := by
  induction w generalizing o b v with
  | zero => rfl
  | succ w ih =>
    simp only [setLE]
    rw [ih _ _ (by omega), get_set_of_ne _ (by omega)]

/-- A read of bytes disjoint from a store is unaffected by it. -/
lemma getLE_setLE_of_disjoint (b : Bytes n) {o w o' w' : Nat} (v : Nat)
    (h : o' + w' ≤ o ∨ o + w ≤ o') : (b.setLE o w v).getLE o' w' = b.getLE o' w' :=
  getLE_congr fun _ h1 h2 => get_setLE_of_not_mem b v (by omega)

/-- Reading back a store that fits in the buffer gives the stored value, cut to `w` bytes. -/
lemma getLE_setLE_self (b : Bytes n) {o w : Nat} (v : Nat) (h : o + w ≤ n) :
    (b.setLE o w v).getLE o w = v % 256 ^ w := by
  induction w generalizing o b v with
  | zero => simp [getLE, Nat.mod_one]
  | succ w ih =>
    simp only [setLE, getLE]
    rw [get_setLE_of_not_mem _ _ (by omega), get_set_self _ (by omega), ih _ _ (by omega),
      UInt8.toNat_ofNat']
    have split : v % 256 ^ (w + 1) = v % 256 + 256 * (v / 256 % 256 ^ w) := by
      rw [Nat.pow_succ, Nat.mul_comm, Nat.mod_mul]
    omega

/-- Storing back the bytes just read changes nothing. -/
lemma setLE_getLE_self (b : Bytes n) (o w : Nat) : b.setLE o w (b.getLE o w) = b := by
  induction w generalizing o b with
  | zero => rfl
  | succ w ih =>
    have hb := (b.get o).toNat_lt
    have hlow : UInt8.ofNat ((b.get o).toNat + 256 * b.getLE (o + 1) w) = b.get o := by
      apply UInt8.toNat_inj.mp
      rw [UInt8.toNat_ofNat']
      omega
    have hhigh : ((b.get o).toNat + 256 * b.getLE (o + 1) w) / 256 = b.getLE (o + 1) w := by
      omega
    simp only [getLE, setLE, hlow, hhigh, set_get_self, ih]

/-- Store the numbers `xs` as consecutive `w`-byte little-endian fields from offset `o`. -/
def setLEs (b : Bytes n) (o w : Nat) : List Nat → Bytes n
  | [] => b
  | x :: xs => (b.setLE o w x).setLEs (o + w) w xs

/-- Read `k` consecutive `w`-byte little-endian fields from offset `o`. -/
def getLEs (b : Bytes n) (o w : Nat) : Nat → List Nat
  | 0 => []
  | k + 1 => b.getLE o w :: b.getLEs (o + w) w k

/-- Storing fields leaves every byte before the first one as it was. -/
lemma get_setLEs_of_lt (b : Bytes n) {o w o' : Nat} (xs : List Nat) (h : o' < o) :
    (b.setLEs o w xs).get o' = b.get o' := by
  induction xs generalizing o b with
  | nil => rfl
  | cons x xs ih =>
    simp only [setLEs]
    rw [ih _ (by omega), get_setLE_of_not_mem _ _ (Or.inl h)]

/-- A read that ends before the first stored field is unaffected by the fields. -/
lemma getLE_setLEs_of_le (b : Bytes n) {o w o' w' : Nat} (xs : List Nat) (h : o' + w' ≤ o) :
    (b.setLEs o w xs).getLE o' w' = b.getLE o' w' :=
  getLE_congr fun _ _ h2 => get_setLEs_of_lt b xs (by omega)

/-- Reading back stored fields that fit in the buffer gives them, each cut to `w` bytes. -/
lemma getLEs_setLEs_self (b : Bytes n) {o w : Nat} (xs : List Nat) (h : o + w * xs.length ≤ n) :
    (b.setLEs o w xs).getLEs o w xs.length = xs.map (· % 256 ^ w) := by
  induction xs generalizing o b with
  | nil => rfl
  | cons x xs ih =>
    rw [List.length_cons, Nat.mul_succ] at h
    simp only [setLEs, List.length_cons, getLEs, List.map_cons]
    rw [ih _ (by omega), getLE_setLEs_of_le _ _ (Nat.le_refl _), getLE_setLE_self _ _ (by omega)]

/-- Storing fields leaves every byte after the last one as it was. -/
lemma get_setLEs_of_ge (b : Bytes n) {o w o' : Nat} (xs : List Nat) (h : o + w * xs.length ≤ o') :
    (b.setLEs o w xs).get o' = b.get o' := by
  induction xs generalizing o b with
  | nil => rfl
  | cons x xs ih =>
    rw [List.length_cons, Nat.mul_succ] at h
    simp only [setLEs]
    rw [ih _ (by omega), get_setLE_of_not_mem _ _ (Or.inr (by omega))]

/-- Storing fields leaves every byte outside them as it was. -/
lemma get_setLEs_of_not_mem (b : Bytes n) {o w o' : Nat} (xs : List Nat)
    (h : o' < o ∨ o + w * xs.length ≤ o') : (b.setLEs o w xs).get o' = b.get o' := by
  rcases h with h | h
  · exact get_setLEs_of_lt b xs h
  · exact get_setLEs_of_ge b xs h

/-- A read that starts after the last stored field is unaffected by the fields. -/
lemma getLE_setLEs_of_ge (b : Bytes n) {o w o' w' : Nat} (xs : List Nat)
    (h : o + w * xs.length ≤ o') : (b.setLEs o w xs).getLE o' w' = b.getLE o' w' :=
  getLE_congr fun _ h1 _ => get_setLEs_of_ge b xs (by omega)

/-- The `j`-th stored field reads back, cut to `w` bytes. -/
lemma getLE_setLEs_getElem (b : Bytes n) {o w : Nat} (xs : List Nat) {j : Nat} (hj : j < xs.length)
    (h : o + w * xs.length ≤ n) : (b.setLEs o w xs).getLE (o + w * j) w = xs[j] % 256 ^ w := by
  induction xs generalizing o b j with
  | nil => cases hj
  | cons x xs ih =>
    rw [List.length_cons, Nat.mul_succ] at h
    simp only [setLEs]
    cases j with
    | zero =>
      rw [Nat.mul_zero, Nat.add_zero, getLE_setLEs_of_le _ _ (Nat.le_refl _),
        getLE_setLE_self _ _ (by omega), List.getElem_cons_zero]
    | succ j =>
      have hj' : j < xs.length := by simpa using hj
      rw [show o + w * (j + 1) = o + w + w * j by ring, ih _ hj' (by omega),
        List.getElem_cons_succ]

/-! ## Runs of bytes -/

/-- The `len` bytes from offset `o`, as `memmove` out of the buffer copies them. -/
def getBytes (b : Bytes n) (o len : Nat) : List UInt8 := (List.range len).map fun i => b.get (o + i)

/-- `memmove` of the bytes `bs` into the buffer at offset `o`. -/
def setBytes (b : Bytes n) (o : Nat) (bs : List UInt8) : Bytes n :=
  fun i => if o ≤ i.val ∧ i.val < o + bs.length then bs.getD (i.val - o) 0 else b i

@[simp] lemma length_getBytes (b : Bytes n) (o len : Nat) : (b.getBytes o len).length = len := by
  simp [getBytes]

lemma getElem_getBytes (b : Bytes n) (o len : Nat) {i : Nat} (hi : i < (b.getBytes o len).length) :
    (b.getBytes o len)[i] = b.get (o + i) := by
  simp [getBytes]

lemma get_setBytes (b : Bytes n) (o : Nat) (bs : List UInt8) (k : Nat) :
    (b.setBytes o bs).get k = if o ≤ k ∧ k < o + bs.length then (if k < n then bs.getD (k - o) 0 else 0)
      else b.get k := by
  by_cases hk : k < n <;> by_cases hin : o ≤ k ∧ k < o + bs.length <;> simp [get, setBytes, hk, hin]

/-- A `memmove` in leaves every byte outside its range as it was. -/
lemma get_setBytes_of_not_mem (b : Bytes n) {o k : Nat} (bs : List UInt8)
    (h : k < o ∨ o + bs.length ≤ k) : (b.setBytes o bs).get k = b.get k := by
  rw [get_setBytes, if_neg (by omega)]

/-- Inside its range a `memmove` in leaves the moved bytes. -/
lemma get_setBytes_of_mem (b : Bytes n) {o k : Nat} (bs : List UInt8) (h1 : o ≤ k)
    (h2 : k < o + bs.length) (hk : k < n) : (b.setBytes o bs).get k = bs.getD (k - o) 0 := by
  rw [get_setBytes, if_pos ⟨h1, h2⟩, if_pos hk]

@[simp] lemma setBytes_nil (b : Bytes n) (o : Nat) : b.setBytes o [] = b := by
  funext i
  simp [setBytes]

/-! ## Bits -/

/-- Bit `k % 8` of byte `k / 8`: the `k`-th bit of the buffer, low bits first. -/
def bit (b : Bytes n) (k : Nat) : Bool := (b.get (k / 8)).toNat.testBit (k % 8)

/-- `1 << (k % 8)`, the mask of bit `k` within its byte. -/
def mask (k : Nat) : UInt8 := 1 <<< UInt8.ofNat (k % 8)

lemma toNat_mask (k : Nat) : (mask k).toNat = 2 ^ (k % 8) := by
  have hk : k % 8 < 8 := Nat.mod_lt _ (by decide)
  rw [mask, UInt8.toNat_shiftLeft]
  generalize k % 8 = j at hk ⊢
  interval_cases j <;> rfl

/-- The test `(data[k / 8] & m) == 0` reads bit `k` as clear. -/
lemma and_mask_eq_zero (b : Bytes n) (k : Nat) : (b.get (k / 8) &&& mask k == 0) = !b.bit k := by
  have h : (b.get (k / 8) &&& mask k).toNat = (b.bit k).toNat * 2 ^ (k % 8) := by
    rw [UInt8.toNat_and, toNat_mask, Nat.and_two_pow, bit]
  cases hb : b.bit k with
  | false => simp_all [← UInt8.toNat_inj]
  | true =>
    simp only [hb, Bool.toNat_true, one_mul] at h
    simp [← UInt8.toNat_inj, h]

/-- Setting bit `k` with `data[k / 8] |= m` sets it and no other bit. -/
lemma bit_set_or_mask (b : Bytes n) {k : Nat} (hk : k / 8 < n) (k' : Nat) :
    (b.set (k / 8) (b.get (k / 8) ||| mask k)).bit k' = (b.bit k' || decide (k' = k)) := by
  by_cases hq : k' / 8 = k / 8
  · simp only [bit]
    rw [hq, get_set_self _ hk, UInt8.toNat_or, Nat.testBit_or, toNat_mask, Nat.testBit_two_pow]
    congr 1
    exact decide_eq_decide.2 ⟨fun h => by omega, fun h => by rw [h]⟩
  · have hne : k' ≠ k := fun h => hq (by rw [h])
    rw [bit, get_set_of_ne _ hq, ← bit]
    simp [hne]

/-- Clearing bit `k` with `data[k / 8] &= ~m` clears it and no other bit. -/
lemma bit_set_and_not_mask (b : Bytes n) {k : Nat} (hk : k / 8 < n) (k' : Nat) :
    (b.set (k / 8) (b.get (k / 8) &&& ~~~mask k)).bit k' = (b.bit k' && !decide (k' = k)) := by
  by_cases hq : k' / 8 = k / 8
  · have hj : k % 8 < 8 := Nat.mod_lt _ (by decide)
    have hi : k' % 8 < 8 := Nat.mod_lt _ (by decide)
    have heq : decide (k' = k) = decide (k % 8 = k' % 8) :=
      decide_eq_decide.2 ⟨fun h => by rw [h], fun h => by omega⟩
    simp only [bit]
    rw [hq, get_set_self _ hk, UInt8.toNat_and, Nat.testBit_and, UInt8.toNat_not, toNat_mask, heq]
    congr 1
    generalize k % 8 = j at hj ⊢
    generalize k' % 8 = i at hi ⊢
    interval_cases j <;> interval_cases i <;> rfl
  · have hne : k' ≠ k := fun h => hq (by rw [h])
    rw [bit, get_set_of_ne _ hq, ← bit]
    simp [hne]

end Bytes
