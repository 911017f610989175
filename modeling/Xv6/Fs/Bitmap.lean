import Xv6.Fs.Inode

/-!
# The free-block bitmap

`balloc` and `bfree` of `kernel/fs.c` find the bit of a block in two ways. `balloc` walks the
bitmap by bitmap block, `b = 0, BPB, 2 * BPB, …`, and by bit `bi` within each; `bfree`
recomputes the place of block `x` as bit `x % BPB` of block `BBLOCK(x, sb)`. `used s x` is the
second reading, bit `x % 8` of byte `(x % BPB) / 8` of that block (`used_eq`), and `freeBit_eq`
is where the two meet: the inner test of `balloc` at `(b, bi)` reads `used` at `b + bi`.

* `balloc_of_first` and `balloc_of_full`: `balloc` takes the smallest block below `sb.size`
  whose bit is clear, or returns 0 and changes nothing when there is none. Its counter `b` is an
  `int`: on a disk of more than `2 ^ 31 - BPB` blocks, a loop that finds nothing below `2 ^ 31`
  overflows it (`balloc_of_overflow`).
* `used_takeBlock`: taking a block sets its bit and no other, provided the block holds none of
  the bits read. `balloc` also zeroes the block it takes, so a bitmap that marks one of its own
  blocks free loses its bits to `balloc` (`balloc_bitmap_block_and_overflow`).
* `run_bfree` and `used_clearBlock`: `bfree` panics iff the bit is clear, and otherwise clears
  exactly that bit.
-/

namespace Xv6.Fs

open StateExcept

variable {s : FsState}

/-! ## The bitmap -/

/-- Whether the bitmap marks block `x` in use. Block numbers are `uint`s: there is no block from
`2 ^ 32` on, and the bitmap marks none. -/
def used (s : FsState) (x : Nat) : Bool :=
  decide (x < 2 ^ 32) && (s.disk (BBLOCK x s.sb)).bit (x % BPB)

theorem used_of_lt {x : Nat} (hx : x < 2 ^ 32) : used s x = (s.disk (BBLOCK x s.sb)).bit (x % BPB) := by
  rw [used, decide_eq_true hx, Bool.true_and]

theorem used_of_not_lt {x : Nat} (hx : ¬x < 2 ^ 32) : used s x = false := by
  rw [used, decide_eq_false hx, Bool.false_and]

/-- The bit of block `x` is bit `x % 8` of byte `(x % BPB) / 8` of its bitmap block. -/
theorem used_eq (s : FsState) {x : Nat} (hx : x < 2 ^ 32) :
    used s x = ((s.disk (BBLOCK x s.sb)).get (x % BPB / 8)).toNat.testBit (x % 8) := by
  have h : x % BPB % 8 = x % 8 := by
    rw [BPB_eq]
    omega
  rw [used_of_lt hx, Bytes.bit, h]

/-- What `balloc` leaves after taking block `c`: its bit set, the block zeroed, both logged. -/
def takeBlock (s : FsState) (c : Nat) : FsState :=
  { s with
    disk := Function.update (Function.update s.disk (BBLOCK c s.sb)
      ((s.disk (BBLOCK c s.sb)).set (c % BPB / 8)
        ((s.disk (BBLOCK c s.sb)).get (c % BPB / 8) ||| Bytes.mask (c % BPB))))
      c (fun _ => 0)
    logged := s.logged ++ [BBLOCK c s.sb] ++ [c] }

/-- What `bfree` leaves after freeing block `x`: its bit cleared and the bitmap block logged. -/
def clearBlock (s : FsState) (x : Nat) : FsState :=
  { s with
    disk := Function.update s.disk (BBLOCK x s.sb)
      ((s.disk (BBLOCK x s.sb)).set (x % BPB / 8)
        ((s.disk (BBLOCK x s.sb)).get (x % BPB / 8) &&& ~~~Bytes.mask (x % BPB)))
    logged := s.logged ++ [BBLOCK x s.sb] }

theorem byte_lt_BSIZE (x : Nat) : x % BPB / 8 < BSIZE := by
  rw [BPB_eq, BSIZE_eq]
  omega

/-- Two blocks with the same bitmap block and the same bit in it are the same block: below
`2 ^ 32` the sum of `BBLOCK` wraps at most once, and never onto another block's. -/
theorem eq_of_BBLOCK_eq {x y : Nat} (sb : Superblock) (hx : x < 2 ^ 32) (hy : y < 2 ^ 32)
    (hB : BBLOCK y sb = BBLOCK x sb) : y % BPB = x % BPB ↔ y = x := by
  simp only [BBLOCK, BPB_eq, Nat.reducePow] at hB hx hy ⊢
  omega

@[simp] theorem takeBlock_disk_self (s : FsState) (c : Nat) : (takeBlock s c).disk c = fun _ => 0 :=
  Function.update_self ..

@[simp] theorem takeBlock_sb (s : FsState) (c : Nat) : (takeBlock s c).sb = s.sb := rfl

@[simp] theorem clearBlock_sb (s : FsState) (x : Nat) : (clearBlock s x).sb = s.sb := rfl

/-- Taking block `c` sets its bit and no other, for every bit that `c` itself does not hold. -/
theorem used_takeBlock {c y : Nat} (hc : c < 2 ^ 32) (hy : BBLOCK y s.sb ≠ c) :
    used (takeBlock s c) y = (used s y || decide (y = c)) := by
  by_cases hy32 : y < 2 ^ 32
  · rw [used_of_lt hy32, used_of_lt hy32]
    simp only [takeBlock]
    rw [Function.update_of_ne hy]
    by_cases hB : BBLOCK y s.sb = BBLOCK c s.sb
    · rw [hB, Function.update_self, Bytes.bit_set_or_mask _ (byte_lt_BSIZE c)]
      exact congrArg _ (decide_eq_decide.2 (eq_of_BBLOCK_eq s.sb hc hy32 hB))
    · have hyc : y ≠ c := fun e => hB (by rw [e])
      rw [Function.update_of_ne hB]
      simp [hyc]
  · have hyc : y ≠ c := fun e => hy32 (e ▸ hc)
    rw [used_of_not_lt hy32, used_of_not_lt hy32]
    simp [hyc]

/-- Freeing block `x` clears its bit and no other. -/
theorem used_clearBlock (s : FsState) {x : Nat} (hx : x < 2 ^ 32) (y : Nat) :
    used (clearBlock s x) y = (used s y && !decide (y = x)) := by
  by_cases hy32 : y < 2 ^ 32
  · rw [used_of_lt hy32, used_of_lt hy32]
    simp only [clearBlock]
    by_cases hB : BBLOCK y s.sb = BBLOCK x s.sb
    · rw [hB, Function.update_self, Bytes.bit_set_and_not_mask _ (byte_lt_BSIZE x)]
      exact congrArg _ (congrArg _ (decide_eq_decide.2 (eq_of_BBLOCK_eq s.sb hx hy32 hB)))
    · have hyx : y ≠ x := fun e => hB (by rw [e])
      rw [Function.update_of_ne hB]
      simp [hyx]
  · rw [used_of_not_lt hy32, used_of_not_lt hy32, Bool.false_and]

/-! ## `balloc` -/

-- The equation lemmas of `ballocLoop` cannot be generated here: checking them unfolds
-- `List.range BPB`, 8192 levels deep. The one round is stated and checked by unfolding, with
-- `BPB` held opaque so that the check compares the two matches without computing the range.
attribute [local irreducible] BPB in
theorem ballocLoop_succ (dev fuel b : Nat) : ballocLoop dev (fuel + 1) b = (do
    let s ← get
    if b < s.sb.size then do
      let blk ← bread dev (BBLOCK b s.sb)
      match (List.range BPB).find? (freeBit s.sb blk b) with
      | some bi =>
        setData (BBLOCK b s.sb) (blk.set (bi / 8) (blk.get (bi / 8) ||| Bytes.mask bi))
        log_write (BBLOCK b s.sb)
        bzero dev (b + bi)
        pure (UInt32.ofNat (b + bi))
      | none =>
        if b + BPB < 2 ^ 31 then ballocLoop dev fuel (b + BPB) else throw "balloc: int overflow"
    else pure 0 : FsM UInt32) := rfl

theorem run_ballocLoop_zero (dev b : Nat) : (ballocLoop dev 0 b).run s = .ok (0, s) := rfl

/-- Bit `bi` of the bitmap block of `b`, for a `b` at the start of its bitmap block, is the bit of
block `b + bi`. -/
theorem BBLOCK_add {b bi : Nat} (hb : b % BPB = 0) (hbi : bi < BPB) (sb : Superblock) :
    BBLOCK (b + bi) sb = BBLOCK b sb ∧ (b + bi) % BPB = bi := by
  simp only [BBLOCK, BPB_eq] at hb hbi ⊢
  omega

/-- The inner test of `balloc` reads the bitmap as `bfree` does. -/
theorem freeBit_eq {b bi : Nat} (hb : b % BPB = 0) (hbi : bi < BPB) (h32 : b + bi < 2 ^ 32) :
    freeBit s.sb (s.disk (BBLOCK b s.sb)) b bi = (decide (b + bi < s.sb.size) && !used s (b + bi)) := by
  obtain ⟨hB, hmod⟩ := BBLOCK_add hb hbi s.sb
  rw [freeBit, Bytes.and_mask_eq_zero, used_of_lt h32, hB, hmod]

theorem run_ballocLoop_succ (dev fuel : Nat) {b : Nat} (hb : b % BPB = 0) :
    (ballocLoop dev (fuel + 1) b).run s =
      if b < s.sb.size then
        match (List.range BPB).find? (freeBit s.sb (s.disk (BBLOCK b s.sb)) b) with
        | some bi => .ok (UInt32.ofNat (b + bi), takeBlock s (b + bi))
        | none =>
          if b + BPB < 2 ^ 31 then (ballocLoop dev fuel (b + BPB)).run s
          else .error "balloc: int overflow"
      else .ok (0, s) := by
  rw [ballocLoop_succ, run_get_bind]
  split
  · rw [run_bind_of_eq_ok (run_bread _ _)]
    generalize hr : (List.range BPB).find? (freeBit s.sb (s.disk (BBLOCK b s.sb)) b) = r
    cases r with
    | none =>
      by_cases h31 : b + BPB < 2 ^ 31
      · simp only [h31, ↓reduceIte]
      · simp only [h31, ↓reduceIte]
        rfl
    | some bi =>
      obtain ⟨hB, hbi⟩ := BBLOCK_add hb (List.mem_range.1 (List.mem_of_find?_eq_some hr)) s.sb
      simp only [takeBlock, hB, hbi]
      rfl
  · rfl

/-- A bitmap block of which every bit of a block below `size` is set: the inner loop finds none. -/
theorem find?_freeBit_eq_none {b : Nat} (hb : b % BPB = 0) (h32 : b + BPB ≤ 2 ^ 32)
    (hfull : ∀ j < BPB, b + j < s.sb.size → used s (b + j) = true) :
    (List.range BPB).find? (freeBit s.sb (s.disk (BBLOCK b s.sb)) b) = none := by
  rw [List.find?_range_eq_none]
  intro j hj
  rw [freeBit_eq hb hj (by omega)]
  by_cases hlt : b + j < s.sb.size
  · rw [hfull j hj hlt]
    simp
  · simp [hlt]

/-- From the bitmap block of `b` on, the loop takes the first clear block `x ≥ b`, given the
rounds to reach it. The rounds before stop short of `x`, so below `2 ^ 31` the `int b` does not
overflow. -/
theorem ballocLoop_of_first (dev : Nat) {x : Nat} (hx : x < s.sb.size) (hx31 : x < 2 ^ 31)
    (hfree : used s x = false) :
    ∀ (fuel b : Nat), b % BPB = 0 → b ≤ x → x < b + fuel * BPB →
      (∀ y, b ≤ y → y < x → used s y = true) →
      (ballocLoop dev fuel b).run s = .ok (UInt32.ofNat x, takeBlock s x)
  | 0, b, _, hbx, hfuel, _ => by omega
  | fuel + 1, b, hb, hbx, hfuel, hmin => by
    rw [run_ballocLoop_succ dev fuel hb, if_pos (by omega)]
    by_cases hin : x < b + BPB
    · -- `x` is in this bitmap block: the inner loop stops at its bit
      have hfind : (List.range BPB).find? (freeBit s.sb (s.disk (BBLOCK b s.sb)) b) = some (x - b) := by
        rw [List.find?_range_eq_some]
        refine ⟨?_, List.mem_range.2 (by omega), fun j hj => ?_⟩
        · rw [freeBit_eq hb (by omega) (by omega), Nat.add_sub_cancel' hbx, hfree]
          simp [hx]
        · rw [freeBit_eq hb (by omega) (by omega), hmin (b + j) (by omega) (by omega)]
          simp
      simp only [hfind, Nat.add_sub_cancel' hbx]
    · -- every bit of this block below `x` is set: the loop goes on with the next block
      have hfind : (List.range BPB).find? (freeBit s.sb (s.disk (BBLOCK b s.sb)) b) = none :=
        find?_freeBit_eq_none hb (by omega) fun j hj _ => hmin (b + j) (by omega) (by omega)
      have hfuel' : x < b + BPB + fuel * BPB := by
        rw [Nat.succ_mul] at hfuel
        omega
      simp only [hfind, if_pos (show b + BPB < 2 ^ 31 by omega)]
      exact ballocLoop_of_first dev hx hx31 hfree fuel (b + BPB) (by rw [Nat.add_mod_right]; exact hb)
        (by omega) hfuel' fun y hy hyx => hmin y (by omega) hyx

/-- From the bitmap block of `b` on, a loop that finds every bit set returns 0 and changes
nothing, on a disk small enough that the `int b` stays below `2 ^ 31`. -/
theorem ballocLoop_of_full (dev : Nat) (hsz : s.sb.size + BPB ≤ 2 ^ 31) : ∀ (fuel b : Nat), b % BPB = 0 →
    (∀ y, b ≤ y → y < s.sb.size → used s y = true) → (ballocLoop dev fuel b).run s = .ok (0, s)
  | 0, b, _, _ => run_ballocLoop_zero dev b
  | fuel + 1, b, hb, hfull => by
    rw [run_ballocLoop_succ dev fuel hb]
    split
    · have hfind : (List.range BPB).find? (freeBit s.sb (s.disk (BBLOCK b s.sb)) b) = none :=
        find?_freeBit_eq_none hb (by omega) fun j _ hlt => hfull (b + j) (by omega) hlt
      simp only [hfind, if_pos (show b + BPB < 2 ^ 31 by omega)]
      exact ballocLoop_of_full dev hsz fuel (b + BPB) (by rw [Nat.add_mod_right]; exact hb)
        fun y hy => hfull y (by omega)
    · rfl

/-- On a disk of more than `2 ^ 31 - BPB` blocks whose blocks below `2 ^ 31` are all in use, the
loop reaches the bitmap block of `2 ^ 31 - BPB`, and `b += BPB` overflows the `int b`. -/
theorem ballocLoop_of_overflow (dev : Nat) (hsz : 2 ^ 31 < s.sb.size + BPB)
    (hfull : ∀ y < 2 ^ 31, y < s.sb.size → used s y = true) : ∀ (fuel b : Nat), b % BPB = 0 →
      b < 2 ^ 31 → 2 ^ 31 ≤ b + fuel * BPB → (ballocLoop dev fuel b).run s = .error "balloc: int overflow"
  | 0, b, _, hb31, hfuel => by omega
  | fuel + 1, b, hb, hb31, hfuel => by
    -- `b` is a multiple of `BPB` below `2 ^ 31`, so at most `2 ^ 31 - BPB`, which is below `size`
    have hb' : b + BPB ≤ 2 ^ 31 := by
      rw [BPB_eq] at hb ⊢
      omega
    have hfind : (List.range BPB).find? (freeBit s.sb (s.disk (BBLOCK b s.sb)) b) = none :=
      find?_freeBit_eq_none hb (by omega) fun j hj hlt => hfull (b + j) (by omega) hlt
    rw [run_ballocLoop_succ dev fuel hb, if_pos (by omega)]
    simp only [hfind]
    split
    · rw [Nat.succ_mul] at hfuel
      exact ballocLoop_of_overflow dev hsz hfull fuel (b + BPB) (by rw [Nat.add_mod_right]; exact hb)
        (by assumption) (by omega)
    · rfl

/-- `balloc` takes the smallest block whose bit is clear, when it lies below `2 ^ 31`. -/
theorem balloc_of_first (dev : Nat) {x : Nat} (hx : x < s.sb.size) (hx31 : x < 2 ^ 31)
    (hfree : used s x = false) (hmin : ∀ y < x, used s y = true) :
    (balloc dev).run s = .ok (UInt32.ofNat x, takeBlock s x) := by
  rw [balloc, run_get_bind]
  have hfuel : x < 0 + (s.sb.size / BPB + 1) * BPB := by
    rw [BPB_eq]
    omega
  exact ballocLoop_of_first dev hx hx31 hfree _ 0 rfl (Nat.zero_le x) hfuel fun y _ hy => hmin y hy

/-- `balloc` on a full bitmap returns 0 and changes nothing, on a disk of at most `2 ^ 31 - BPB`
blocks. -/
theorem balloc_of_full (dev : Nat) (hsz : s.sb.size + BPB ≤ 2 ^ 31)
    (hfull : ∀ y < s.sb.size, used s y = true) : (balloc dev).run s = .ok (0, s) := by
  rw [balloc, run_get_bind]
  exact ballocLoop_of_full dev hsz _ 0 rfl fun y _ hy => hfull y hy

/-- `balloc` on a larger disk whose blocks below `2 ^ 31` are all in use overflows. -/
theorem balloc_of_overflow (dev : Nat) (hsz : 2 ^ 31 < s.sb.size + BPB)
    (hfull : ∀ y < 2 ^ 31, y < s.sb.size → used s y = true) :
    (balloc dev).run s = .error "balloc: int overflow" := by
  rw [balloc, run_get_bind]
  have hfuel : 2 ^ 31 ≤ 0 + (s.sb.size / BPB + 1) * BPB := by
    rw [BPB_eq] at hsz ⊢
    omega
  exact ballocLoop_of_overflow dev hsz hfull _ 0 rfl (by decide) hfuel

/-- What `balloc` can do: take the smallest block whose bit is clear, when it lies below `2 ^ 31`;
or, when there is none, return 0 and change nothing, or overflow on a disk too large. -/
theorem balloc_cases (dev : Nat) (s : FsState) :
    (∃ x < s.sb.size, x < 2 ^ 31 ∧ used s x = false ∧
        (balloc dev).run s = .ok (UInt32.ofNat x, takeBlock s x)) ∨
      (balloc dev).run s = .ok (0, s) ∨ (balloc dev).run s = .error "balloc: int overflow" := by
  classical
  by_cases h : ∃ x, x < s.sb.size ∧ x < 2 ^ 31 ∧ used s x = false
  · obtain ⟨hx, hx31, hfree⟩ := Nat.find_spec h
    refine .inl ⟨Nat.find h, hx, hx31, hfree, balloc_of_first dev hx hx31 hfree fun y hy => ?_⟩
    -- below the first clear block every block of the disk is in use
    have hmin := Nat.find_min h hy
    simp only [not_and, Bool.not_eq_false] at hmin
    exact hmin (lt_trans hy hx) (lt_trans hy hx31)
  · have hfull : ∀ y < 2 ^ 31, y < s.sb.size → used s y = true := fun y h31 hy => by
      have hy' := not_exists.1 h y
      simp only [not_and, Bool.not_eq_false] at hy'
      exact hy' hy h31
    by_cases hsz : s.sb.size + BPB ≤ 2 ^ 31
    · exact .inr (.inl (balloc_of_full dev hsz fun y hy => hfull y (by omega) hy))
    · exact .inr (.inr (balloc_of_overflow dev (by omega) hfull))

/-- A successful run of `balloc`, read backwards. -/
theorem balloc_inv {dev : Nat} {a : UInt32} {t : FsState} (h : (balloc dev).run s = .ok (a, t)) :
    (a = 0 ∧ t = s) ∨ ∃ x < s.sb.size, used s x = false ∧ a = UInt32.ofNat x ∧ t = takeBlock s x := by
  rcases balloc_cases dev s with ⟨x, hx, -, hfree, hrun⟩ | hrun | hrun
  · rw [hrun] at h
    obtain ⟨rfl, rfl⟩ := Prod.mk.inj (Except.ok.inj h)
    exact .inr ⟨x, hx, hfree, rfl, rfl⟩
  · rw [hrun] at h
    obtain ⟨rfl, rfl⟩ := Prod.mk.inj (Except.ok.inj h)
    exact .inl ⟨rfl, rfl⟩
  · rw [hrun] at h
    cases h

/-! ## `bfree` -/

theorem run_bfree (dev : Nat) (x : UInt32) :
    (bfree dev x).run s =
      if used s x.toNat then .ok ((), clearBlock s x.toNat) else .error "freeing free block" := by
  rw [bfree, run_get_bind, run_bind_of_eq_ok (run_bread _ _)]
  dsimp only
  -- the test of `bfree` is the bit that `used` reads
  rw [Bytes.and_mask_eq_zero, ← used_of_lt x.toNat_lt]
  cases used s x.toNat <;> rfl

/-! ## Allocation and freeing together -/

/-- When the bitmap marks its own blocks in use, a block whose bit is clear holds none of the
bits of the blocks below `size`. -/
theorem BBLOCK_ne_of_free
    (hbm : ∀ y < s.sb.size, BBLOCK y s.sb < s.sb.size → used s (BBLOCK y s.sb) = true)
    {c : Nat} (hc : c < s.sb.size) (hfree : used s c = false) {y : Nat} (hy : y < s.sb.size) :
    BBLOCK y s.sb ≠ c := by
  intro e
  have := hbm y hy (e ▸ hc)
  rw [e, hfree] at this
  exact Bool.false_ne_true this

/-- Freeing the block just taken gives every bit back, for a block that holds no bits. -/
theorem used_clearBlock_takeBlock {c y : Nat} (hc : c < 2 ^ 32) (hfree : used s c = false)
    (hy : BBLOCK y s.sb ≠ c) : used (clearBlock (takeBlock s c) c) y = used s y := by
  rw [used_clearBlock _ hc, used_takeBlock hc hy]
  by_cases hyc : y = c
  · subst hyc
    simp [hfree]
  · simp [hyc]

/-- `balloc` and `bfree` on every state whose bitmap marks block 0 and its own blocks in use, on a
disk of at most `2 ^ 31 - BPB` blocks, so that the `int b` of `balloc` does not overflow. -/
theorem bitmap_encoding (dev : Nat) (s : FsState) (hsz : s.sb.size + BPB ≤ 2 ^ 31) (h0 : used s 0 = true)
    (hbm : ∀ y < s.sb.size, BBLOCK y s.sb < s.sb.size → used s (BBLOCK y s.sb) = true) :
    ((∃ x, 0 < x ∧ x < s.sb.size ∧ used s x = false ∧ (∀ y < x, used s y = true) ∧
        ∃ s', (balloc dev).run s = .ok (UInt32.ofNat x, s') ∧
          (∀ y < s.sb.size, used s' y = (used s y || decide (y = x))) ∧ s'.disk x = (fun _ => 0) ∧
          ∃ s'', (bfree dev (UInt32.ofNat x)).run s' = .ok ((), s'') ∧
            ∀ y < s.sb.size, used s'' y = used s y) ∨
      ((∀ y < s.sb.size, used s y = true) ∧ (balloc dev).run s = .ok (0, s))) ∧
    ∀ x : UInt32,
      (used s x.toNat = false ∧ (bfree dev x).run s = .error "freeing free block") ∨
      (used s x.toNat = true ∧ ∃ s', (bfree dev x).run s = .ok ((), s') ∧
        ∀ y, used s' y = (used s y && !decide (y = x.toNat))) := by
  constructor
  · by_cases hex : ∃ x, x < s.sb.size ∧ used s x = false
    · -- `balloc` takes the smallest clear block, which holds no bits of the bitmap
      obtain ⟨hx, hfree⟩ := Nat.find_spec hex
      have hmin : ∀ y < Nat.find hex, used s y = true := fun y hy => by
        have := Nat.find_min hex hy
        simp only [not_and, Bool.not_eq_false] at this
        exact this (by omega)
      have hpos : 0 < Nat.find hex := Nat.pos_of_ne_zero fun e => by
        rw [e, h0] at hfree
        exact Bool.noConfusion hfree
      have hne := fun y (hy : y < s.sb.size) => BBLOCK_ne_of_free hbm hx hfree hy
      have hx31 : Nat.find hex < 2 ^ 31 := by omega
      have hx32 : Nat.find hex < 2 ^ 32 := by omega
      have hxn : (UInt32.ofNat (Nat.find hex)).toNat = Nat.find hex := UInt32.toNat_ofNat_of_lt' hx32
      refine .inl ⟨Nat.find hex, hpos, hx, hfree, hmin, _, balloc_of_first dev hx hx31 hfree hmin,
        fun y hy => used_takeBlock hx32 (hne y hy), takeBlock_disk_self s _, _, ?_,
        fun y hy => used_clearBlock_takeBlock hx32 hfree (hne y hy)⟩
      rw [run_bfree, hxn, used_takeBlock hx32 (hne _ hx)]
      simp
    · -- no clear block below `size`
      have hfull : ∀ y < s.sb.size, used s y = true := fun y hy => by
        simpa using fun h => hex ⟨y, hy, h⟩
      exact .inr ⟨hfull, balloc_of_full dev hsz hfull⟩
  · intro x
    rw [run_bfree]
    cases used s x.toNat with
    | false => exact .inl ⟨rfl, rfl⟩
    | true => exact .inr ⟨rfl, _, rfl, used_clearBlock s x.toNat_lt⟩

/-- A disk with the bitmap of the `mkfs` layout at block 45: its first five bytes mark blocks 0
to 39 in use and its sixth byte is `v`. -/
def bitmapDisk (v : UInt8) : Disk := fun b =>
  if b = 45 then fun i => if i.val < 5 then 0xFF else if i.val = 5 then v else 0 else fun _ => 0

/-- The layout of `mkfs` (2000 blocks, 30 log blocks from block 2, inodes from block 32, the
bitmap at block 45) over `bitmapDisk v`. -/
def bitmapState (v : UInt8) : FsState :=
  ⟨⟨FSMAGIC, 2000, 1954, 200, 30, 2, 32, 45⟩, bitmapDisk v, fun _ => ⟨0, 0, 0, false, DInode.zero⟩, []⟩

theorem BBLOCK_bitmapState {v : UInt8} {y : Nat} (hy : y < (bitmapState v).sb.size) :
    BBLOCK y (bitmapState v).sb = 45 := by
  simp only [bitmapState, BBLOCK, BPB_eq] at hy ⊢
  omega

/-- The metadata blocks 0 to 45 marked in use, as `mkfs` leaves them: `balloc` takes block 46,
and `bfree` of it gives the bitmap back. -/
theorem bitmap_encoding_metadata :
    (bitmapState 0x3F).sb.size + BPB ≤ 2 ^ 31 ∧ used (bitmapState 0x3F) 0 = true ∧
    (∀ y < (bitmapState 0x3F).sb.size, BBLOCK y (bitmapState 0x3F).sb < (bitmapState 0x3F).sb.size →
      used (bitmapState 0x3F) (BBLOCK y (bitmapState 0x3F).sb) = true) ∧
    ((∃ x, 0 < x ∧ x < (bitmapState 0x3F).sb.size ∧ used (bitmapState 0x3F) x = false ∧
        (∀ y < x, used (bitmapState 0x3F) y = true) ∧
        ∃ s', (balloc ROOTDEV).run (bitmapState 0x3F) = .ok (UInt32.ofNat x, s') ∧
          (∀ y < (bitmapState 0x3F).sb.size, used s' y = (used (bitmapState 0x3F) y || decide (y = x))) ∧
          s'.disk x = (fun _ => 0) ∧
          ∃ s'', (bfree ROOTDEV (UInt32.ofNat x)).run s' = .ok ((), s'') ∧
            ∀ y < (bitmapState 0x3F).sb.size, used s'' y = used (bitmapState 0x3F) y) ∨
      ((∀ y < (bitmapState 0x3F).sb.size, used (bitmapState 0x3F) y = true) ∧
        (balloc ROOTDEV).run (bitmapState 0x3F) = .ok (0, bitmapState 0x3F))) ∧
    ∀ x : UInt32,
      (used (bitmapState 0x3F) x.toNat = false ∧
        (bfree ROOTDEV x).run (bitmapState 0x3F) = .error "freeing free block") ∨
      (used (bitmapState 0x3F) x.toNat = true ∧ ∃ s', (bfree ROOTDEV x).run (bitmapState 0x3F) = .ok ((), s') ∧
        ∀ y, used s' y = (used (bitmapState 0x3F) y && !decide (y = x.toNat))) := by
  have hsz : (bitmapState 0x3F).sb.size + BPB ≤ 2 ^ 31 := by decide
  have h0 : used (bitmapState 0x3F) 0 = true := by decide
  have hbm : ∀ y < (bitmapState 0x3F).sb.size, BBLOCK y (bitmapState 0x3F).sb < (bitmapState 0x3F).sb.size →
      used (bitmapState 0x3F) (BBLOCK y (bitmapState 0x3F).sb) = true := fun y hy _ => by
    rw [BBLOCK_bitmapState hy]
    decide
  exact ⟨hsz, h0, hbm, bitmap_encoding ROOTDEV _ hsz h0 hbm⟩

/-- A disk of `2 ^ 32 - 1` blocks, the most a `uint` counts, in the layout of `bitmapState` with
its bitmap grown to `2 ^ 19` blocks, and every byte `0xFF`: every block is marked in use. -/
def fullState : FsState :=
  ⟨⟨FSMAGIC, 2 ^ 32 - 1, 4294442962, 200, 30, 2, 32, 45⟩, fun _ _ => 0xFF,
    fun _ => ⟨0, 0, 0, false, DInode.zero⟩, []⟩

theorem used_fullState {y : Nat} (hy : y < 2 ^ 32) : used fullState y = true := by
  have hbits : ∀ j < 8, Nat.testBit 255 j = true := by decide
  have hget : (fullState.disk (BBLOCK y fullState.sb)).get (y % BPB / 8) = 0xFF := by
    rw [Bytes.get, dif_pos (byte_lt_BSIZE y)]
    rfl
  rw [used_eq fullState hy, hget]
  exact hbits _ (Nat.mod_lt _ (by decide))

/-- Two states on which `balloc` does not do what the claim says. On `bitmapState 0x1F`, whose
bitmap marks its own block 45 free with blocks 0 to 44 in use, `balloc` takes block 45 and zeroes
it, which clears every bit, its own and block 0's included, and `bfree` of the block then panics.
On `fullState`, every block in use, `balloc` does not return 0: before the loop ends,
`b += BPB` overflows the `int b`. -/
theorem balloc_bitmap_block_and_overflow :
    (used (bitmapState 0x1F) 0 = true ∧
      (balloc ROOTDEV).run (bitmapState 0x1F) = .ok (45, takeBlock (bitmapState 0x1F) 45) ∧
      used (takeBlock (bitmapState 0x1F) 45) 45 = false ∧
      used (takeBlock (bitmapState 0x1F) 45) 0 = false ∧
      (bfree ROOTDEV 45).run (takeBlock (bitmapState 0x1F) 45) = .error "freeing free block") ∧
    (∀ y < fullState.sb.size, used fullState y = true) ∧
      (balloc ROOTDEV).run fullState = .error "balloc: int overflow" := by
  have hfull : ∀ y < fullState.sb.size, used fullState y = true := fun y hy =>
    used_fullState (lt_of_lt_of_le hy (by decide))
  refine ⟨⟨by decide, balloc_of_first ROOTDEV (by decide) (by decide) (by decide) (by decide), by decide,
    by decide, ?_⟩, hfull, balloc_of_overflow ROOTDEV (by decide) fun y _ hy => hfull y hy⟩
  rw [run_bfree, if_neg (by decide)]

end Xv6.Fs
