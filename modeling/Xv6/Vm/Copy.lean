import Xv6.Param

/-!
# Copying between the kernel and user memory

Model of `copyin` and `copyout` in `kernel/vm.c` and of `either_copyin` and `either_copyout` in
`kernel/proc.c`. A user address space is seen as `walkaddr` sees it: for every virtual page
the physical page its leaf PTE maps with `PTE_V` and `PTE_U` set, or `0`, together with the
bytes of physical memory. The page-table walk behind that map is not modelled here.

Both loops copy page by page and stop at the first page that is not mapped. What they copied
before that stays copied: `copyin` returns the status together with the bytes it stored into the
kernel buffer, and `copyout` the status together with the memory it wrote. The loops carry a
`fuel` bound; every round moves at least one byte, so `len + 1` rounds are always enough and
the callers pass that.
-/

namespace Xv6

/-- Bytes per page (`PGSIZE`). -/
def PGSIZE : Nat := 4096

/-- One beyond the highest user virtual address (`MAXVA`). -/
def MAXVA : Nat := 2 ^ (9 + 9 + 9 + 12 - 1)

/-- `PGROUNDDOWN(a)`, that is `a & ~(PGSIZE - 1)`. -/
def PGROUNDDOWN (a : Nat) : Nat := a / PGSIZE * PGSIZE

lemma PGROUNDDOWN_le (a : Nat) : PGROUNDDOWN a ≤ a := Nat.div_mul_le_self a PGSIZE

lemma sub_PGROUNDDOWN_lt (a : Nat) : a - PGROUNDDOWN a < PGSIZE := by
  have h1 := Nat.div_add_mod a PGSIZE
  have h2 := Nat.mod_lt a (show 0 < PGSIZE by decide)
  rw [PGROUNDDOWN, Nat.mul_comm]
  omega

/-- Inside the page of `a`, rounding down gives that page. -/
lemma PGROUNDDOWN_add_of_lt {a i : Nat} (h : i < PGSIZE - (a - PGROUNDDOWN a)) :
    PGROUNDDOWN (a + i) = PGROUNDDOWN a := by
  simp only [PGROUNDDOWN, PGSIZE] at h ⊢
  omega

/-- A user address space: the physical address of each virtual page (`0` for one that has no
leaf PTE with `PTE_V` and `PTE_U`), and physical memory. -/
structure UserMem where
  leaf : Nat → Nat
  mem : Nat → UInt8

namespace UserMem

/-- `walkaddr(pagetable, va)`: `0` at or above `MAXVA` and for pages that are not mapped. -/
def walkaddr (um : UserMem) (va : Nat) : Nat :=
  if va ≥ MAXVA then 0 else um.leaf (va / PGSIZE)

/-- The `len` bytes of physical memory from `pa`. -/
def read (um : UserMem) (pa len : Nat) : List UInt8 := (List.range len).map fun i => um.mem (pa + i)

/-- `memmove` of `bs` into physical memory at `pa`. -/
def write (um : UserMem) (pa : Nat) (bs : List UInt8) : UserMem :=
  { um with mem := fun a => if pa ≤ a ∧ a < pa + bs.length then bs.getD (a - pa) 0 else um.mem a }

@[simp] lemma length_read (um : UserMem) (pa len : Nat) : (um.read pa len).length = len := by
  simp [read]

@[simp] lemma walkaddr_write (um : UserMem) (pa : Nat) (bs : List UInt8) :
    (um.write pa bs).walkaddr = um.walkaddr := rfl

/-- The byte at user virtual address `va`, read through the page `walkaddr` maps it to. -/
def byteAt (um : UserMem) (va : Nat) : UInt8 :=
  um.mem (um.walkaddr (PGROUNDDOWN va) + (va - PGROUNDDOWN va))

end UserMem

/-- The `while (len > 0)` loop of `copyin` from `srcva`: the status and the bytes stored into
`dst`. -/
def copyinLoop (um : UserMem) : Nat → Nat → Nat → Int × List UInt8
  | 0, _, _ => (0, [])
  | fuel + 1, srcva, len =>
    if len > 0 then
      let va0 := PGROUNDDOWN srcva
      let pa0 := um.walkaddr va0
      if pa0 = 0 then (-1, [])
      else
        let n := min (PGSIZE - (srcva - va0)) len
        let rest := copyinLoop um fuel (va0 + PGSIZE) (len - n)
        (rest.1, um.read (pa0 + (srcva - va0)) n ++ rest.2)
    else (0, [])

/-- `copyin(pagetable, dst, srcva, len)`. -/
def copyin (um : UserMem) (srcva len : Nat) : Int × List UInt8 := copyinLoop um (len + 1) srcva len

/-- The `while (len > 0)` loop of `copyout` to `dstva` of the bytes `src`: the status and the
memory after the stores. -/
def copyoutLoop : Nat → UserMem → Nat → List UInt8 → Int × UserMem
  | 0, um, _, _ => (0, um)
  | fuel + 1, um, dstva, src =>
    if src.length > 0 then
      let va0 := PGROUNDDOWN dstva
      let pa0 := um.walkaddr va0
      if pa0 = 0 then (-1, um)
      else
        let n := min (PGSIZE - (dstva - va0)) src.length
        copyoutLoop fuel (um.write (pa0 + (dstva - va0)) (src.take n)) (va0 + PGSIZE) (src.drop n)
    else (0, um)

/-- `copyout(pagetable, dstva, src, len)` with `len` the length of `src`. -/
def copyout (um : UserMem) (dstva : Nat) (src : List UInt8) : Int × UserMem :=
  copyoutLoop (src.length + 1) um dstva src

/-! ## What the loops return -/

/-- `copyin` fails or succeeds, and it stores at most `len` bytes, all of them when it succeeds. -/
lemma copyinLoop_spec (um : UserMem) (fuel srcva len : Nat) (hfuel : len < fuel) :
    ((copyinLoop um fuel srcva len).1 = 0 ∧ (copyinLoop um fuel srcva len).2.length = len) ∨
      ((copyinLoop um fuel srcva len).1 = -1 ∧ (copyinLoop um fuel srcva len).2.length < len) := by
  induction fuel generalizing srcva len with
  | zero => omega
  | succ fuel ih =>
    simp only [copyinLoop]
    by_cases hlen : len > 0
    · rw [if_pos hlen]
      by_cases hpa : um.walkaddr (PGROUNDDOWN srcva) = 0
      · rw [if_pos hpa]
        exact .inr ⟨rfl, hlen⟩
      · rw [if_neg hpa]
        -- the round copies `n ≥ 1` bytes, since `srcva` lies inside its page
        have hpg := sub_PGROUNDDOWN_lt srcva
        have hn : 0 < min (PGSIZE - (srcva - PGROUNDDOWN srcva)) len := by omega
        rcases ih (PGROUNDDOWN srcva + PGSIZE) (len - min (PGSIZE - (srcva - PGROUNDDOWN srcva)) len)
          (by omega) with ⟨h1, h2⟩ | ⟨h1, h2⟩
        · refine .inl ⟨h1, ?_⟩
          simp only [List.length_append, UserMem.length_read, h2]
          omega
        · refine .inr ⟨h1, ?_⟩
          simp only [List.length_append, UserMem.length_read]
          omega
    · rw [if_neg hlen]
      exact .inl ⟨rfl, by simp; omega⟩

lemma copyin_spec (um : UserMem) (srcva len : Nat) :
    ((copyin um srcva len).1 = 0 ∧ (copyin um srcva len).2.length = len) ∨
      ((copyin um srcva len).1 = -1 ∧ (copyin um srcva len).2.length < len) :=
  copyinLoop_spec um _ srcva len (Nat.lt_succ_self len)

/-- `copyin` succeeds exactly when every page of the range is mapped, and it then returns the
bytes of the range. -/
lemma copyinLoop_ok (um : UserMem) (fuel srcva len : Nat) (hfuel : len < fuel) :
    ((copyinLoop um fuel srcva len).1 = 0 ↔ ∀ i < len, um.walkaddr (PGROUNDDOWN (srcva + i)) ≠ 0) ∧
      ((copyinLoop um fuel srcva len).1 = 0 →
        (copyinLoop um fuel srcva len).2 = (List.range len).map fun i => um.byteAt (srcva + i)) := by
  induction fuel generalizing srcva len with
  | zero => omega
  | succ fuel ih =>
    simp only [copyinLoop]
    by_cases hlen : len > 0
    · rw [if_pos hlen]
      by_cases hpa : um.walkaddr (PGROUNDDOWN srcva) = 0
      · rw [if_pos hpa]
        refine ⟨⟨(nomatch ·), fun h => absurd hpa (by simpa using h 0 hlen)⟩, (nomatch ·)⟩
      · rw [if_neg hpa]
        -- the round copies the `n` bytes left in `srcva`'s page, the rest starts on the next page
        have hpg := sub_PGROUNDDOWN_lt srcva
        have hle := PGROUNDDOWN_le srcva
        set va0 := PGROUNDDOWN srcva with hva0
        set n := min (PGSIZE - (srcva - va0)) len with hn
        have hsame : ∀ i < n, PGROUNDDOWN (srcva + i) = va0 := fun i hi =>
          PGROUNDDOWN_add_of_lt (by omega)
        have hnext : ∀ j, n < len → srcva + (n + j) = va0 + PGSIZE + j := fun j h => by omega
        obtain ⟨ihok, ihbytes⟩ := ih (va0 + PGSIZE) (len - n) (by omega)
        have hmapped : (∀ i < len, um.walkaddr (PGROUNDDOWN (srcva + i)) ≠ 0) ↔
            ∀ j < len - n, um.walkaddr (PGROUNDDOWN (va0 + PGSIZE + j)) ≠ 0 := by
          constructor
          · intro h j hj
            rw [← hnext j (by omega)]
            exact h _ (by omega)
          · intro h i hi
            by_cases hin : i < n
            · rw [hsame i hin]
              exact hpa
            · have := h (i - n) (by omega)
              rwa [← hnext (i - n) (by omega), Nat.add_sub_cancel' (by omega)] at this
        refine ⟨ihok.trans hmapped.symm, fun hok => ?_⟩
        rw [ihbytes hok]
        dsimp only
        rw [UserMem.read]
        have hsplit : len = n + (len - n) := by omega
        conv_rhs => rw [hsplit, List.range_add, List.map_append, List.map_map]
        refine congrArg₂ (· ++ ·) (List.map_congr_left fun i hi => ?_)
          (List.map_congr_left fun j hj => ?_)
        · rw [List.mem_range] at hi
          simp only [UserMem.byteAt, hsame i hi]
          congr 1
          omega
        · rw [List.mem_range] at hj
          simp only [Function.comp_apply, hnext j (by omega)]
    · rw [if_neg hlen]
      have h0 : len = 0 := by omega
      subst h0
      simp

lemma copyin_ok (um : UserMem) (srcva len : Nat) :
    ((copyin um srcva len).1 = 0 ↔ ∀ i < len, um.walkaddr (PGROUNDDOWN (srcva + i)) ≠ 0) ∧
      ((copyin um srcva len).1 = 0 →
        (copyin um srcva len).2 = (List.range len).map fun i => um.byteAt (srcva + i)) :=
  copyinLoop_ok um _ srcva len (Nat.lt_succ_self len)

/-- A copy out never changes which pages are mapped. -/
lemma walkaddr_copyoutLoop (fuel : Nat) (um : UserMem) (dstva : Nat) (src : List UInt8) :
    (copyoutLoop fuel um dstva src).2.walkaddr = um.walkaddr := by
  induction fuel generalizing um dstva src with
  | zero => rfl
  | succ fuel ih =>
    simp only [copyoutLoop]
    split
    · split
      · rfl
      · rw [ih, UserMem.walkaddr_write]
    · rfl

/-- `copyout` returns `0` or `-1`. -/
lemma copyoutLoop_status (fuel : Nat) (um : UserMem) (dstva : Nat) (src : List UInt8) :
    (copyoutLoop fuel um dstva src).1 = 0 ∨ (copyoutLoop fuel um dstva src).1 = -1 := by
  induction fuel generalizing um dstva src with
  | zero => exact .inl rfl
  | succ fuel ih =>
    simp only [copyoutLoop]
    split
    · split
      · exact .inr rfl
      · exact ih _ _ _
    · exact .inl rfl

/-! ## `either_copyin` and `either_copyout` -/

/-- The source of `either_copyin`: a kernel buffer (`user_src == 0`) or a user virtual address
in the calling process's address space (`user_src == 1`). -/
inductive Src where
  | kernel (buf : List UInt8)
  | user (um : UserMem) (va : Nat)

/-- `either_copyin(dst, user_src, src + off, len)`: the status and the bytes stored into `dst`.
A kernel source is a `memmove`, which cannot fail. -/
def Src.copyin : Src → Nat → Nat → Int × List UInt8
  | .kernel buf, off, len => (0, (List.range len).map fun i => buf.getD (off + i) 0)
  | .user um va, off, len => Xv6.copyin um (va + off) len

lemma Src.copyin_spec (src : Src) (off len : Nat) :
    ((src.copyin off len).1 = 0 ∧ (src.copyin off len).2.length = len) ∨
      ((src.copyin off len).1 = -1 ∧ (src.copyin off len).2.length < len) := by
  cases src with
  | kernel buf => exact .inl ⟨rfl, by simp [Src.copyin]⟩
  | user um va => exact Xv6.copyin_spec um (va + off) len

/-- A copy in of `m₁ + m₂` bytes succeeds exactly when its two parts do. -/
lemma Src.copyin_ok_append (src : Src) (off m₁ m₂ : Nat) :
    (src.copyin off (m₁ + m₂)).1 = 0 ↔
      (src.copyin off m₁).1 = 0 ∧ (src.copyin (off + m₁) m₂).1 = 0 := by
  cases src with
  | kernel buf => simp [Src.copyin]
  | user um va =>
    simp only [Src.copyin, (copyin_ok um _ _).1]
    constructor
    · intro h
      refine ⟨fun i hi => h i (by omega), fun j hj => ?_⟩
      have e : va + (off + m₁) + j = va + off + (m₁ + j) := by omega
      rw [e]
      exact h _ (by omega)
    · rintro ⟨h₁, h₂⟩ i hi
      by_cases hin : i < m₁
      · exact h₁ i hin
      · have e : va + off + i = va + (off + m₁) + (i - m₁) := by omega
        rw [e]
        exact h₂ _ (by omega)

/-- A copy in of `m₁ + m₂` bytes that succeeds returns the bytes of its two parts. -/
lemma Src.copyin_append (src : Src) (off m₁ m₂ : Nat) (h : (src.copyin off (m₁ + m₂)).1 = 0) :
    (src.copyin off (m₁ + m₂)).2 = (src.copyin off m₁).2 ++ (src.copyin (off + m₁) m₂).2 := by
  cases src with
  | kernel buf =>
    simp only [Src.copyin, List.range_add, List.map_append, List.map_map]
    refine congrArg₂ (· ++ ·) rfl (List.map_congr_left fun j _ => ?_)
    simp [Nat.add_assoc]
  | user um va =>
    obtain ⟨h₁, h₂⟩ := (Src.copyin_ok_append _ off m₁ m₂).1 h
    simp only [Src.copyin] at h h₁ h₂ ⊢
    rw [(copyin_ok um _ _).2 h, (copyin_ok um _ _).2 h₁, (copyin_ok um _ _).2 h₂, List.range_add,
      List.map_append, List.map_map]
    refine congrArg₂ (· ++ ·) rfl (List.map_congr_left fun j _ => ?_)
    simp [Nat.add_assoc]

/-- A copy in of a whole kernel buffer is the buffer. -/
lemma Src.copyin_kernel_length (buf : List UInt8) : (Src.kernel buf).copyin 0 buf.length = (0, buf) := by
  simp only [Src.copyin, Nat.zero_add, Prod.mk.injEq, true_and]
  apply List.ext_getElem (by simp)
  intro i _ hi
  simp [List.getElem?_eq_getElem hi]

/-- The destination of `either_copyout`: a kernel buffer (`user_dst == 0`) or a user virtual
address in the calling process's address space (`user_dst == 1`). -/
inductive Dst where
  | kernel (buf : List UInt8)
  | user (um : UserMem) (va : Nat)

/-- `either_copyout(user_dst, dst + off, src, len)` of the bytes `bs`: the status and the
destination after the stores. -/
def Dst.copyout : Dst → Nat → List UInt8 → Int × Dst
  | .kernel buf, off, bs => (0, .kernel (buf.take off ++ bs ++ buf.drop (off + bs.length)))
  | .user um va, off, bs => ((Xv6.copyout um (va + off) bs).1, .user (Xv6.copyout um (va + off) bs).2 va)

/-- The bytes of a kernel destination buffer. -/
def Dst.kernelBuf : Dst → List UInt8
  | .kernel buf => buf
  | .user _ _ => []

/-- Into a kernel buffer that ends where the copy starts, a copy out appends. -/
lemma Dst.copyout_kernel_of_length (buf bs : List UInt8) {off : Nat} (h : buf.length = off) :
    (Dst.kernel buf).copyout off bs = (0, .kernel (buf ++ bs)) := by
  simp [Dst.copyout, ← h]

end Xv6
