import Xv6.Vm.Copy
import Xv6.Lib.StateExcept

/-!
# Physical memory and page-table entries

The macros of `kernel/riscv.h` and `kernel/memlayout.h` over `uint64`, and the machine state the
virtual-memory code of `kernel/vm.c` and `kernel/kalloc.c` works on: physical memory and the head
of `kmem.freelist`. They live in namespace `Vm`, beside the `Nat` forms of `PGSIZE`, `MAXVA` and
`PGROUNDDOWN` that the user-memory view of `Vm.Copy` uses.

Physical memory is kept page by page: `mem f` is the page at physical address `f * PGSIZE`.
Every access the kernel makes stays inside one page (a PTE, a `struct run`, a whole-page
`memset` or `memmove`, a copy chunk that ends at the page boundary), so an address is split
into its frame and its offset. A word is read and stored little-endian, as RISC-V does.

A PTE holds `PA2PTE(pa) | flags`. For a page-aligned `pa` and flags below `2^10` the two parts
do not overlap: `PTE2PA` gives back `pa`, `PTE_FLAGS` the flags, and a test of a flag bit sees
only the flags (`PTE2PA_mk`, `PTE_FLAGS_mk`, `and_mk`).
-/

namespace Xv6

namespace Vm

/-! ## `riscv.h` and `memlayout.h` -/

/-- `PGSIZE` as a `uint64`. -/
def PGSIZE : UInt64 := 4096

/-- `PGROUNDUP(sz)`. -/
def PGROUNDUP (sz : UInt64) : UInt64 := (sz + PGSIZE - 1) &&& ~~~(PGSIZE - 1)

/-- `PGROUNDDOWN(a)`. -/
def PGROUNDDOWN (a : UInt64) : UInt64 := a &&& ~~~(PGSIZE - 1)

def PTE_V : UInt64 := (1 : UInt64) <<< 0
def PTE_R : UInt64 := (1 : UInt64) <<< 1
def PTE_W : UInt64 := (1 : UInt64) <<< 2
def PTE_X : UInt64 := (1 : UInt64) <<< 3
def PTE_U : UInt64 := (1 : UInt64) <<< 4

/-- `PA2PTE(pa)`: a physical address shifted to the right place for a PTE. -/
def PA2PTE (pa : UInt64) : UInt64 := (pa >>> 12) <<< 10

/-- `PTE2PA(pte)`. -/
def PTE2PA (pte : UInt64) : UInt64 := (pte >>> 10) <<< 12

/-- `PTE_FLAGS(pte)`. -/
def PTE_FLAGS (pte : UInt64) : UInt64 := pte &&& 0x3FF

def PXMASK : UInt64 := 0x1FF

/-- `PXSHIFT(level)`. -/
def PXSHIFT (level : Nat) : UInt64 := UInt64.ofNat (12 + 9 * level)

/-- `PX(level, va)`: the index into the page-table page of `level`. -/
def PX (level : Nat) (va : UInt64) : UInt64 := (va >>> PXSHIFT level) &&& PXMASK

/-- `MAXVA`: one beyond the highest virtual address. -/
def MAXVA : UInt64 := (1 : UInt64) <<< (9 + 9 + 9 + 12 - 1)

def KERNBASE : UInt64 := 0x80000000
def PHYSTOP : UInt64 := KERNBASE + 128 * 1024 * 1024

/-- `TRAMPOLINE`: the highest page, in user and kernel space. -/
def TRAMPOLINE : UInt64 := MAXVA - PGSIZE

/-- `TRAPFRAME`: the page below the trampoline. -/
def TRAPFRAME : UInt64 := TRAMPOLINE - PGSIZE

lemma PGSIZE_toNat : PGSIZE.toNat = Xv6.PGSIZE := rfl
lemma MAXVA_toNat : MAXVA.toNat = Xv6.MAXVA := rfl
lemma TRAMPOLINE_toNat : TRAMPOLINE.toNat = 2 ^ 38 - 4096 := rfl
lemma TRAPFRAME_toNat : TRAPFRAME.toNat = 2 ^ 38 - 2 * 4096 := rfl
lemma PHYSTOP_toNat : PHYSTOP.toNat = 0x88000000 := rfl

/-! ## Arithmetic of the macros -/

lemma toNat_shiftRight_const (x : UInt64) {n : Nat} (hn : n < 64) :
    (x >>> UInt64.ofNat n).toNat = x.toNat / 2 ^ n := by
  rw [UInt64.toNat_shiftRight, Nat.shiftRight_eq_div_pow, UInt64.toNat_ofNat',
    Nat.mod_eq_of_lt (by omega : n < 2 ^ 64), Nat.mod_eq_of_lt hn]

lemma toNat_and_two_pow_sub_one (x : UInt64) {n : Nat} (hn : n < 64) :
    (x &&& UInt64.ofNat (2 ^ n - 1)).toNat = x.toNat % 2 ^ n := by
  rw [UInt64.toNat_and, UInt64.toNat_ofNat', Nat.mod_eq_of_lt, Nat.and_two_pow_sub_one_eq_mod]
  have : 2 ^ n ≤ 2 ^ 64 := Nat.pow_le_pow_right (by decide) (by omega)
  omega

lemma PX_toNat (level : Nat) (hl : level < 3) (va : UInt64) :
    (PX level va).toNat = va.toNat / 2 ^ (12 + 9 * level) % 512 := by
  unfold PX PXSHIFT PXMASK
  rw [show (0x1FF : UInt64) = UInt64.ofNat (2 ^ 9 - 1) from rfl, toNat_and_two_pow_sub_one _ (by decide),
    toNat_shiftRight_const _ (by omega)]
  rfl

lemma PX_lt (level : Nat) (hl : level < 3) (va : UInt64) : (PX level va).toNat < 512 := by
  rw [PX_toNat level hl]
  exact Nat.mod_lt _ (by decide)

/-- Rounding down clears the offset within the page. -/
lemma PGROUNDDOWN_toNat (a : UInt64) : (PGROUNDDOWN a).toNat = a.toNat / 4096 * 4096 := by
  have hmask : (~~~(PGSIZE - 1)).toNat = (2 ^ 52 - 1) <<< 12 := rfl
  have hx := a.toNat_lt
  unfold PGROUNDDOWN
  rw [UInt64.toNat_and, hmask, show a.toNat / 4096 * 4096 = a.toNat >>> 12 <<< 12 by
    rw [Nat.shiftLeft_eq, Nat.shiftRight_eq_div_pow]]
  -- bit by bit: the mask keeps bits 12 to 63, and `a` has no bit from 64 on
  apply Nat.eq_of_testBit_eq
  intro i
  rw [Nat.testBit_and, Nat.testBit_shiftLeft, Nat.testBit_shiftLeft, Nat.testBit_shiftRight,
    Nat.testBit_two_pow_sub_one]
  by_cases hi : 12 ≤ i
  · have hi' : 12 + (i - 12) = i := by omega
    by_cases h64 : i < 64
    · simp [hi, hi', show i - 12 < 52 by omega]
    · have hbit : a.toNat.testBit i = false :=
        Nat.testBit_lt_two_pow (lt_of_lt_of_le hx (Nat.pow_le_pow_right (by decide) (by omega)))
      simp [hi, hi', hbit]
  · simp [hi]

/-! ## PTEs -/

/-- The PTE that maps `pa` with `flags`. -/
def mkPte (pa flags : UInt64) : UInt64 := PA2PTE pa ||| flags

lemma PA2PTE_toNat (pa : UInt64) : (PA2PTE pa).toNat = pa.toNat / 4096 * 1024 := by
  unfold PA2PTE
  rw [UInt64.toNat_shiftLeft, Nat.shiftLeft_eq, UInt64.toNat_shiftRight, Nat.shiftRight_eq_div_pow]
  have := pa.toNat_lt
  rw [show (12 : UInt64).toNat % 64 = 12 from rfl, show (10 : UInt64).toNat % 64 = 10 from rfl,
    Nat.mod_eq_of_lt (by omega)]

lemma mkPte_toNat (pa : UInt64) {flags : UInt64} (hf : flags.toNat < 1024) :
    (mkPte pa flags).toNat = pa.toNat / 4096 * 1024 + flags.toNat := by
  unfold mkPte
  rw [UInt64.toNat_or, PA2PTE_toNat, show 1024 = 2 ^ 10 from rfl, ← Nat.shiftLeft_eq,
    Nat.shiftLeft_add_eq_or_of_lt hf]

lemma PTE2PA_mk {pa flags : UInt64} (hpa : pa.toNat % 4096 = 0) (hf : flags.toNat < 1024) :
    PTE2PA (mkPte pa flags) = pa := by
  apply UInt64.toNat_inj.mp
  unfold PTE2PA
  rw [UInt64.toNat_shiftLeft, Nat.shiftLeft_eq, UInt64.toNat_shiftRight, Nat.shiftRight_eq_div_pow,
    mkPte_toNat pa hf]
  have := pa.toNat_lt
  rw [show (12 : UInt64).toNat % 64 = 12 from rfl, show (10 : UInt64).toNat % 64 = 10 from rfl]
  omega

lemma PTE_FLAGS_mk (pa : UInt64) {flags : UInt64} (hf : flags.toNat < 1024) :
    PTE_FLAGS (mkPte pa flags) = flags := by
  apply UInt64.toNat_inj.mp
  unfold PTE_FLAGS
  rw [show (0x3FF : UInt64) = UInt64.ofNat (2 ^ 10 - 1) from rfl, toNat_and_two_pow_sub_one _ (by decide),
    mkPte_toNat pa hf]
  omega

/-- A test of flag bits sees only the flags of a PTE. -/
lemma and_mk (pa : UInt64) {flags b : UInt64} (hb : b.toNat < 1024) :
    mkPte pa flags &&& b = flags &&& b := by
  apply UInt64.toNat_inj.mp
  rw [UInt64.toNat_and, UInt64.toNat_and]
  unfold mkPte
  rw [UInt64.toNat_or, Nat.and_comm, Nat.and_or_distrib_left, Nat.and_comm b.toNat,
    Nat.and_comm b.toNat]
  -- the address part lies in bits 10 and up, and `b` in bits below 10
  have : b.toNat &&& (PA2PTE pa).toNat = 0 := by
    rw [PA2PTE_toNat, show 1024 = 2 ^ 10 from rfl, ← Nat.shiftLeft_eq]
    apply Nat.eq_of_testBit_eq
    intro i
    rw [Nat.testBit_and, Nat.testBit_shiftLeft, Nat.zero_testBit]
    by_cases hi : 10 ≤ i
    · rw [Nat.testBit_lt_two_pow (lt_of_lt_of_le hb (Nat.pow_le_pow_right (by decide : 0 < 2) hi))]
      rfl
    · simp [hi]
  rw [Nat.and_comm, this, Nat.zero_or]

/-! ## The machine state -/

/-- A page of physical memory. -/
abbrev Page := Bytes Xv6.PGSIZE

/-- What the virtual-memory code reads and writes: physical memory, page by page, and
`kmem.freelist`, with the two addresses the linker fixes, `end` (the first address after the
kernel) and `trampoline`. -/
structure VmState where
  mem : Nat → Page
  freelist : UInt64
  kernelEnd : UInt64
  trampoline : UInt64

/-- Virtual-memory code over `VmState` that may panic. -/
abbrev VmM := StateT VmState (Except String)

/-- The frame that holds physical address `pa`. -/
def frame (pa : UInt64) : Nat := pa.toNat / Xv6.PGSIZE

/-- The offset of `pa` within its frame. -/
def offset (pa : UInt64) : Nat := pa.toNat % Xv6.PGSIZE

/-- `*(uint64 *)pa` in the memory `mem`. -/
def read64 (mem : Nat → Page) (pa : UInt64) : UInt64 :=
  UInt64.ofNat ((mem (frame pa)).getLE (offset pa) 8)

/-- The memory after `*(uint64 *)pa = v`. -/
def VmState.setWord (s : VmState) (pa v : UInt64) : VmState :=
  { s with mem := Function.update s.mem (frame pa) ((s.mem (frame pa)).setLE (offset pa) 8 v.toNat) }

/-- `*(uint64 *)pa = v`. -/
def write64 (pa v : UInt64) : VmM Unit := modify fun s => s.setWord pa v

/-- The memory after every byte of the page at `pa` is set to `c`. -/
def VmState.fill (s : VmState) (pa : UInt64) (c : UInt8) : VmState :=
  { s with mem := Function.update s.mem (frame pa) (fun _ => c) }

/-- `memset(pa, c, PGSIZE)` of the page at `pa`. -/
def memset (pa : UInt64) (c : UInt8) : VmM Unit := modify fun s => s.fill pa c

/-- The memory after the page at `src` is copied over the page at `dst`. -/
def VmState.copyPage (s : VmState) (dst src : UInt64) : VmState :=
  { s with mem := Function.update s.mem (frame dst) (s.mem (frame src)) }

/-- `memmove(dst, src, PGSIZE)` of whole pages. -/
def memmove (dst src : UInt64) : VmM Unit := modify fun s => s.copyPage dst src

/-- `*(uint *)pa` or `*(int *)pa`: the 32-bit word at `pa`. -/
def read32 (mem : Nat → Page) (pa : UInt64) : UInt32 :=
  UInt32.ofNat ((mem (frame pa)).getLE (offset pa) 4)

/-- The memory after `*(uint *)pa = v`. -/
def VmState.setWord32 (s : VmState) (pa : UInt64) (v : UInt32) : VmState :=
  { s with mem := Function.update s.mem (frame pa) ((s.mem (frame pa)).setLE (offset pa) 4 v.toNat) }

/-- `*(uint *)pa = v`. -/
def write32 (pa : UInt64) (v : UInt32) : VmM Unit := modify fun s => s.setWord32 pa v

/-- The `n` bytes at `pa`, within its page. -/
def readBytes (mem : Nat → Page) (pa : UInt64) (n : Nat) : List UInt8 :=
  (mem (frame pa)).getBytes (offset pa) n

/-- The memory after `memmove(pa, bs, len(bs))` within the page at `pa`. -/
def VmState.writeBytes (s : VmState) (pa : UInt64) (bs : List UInt8) : VmState :=
  { s with mem := Function.update s.mem (frame pa) ((s.mem (frame pa)).setBytes (offset pa) bs) }

/-- `memmove(pa, bs, len(bs))` from a kernel buffer into the page at `pa`. -/
def writeBytes (pa : UInt64) (bs : List UInt8) : VmM Unit := modify fun s => s.writeBytes pa bs

/-! ## Read-after-write -/

/-- A word that does not cross its page: its address is 8-aligned. -/
def Aligned8 (pa : UInt64) : Prop := pa.toNat % 8 = 0

lemma offset_add_le {pa : UInt64} (h : Aligned8 pa) : offset pa + 8 ≤ Xv6.PGSIZE := by
  unfold offset Aligned8 at *
  unfold Xv6.PGSIZE
  omega

@[simp] lemma read64_setWord_self (s : VmState) {pa : UInt64} (h : Aligned8 pa) (v : UInt64) :
    read64 (s.setWord pa v).mem pa = v := by
  simp only [read64, VmState.setWord, Function.update_self]
  rw [Bytes.getLE_setLE_self _ _ (offset_add_le h), Nat.mod_eq_of_lt (by
    have := v.toNat_lt
    simpa using this)]
  exact UInt64.ofNat_toNat

/-- A word in another frame, or elsewhere in the same frame, is not touched. -/
lemma read64_setWord_of_ne (s : VmState) {pa pa' : UInt64} (v : UInt64) (h : Aligned8 pa)
    (h' : Aligned8 pa') (hne : pa' ≠ pa) : read64 (s.setWord pa v).mem pa' = read64 s.mem pa' := by
  unfold read64 VmState.setWord
  dsimp only
  by_cases hf : frame pa' = frame pa
  · rw [hf, Function.update_self, ← hf]
    -- two distinct 8-aligned words of one page are disjoint
    have hne' : pa'.toNat ≠ pa.toNat := fun e => hne (UInt64.toNat_inj.mp e)
    rw [hf, Bytes.getLE_setLE_of_disjoint]
    unfold offset frame Aligned8 Xv6.PGSIZE at *
    omega
  · rw [Function.update_of_ne hf]

@[simp] lemma setWord_freelist (s : VmState) (pa v : UInt64) : (s.setWord pa v).freelist = s.freelist := rfl
@[simp] lemma setWord_kernelEnd (s : VmState) (pa v : UInt64) : (s.setWord pa v).kernelEnd = s.kernelEnd := rfl
@[simp] lemma setWord_trampoline (s : VmState) (pa v : UInt64) :
    (s.setWord pa v).trampoline = s.trampoline := rfl

/-- A store into one frame leaves every other frame alone. -/
lemma setWord_mem_of_ne (s : VmState) {pa : UInt64} (v : UInt64) {f : Nat} (hf : f ≠ frame pa) :
    (s.setWord pa v).mem f = s.mem f := Function.update_of_ne hf _ _

open StateExcept in
@[simp] lemma run_write64 (pa v : UInt64) (s : VmState) : (write64 pa v).run s = .ok ((), s.setWord pa v) := rfl

open StateExcept in
@[simp] lemma run_memset (pa : UInt64) (c : UInt8) (s : VmState) :
    (memset pa c).run s = .ok ((), s.fill pa c) := rfl

open StateExcept in
@[simp] lemma run_writeBytes (pa : UInt64) (bs : List UInt8) (s : VmState) :
    (writeBytes pa bs).run s = .ok ((), s.writeBytes pa bs) := rfl

open StateExcept in
@[simp] lemma run_memmove (dst src : UInt64) (s : VmState) :
    (memmove dst src).run s = .ok ((), s.copyPage dst src) := rfl

@[simp] lemma fill_freelist (s : VmState) (pa : UInt64) (c : UInt8) : (s.fill pa c).freelist = s.freelist := rfl
@[simp] lemma fill_kernelEnd (s : VmState) (pa : UInt64) (c : UInt8) : (s.fill pa c).kernelEnd = s.kernelEnd := rfl
@[simp] lemma fill_trampoline (s : VmState) (pa : UInt64) (c : UInt8) :
    (s.fill pa c).trampoline = s.trampoline := rfl

lemma fill_mem_of_ne (s : VmState) {pa : UInt64} (c : UInt8) {f : Nat} (hf : f ≠ frame pa) :
    (s.fill pa c).mem f = s.mem f := Function.update_of_ne hf _ _

end Vm

end Xv6
