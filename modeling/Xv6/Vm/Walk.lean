import Xv6.Vm.Kalloc

/-!
# Page tables

Model of the user page-table code of `kernel/vm.c`: `walk`, `walkaddr`, `mappages`,
`uvmunmap`, `uvmcreate`, `uvmfirst`, `uvmalloc`, `uvmdealloc`, `freewalk`, `uvmfree`,
`uvmcopy`, `uvmclear`, `copyout`, `copyin` and `copyinstr`.

A `pagetable_t` and a `pte_t *` are physical addresses, `0` standing for `NULL`. `walk`'s loop
over levels 2 and 1 is written out as two rounds of `walkLevel`. The other loops carry a fuel
bound: the number of pages their range spans, plus one, which is always enough (each round moves
on by a page, and `walk` panics before an address could wrap). `freewalk` recurses as deep as
valid non-leaf PTEs lead; a tree that `walk` builds has three levels, the depth `uvmfree` allows,
and a fourth level, which only a corrupt tree has, ends in the panic `"freewalk: depth"` where
the C recursion would go on.

An `int perm` reaches the PTE as `PA2PTE(pa) | perm | PTE_V`, sign-extended to 64 bits.
-/

namespace Xv6

namespace Vm

open StateExcept

/-- `int perm` as it is or-ed into a PTE. -/
def permBits (perm : Int32) : UInt64 := perm.toInt64.toUInt64

/-- A 64-bit flag set passed as `int`. -/
def toPerm (flags : UInt64) : Int32 := flags.toUInt32.toInt32

/-- The address of the PTE for `va` in the page-table page `pagetable` of `level`. -/
def pteAddr (pagetable : UInt64) (level : Nat) (va : UInt64) : UInt64 := pagetable + 8 * PX level va

/-- One round of `walk`'s loop: the page-table page of the next level, allocated when `alloc`
asks for it, or `none` where `walk` returns `0`. -/
def walkLevel (va : UInt64) (alloc : Bool) (pagetable : UInt64) (level : Nat) :
    VmM (Option UInt64) := do
  let pte := pteAddr pagetable level va
  let v := read64 (← get).mem pte
  if v &&& PTE_V != 0 then pure (some (PTE2PA v))
  else if !alloc then pure none
  else do
    let pt ← kalloc
    if pt == 0 then pure none
    else do
      memset pt 0
      write64 pte (PA2PTE pt ||| PTE_V)
      pure (some pt)

/-- `walk(pagetable, va, alloc)`: the address of the level-0 PTE for `va`, or `0`. -/
def walk (pagetable va : UInt64) (alloc : Bool) : VmM UInt64 := do
  if va ≥ MAXVA then throw "walk"
  match ← walkLevel va alloc pagetable 2 with
  | none => pure 0
  | some pt =>
    match ← walkLevel va alloc pt 1 with
    | none => pure 0
    | some pt => pure (pteAddr pt 0 va)

/-- `walkaddr(pagetable, va)`: the physical address a user page is mapped to, or `0`. -/
def walkaddr (pagetable va : UInt64) : VmM UInt64 := do
  if va ≥ MAXVA then pure 0
  else do
    let pte ← walk pagetable va false
    if pte == 0 then pure 0
    else
      let v := read64 (← get).mem pte
      if v &&& PTE_V == 0 then pure 0
      else if v &&& PTE_U == 0 then pure 0
      else pure (PTE2PA v)

/-- The loop of `mappages` from page `a`, mapped to `pa`, up to `last`. -/
def mappagesLoop (pagetable last : UInt64) (perm : Int32) : Nat → UInt64 → UInt64 → VmM Int
  | 0, _, _ => pure 0
  | fuel + 1, a, pa => do
    let pte ← walk pagetable a true
    if pte == 0 then pure (-1)
    else if read64 (← get).mem pte &&& PTE_V != 0 then throw "mappages: remap"
    else do
      write64 pte (PA2PTE pa ||| permBits perm ||| PTE_V)
      if a == last then pure 0
      else mappagesLoop pagetable last perm fuel (a + PGSIZE) (pa + PGSIZE)

/-- The number of pages from `a` to `last`, both page-aligned. -/
def pagesBetween (a last : UInt64) : Nat := (last - a).toNat / Xv6.PGSIZE + 1

/-- `mappages(pagetable, va, size, pa, perm)`. -/
def mappages (pagetable va size pa : UInt64) (perm : Int32) : VmM Int := do
  if size == 0 then throw "mappages: size"
  let a := PGROUNDDOWN va
  let last := PGROUNDDOWN (va + size - 1)
  mappagesLoop pagetable last perm (pagesBetween a last) a pa

/-- The loop of `uvmunmap` from page `a` while `a < stop`. -/
def uvmunmapLoop (pagetable stop : UInt64) (do_free : Bool) : Nat → UInt64 → VmM Unit
  | 0, _ => pure ()
  | fuel + 1, a =>
    if a < stop then do
      let pte ← walk pagetable a false
      if pte == 0 then throw "uvmunmap: walk"
      let v := read64 (← get).mem pte
      if v &&& PTE_V == 0 then throw "uvmunmap: not mapped"
      if PTE_FLAGS v == PTE_V then throw "uvmunmap: not a leaf"
      if do_free then kfree (PTE2PA v)
      write64 pte 0
      uvmunmapLoop pagetable stop do_free fuel (a + PGSIZE)
    else pure ()

/-- `uvmunmap(pagetable, va, npages, do_free)`. -/
def uvmunmap (pagetable va npages : UInt64) (do_free : Bool) : VmM Unit := do
  if va % PGSIZE != 0 then throw "uvmunmap: not aligned"
  uvmunmapLoop pagetable (va + npages * PGSIZE) do_free npages.toNat va

/-- `uvmcreate()`: an empty page table, or `0`. -/
def uvmcreate : VmM UInt64 := do
  let pagetable ← kalloc
  if pagetable == 0 then pure 0
  else do
    memset pagetable 0
    pure pagetable

/-- `uvmfirst(pagetable, src, sz)`: the first process's page at address 0. -/
def uvmfirst (pagetable : UInt64) (src : List UInt8) (sz : UInt32) : VmM Unit := do
  if sz.toUInt64 ≥ PGSIZE then throw "uvmfirst: more than a page"
  let mem ← kalloc
  memset mem 0
  let _ ← mappages pagetable 0 PGSIZE mem (toPerm (PTE_W ||| PTE_R ||| PTE_X ||| PTE_U))
  writeBytes mem (src.take sz.toNat)

/-- `uvmdealloc(pagetable, oldsz, newsz)`: the new size. -/
def uvmdealloc (pagetable oldsz newsz : UInt64) : VmM UInt64 := do
  if newsz ≥ oldsz then pure oldsz
  else do
    if PGROUNDUP newsz < PGROUNDUP oldsz then
      -- `int npages`, passed on as a `uint64`
      let npages : Int32 := ((PGROUNDUP oldsz - PGROUNDUP newsz) / PGSIZE).toUInt32.toInt32
      uvmunmap pagetable (PGROUNDUP newsz) npages.toInt64.toUInt64 true
    pure newsz

/-- The loop of `uvmalloc` from page `a` up to `newsz`; `oldsz` is already rounded up. -/
def uvmallocLoop (pagetable oldsz newsz : UInt64) (xperm : Int32) : Nat → UInt64 → VmM UInt64
  | 0, _ => pure newsz
  | fuel + 1, a =>
    if a < newsz then do
      let mem ← kalloc
      if mem == 0 then do
        let _ ← uvmdealloc pagetable a oldsz
        pure 0
      else do
        memset mem 0
        if (← mappages pagetable a PGSIZE mem (toPerm (PTE_R ||| PTE_U) ||| xperm)) != 0 then do
          kfree mem
          let _ ← uvmdealloc pagetable a oldsz
          pure 0
        else uvmallocLoop pagetable oldsz newsz xperm fuel (a + PGSIZE)
    else pure newsz

/-- `uvmalloc(pagetable, oldsz, newsz, xperm)`: the new size, or `0`. -/
def uvmalloc (pagetable oldsz newsz : UInt64) (xperm : Int32) : VmM UInt64 := do
  if newsz < oldsz then pure oldsz
  else
    let oldsz := PGROUNDUP oldsz
    uvmallocLoop pagetable oldsz newsz xperm ((newsz - oldsz).toNat / Xv6.PGSIZE + 1) oldsz

/-- `freewalk(pagetable)`, recursing at most `depth` levels. -/
def freewalk : Nat → UInt64 → VmM Unit
  | 0, _ => throw "freewalk: depth"
  | depth + 1, pagetable => do
    forM (List.range 512) fun i => do
      let pte := read64 (← get).mem (pagetable + 8 * UInt64.ofNat i)
      if pte &&& PTE_V != 0 && pte &&& (PTE_R ||| PTE_W ||| PTE_X) == 0 then do
        -- this PTE points to a lower-level page table
        freewalk depth (PTE2PA pte)
        write64 (pagetable + 8 * UInt64.ofNat i) 0
      else if pte &&& PTE_V != 0 then throw "freewalk: leaf"
    kfree pagetable

/-- `uvmfree(pagetable, sz)`. -/
def uvmfree (pagetable sz : UInt64) : VmM Unit := do
  if sz > 0 then uvmunmap pagetable 0 (PGROUNDUP sz / PGSIZE) true
  freewalk 3 pagetable

/-- The loop of `uvmcopy` from address `i`. -/
def uvmcopyLoop (old new sz : UInt64) : Nat → UInt64 → VmM Int
  | 0, _ => pure 0
  | fuel + 1, i =>
    if i < sz then do
      let pte ← walk old i false
      if pte == 0 then throw "uvmcopy: pte should exist"
      let v := read64 (← get).mem pte
      if v &&& PTE_V == 0 then throw "uvmcopy: page not present"
      let pa := PTE2PA v
      let flags : UInt32 := (PTE_FLAGS v).toUInt32
      let mem ← kalloc
      if mem == 0 then do
        uvmunmap new 0 (i / PGSIZE) true
        pure (-1)
      else do
        memmove mem pa
        if (← mappages new i PGSIZE mem flags.toInt32) != 0 then do
          kfree mem
          uvmunmap new 0 (i / PGSIZE) true
          pure (-1)
        else uvmcopyLoop old new sz fuel (i + PGSIZE)
    else pure 0

/-- `uvmcopy(old, new, sz)`: `0`, or `-1` after freeing what it mapped. -/
def uvmcopy (old new sz : UInt64) : VmM Int :=
  uvmcopyLoop old new sz (sz.toNat / Xv6.PGSIZE + 1) 0

/-- `uvmclear(pagetable, va)`: clear `PTE_U`. -/
def uvmclear (pagetable va : UInt64) : VmM Unit := do
  let pte ← walk pagetable va false
  if pte == 0 then throw "uvmclear"
  write64 pte (read64 (← get).mem pte &&& ~~~PTE_U)

/-! ## Copies between the kernel and user memory -/

/-- The loop of `copyout`: `i` bytes of `src` copied so far. -/
def copyoutLoop (pagetable : UInt64) (src : List UInt8) : Nat → UInt64 → UInt64 → Nat → VmM Int
  | 0, _, _, _ => pure 0
  | fuel + 1, dstva, len, i =>
    if len > 0 then do
      let va0 := PGROUNDDOWN dstva
      let pa0 ← walkaddr pagetable va0
      if pa0 == 0 then pure (-1)
      else do
        let n := min (PGSIZE - (dstva - va0)) len
        writeBytes (pa0 + (dstva - va0)) ((src.drop i).take n.toNat)
        copyoutLoop pagetable src fuel (va0 + PGSIZE) (len - n) (i + n.toNat)
    else pure 0

/-- `copyout(pagetable, dstva, src, len)`: copy the first `len` bytes of the kernel buffer `src`. -/
def copyout (pagetable dstva : UInt64) (src : List UInt8) (len : UInt64) : VmM Int :=
  copyoutLoop pagetable src (len.toNat + 1) dstva len 0

/-- `copyout` returns `0` or `-1`. -/
lemma copyoutLoop_result {pagetable : UInt64} {src : List UInt8} {fuel : Nat} :
    ∀ {dstva len : UInt64} {i : Nat} {s s' : VmState} {r : Int},
      (copyoutLoop pagetable src fuel dstva len i).run s = .ok (r, s') → r = 0 ∨ r = -1 := by
  induction fuel with
  | zero => exact fun h => .inl (Prod.mk.inj (run_pure_eq_ok.mp h)).1
  | succ fuel ih =>
    intro dstva len i s s' r h
    unfold copyoutLoop at h
    split at h
    · obtain ⟨pa0, s₁, -, h⟩ := run_bind_eq_ok.mp h
      split at h
      · exact .inr (Prod.mk.inj (run_pure_eq_ok.mp h)).1
      · obtain ⟨_, s₂, -, h⟩ := run_bind_eq_ok.mp h
        exact ih h
    · exact .inl (Prod.mk.inj (run_pure_eq_ok.mp h)).1

/-- The loop of `copyin`: the status and the bytes stored into `dst`. -/
def copyinLoop (pagetable : UInt64) : Nat → UInt64 → UInt64 → VmM (Int × List UInt8)
  | 0, _, _ => pure (0, [])
  | fuel + 1, srcva, len =>
    if len > 0 then do
      let va0 := PGROUNDDOWN srcva
      let pa0 ← walkaddr pagetable va0
      if pa0 == 0 then pure (-1, [])
      else do
        let n := min (PGSIZE - (srcva - va0)) len
        let bytes := readBytes (← get).mem (pa0 + (srcva - va0)) n.toNat
        let (r, rest) ← copyinLoop pagetable fuel (va0 + PGSIZE) (len - n)
        pure (r, bytes ++ rest)
    else pure (0, [])

/-- `copyin(pagetable, dst, srcva, len)`: the status and the bytes stored into `dst`. -/
def copyin (pagetable srcva len : UInt64) : VmM (Int × List UInt8) :=
  copyinLoop pagetable (len.toNat + 1) srcva len

/-- The inner loop of `copyinstr` over the bytes of one page from `p`: whether it met the NUL,
the bytes stored into `dst`, and what is left of `max`. -/
def copyinstrPage (mem : Nat → Page) : Nat → UInt64 → UInt64 → Bool × List UInt8 × UInt64
  | 0, _, max => (false, [], max)
  | n + 1, p, max =>
    let c := (readBytes mem p 1).headD 0
    if c == 0 then (true, [0], max)
    else
      let r := copyinstrPage mem n (p + 1) (max - 1)
      (r.1, c :: r.2.1, r.2.2)

/-- The outer loop of `copyinstr`. -/
def copyinstrLoop (pagetable : UInt64) : Nat → UInt64 → UInt64 → VmM (Int × List UInt8)
  | 0, _, _ => pure (-1, [])
  | fuel + 1, srcva, max =>
    if max > 0 then do
      let va0 := PGROUNDDOWN srcva
      let pa0 ← walkaddr pagetable va0
      if pa0 == 0 then pure (-1, [])
      else do
        let n := min (PGSIZE - (srcva - va0)) max
        let (got_null, bytes, max) := copyinstrPage (← get).mem n.toNat (pa0 + (srcva - va0)) max
        if got_null then pure (0, bytes)
        else do
          let (r, rest) ← copyinstrLoop pagetable fuel (va0 + PGSIZE) max
          pure (r, bytes ++ rest)
    else pure (-1, [])

/-- `copyinstr(pagetable, dst, srcva, max)`: the status and the bytes stored into `dst`. -/
def copyinstr (pagetable srcva max : UInt64) : VmM (Int × List UInt8) :=
  copyinstrLoop pagetable (max.toNat + 1) srcva max

end Vm

end Xv6
