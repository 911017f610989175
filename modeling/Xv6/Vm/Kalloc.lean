import Xv6.Vm.Memory
import Xv6.Lib.SList

/-!
# The physical page allocator

Model of `kernel/kalloc.c`. The free pages form a list threaded through the pages themselves:
the first word of a free page (`struct run`'s `next`) is the address of the following free
page, and `kmem.freelist` is the first. `kfree` fills the page with junk (1s) and pushes it;
`kalloc` pops the head and fills it with other junk (5s).

`Free s l` is the allocator's invariant: the free list of `s` is the chain `l` of distinct,
page-aligned frames of the pool `[end, PHYSTOP)`. `kalloc_spec` and `kfree_spec` say all that a
call does to it and to the rest of memory: a popped page leaves the list and only its own frame
changes, a pushed page joins it and only its own frame changes.
-/

namespace Xv6

namespace Vm

open StateExcept

/-- `kfree(pa)`: panics on an address that is not a page of `[end, PHYSTOP)`. -/
def kfree (pa : UInt64) : VmM Unit := do
  let s ← get
  if pa % PGSIZE != 0 || pa < s.kernelEnd || pa ≥ PHYSTOP then throw "kfree"
  -- fill with junk to catch dangling refs
  memset pa 1
  -- r->next = kmem.freelist; kmem.freelist = r
  write64 pa (← get).freelist
  modify fun s => { s with freelist := pa }

/-- `kalloc()`: the first free page, filled with junk, or `0`. -/
def kalloc : VmM UInt64 := do
  let s ← get
  let r := s.freelist
  if r != 0 then do
    set { s with freelist := read64 s.mem r }
    memset r 5
  pure r

/-- The loop of `freerange`, from the page at `p`. -/
def freerangeLoop (pa_end : UInt64) : Nat → UInt64 → VmM Unit
  | 0, _ => pure ()
  | fuel + 1, p =>
    if p + PGSIZE ≤ pa_end then do
      kfree p
      freerangeLoop pa_end fuel (p + PGSIZE)
    else pure ()

/-- `freerange(pa_start, pa_end)`: free every whole page between the two addresses. -/
def freerange (pa_start pa_end : UInt64) : VmM Unit :=
  freerangeLoop pa_end ((pa_end - PGROUNDUP pa_start).toNat / Xv6.PGSIZE + 1) (PGROUNDUP pa_start)

/-- `kinit()`. -/
def kinit : VmM Unit := do
  freerange (← get).kernelEnd PHYSTOP

/-! ## The free list -/

/-- A page-aligned address. -/
def PageAligned (pa : UInt64) : Prop := pa.toNat % Xv6.PGSIZE = 0

lemma PageAligned.aligned8 {pa : UInt64} (h : PageAligned pa) : Aligned8 pa := by
  unfold PageAligned Aligned8 Xv6.PGSIZE at *
  omega

lemma PageAligned.offset_eq {pa : UInt64} (h : PageAligned pa) : offset pa = 0 := h

/-- Two page-aligned addresses share a frame only when they are equal. -/
lemma PageAligned.frame_inj {pa pa' : UInt64} (h : PageAligned pa) (h' : PageAligned pa')
    (he : frame pa = frame pa') : pa = pa' := by
  apply UInt64.toNat_inj.mp
  unfold PageAligned frame Xv6.PGSIZE at *
  omega

/-- The allocator's invariant: `l` is the free list, its pages distinct and page-aligned, in
the pool `[end, PHYSTOP)`. -/
structure Free (s : VmState) (l : List UInt64) : Prop where
  chain : SList.Chain (read64 s.mem) 0 s.freelist l
  nodup : l.Nodup
  aligned : ∀ p ∈ l, PageAligned p
  pool : ∀ p ∈ l, s.kernelEnd ≤ p ∧ p < PHYSTOP

/-- The free list reads each page's first word, which lies in the page's own frame: a change
to other frames keeps it. -/
lemma Free.of_mem_eq {s s' : VmState} {l : List UInt64} (h : Free s l)
    (hfl : s'.freelist = s.freelist) (hend : s'.kernelEnd = s.kernelEnd)
    (hmem : ∀ p ∈ l, s'.mem (frame p) = s.mem (frame p)) : Free s' l where
  chain := by
    rw [hfl]
    exact h.chain.congr fun p hp => by unfold read64; rw [hmem p hp]
  nodup := h.nodup
  aligned := h.aligned
  pool := fun p hp => hend ▸ h.pool p hp

/-- The frame of a free page is not the frame of any other free page. -/
lemma Free.frame_ne {s : VmState} {l : List UInt64} (h : Free s l) {p q : UInt64} (hp : p ∈ l)
    (hq : q ∈ l) (hne : p ≠ q) : frame p ≠ frame q :=
  fun he => hne ((h.aligned p hp).frame_inj (h.aligned q hq) he)

/-- The state `kalloc` leaves when it pops `r`. -/
def VmState.popped (s : VmState) (r : UInt64) : VmState := { s with freelist := read64 s.mem r }.fill r 5

/-- `kalloc` with an empty free list returns `0` and changes nothing. -/
lemma kalloc_empty {s : VmState} (h : Free s []) : kalloc.run s = .ok (0, s) := by
  have h0 : s.freelist = 0 := h.chain
  simp only [kalloc, run_bind, run_get, h0, bne_self_eq_false, Bool.false_eq_true, ↓reduceIte,
    run_pure]

/-- `kalloc` pops the head `r` of the free list and returns it. -/
lemma kalloc_cons {s : VmState} {r : UInt64} {l : List UInt64} (h : Free s (r :: l)) :
    kalloc.run s = .ok (r, s.popped r) := by
  obtain ⟨rfl, hr0, -⟩ := h.chain
  have : (s.freelist != 0) = true := bne_iff_ne.mpr hr0
  simp only [kalloc, run_bind, run_get, this, ↓reduceIte, run_set, run_memset, run_pure]
  rfl

/-- After a pop, the rest of the list is free: the filled frame is not one of theirs. -/
lemma Free.popped {s : VmState} {r : UInt64} {l : List UInt64} (h : Free s (r :: l)) :
    Free (s.popped r) l := by
  have hrest : Free { s with freelist := read64 s.mem r } l :=
    { chain := h.chain.tail
      nodup := (List.nodup_cons.mp h.nodup).2
      aligned := fun p hp => h.aligned p (List.mem_cons_of_mem r hp)
      pool := fun p hp => h.pool p (List.mem_cons_of_mem r hp) }
  refine hrest.of_mem_eq rfl rfl fun p hp => ?_
  have hne : p ≠ r := fun e => (List.nodup_cons.mp h.nodup).1 (e ▸ hp)
  have hf := h.frame_ne (List.mem_cons_of_mem r hp) List.mem_cons_self hne
  exact fill_mem_of_ne _ 5 hf

/-- What `kalloc` does: on an empty free list it returns `0` and changes nothing; otherwise it
pops the head `r`, a page-aligned frame of the pool, and the rest stays free. -/
lemma kalloc_spec {s : VmState} {l : List UInt64} (h : Free s l) :
    (l = [] ∧ kalloc.run s = .ok (0, s)) ∨
      ∃ r l', l = r :: l' ∧ r ≠ 0 ∧ PageAligned r ∧ r ∉ l' ∧
        kalloc.run s = .ok (r, s.popped r) ∧ Free (s.popped r) l' := by
  cases l with
  | nil => exact .inl ⟨rfl, kalloc_empty h⟩
  | cons r l' =>
    exact .inr ⟨r, l', rfl, h.chain.2.1, h.aligned r List.mem_cons_self,
      (List.nodup_cons.mp h.nodup).1, kalloc_cons h, h.popped⟩

/-- The state `kfree(pa)` leaves: the page filled with 1s, its first word pointing to the old
head, and the head `pa`. -/
def VmState.freed (s : VmState) (pa : UInt64) : VmState :=
  { (s.fill pa 1).setWord pa s.freelist with freelist := pa }

/-- `kfree` of a page of the pool pushes it on the free list. -/
lemma kfree_ok {s : VmState} {pa : UInt64} (hpa : PageAligned pa) (hlo : s.kernelEnd ≤ pa)
    (hhi : pa < PHYSTOP) : (kfree pa).run s = .ok ((), s.freed pa) := by
  have hmod : pa % PGSIZE = 0 := UInt64.toNat_inj.mp (by rw [UInt64.toNat_mod]; exact hpa)
  have hcheck : (pa % PGSIZE != 0 || decide (pa < s.kernelEnd) || decide (pa ≥ PHYSTOP)) = false := by
    simp only [hmod, bne_self_eq_false, Bool.false_or, Bool.or_eq_false_iff, decide_eq_false_iff_not]
    exact ⟨UInt64.not_lt.mpr hlo, UInt64.not_le.mpr hhi⟩
  simp only [kfree, run_bind, run_get, hcheck, Bool.false_eq_true, ↓reduceIte, run_memset,
    run_write64, run_modify]
  rfl

/-- A pushed page joins the free list, and the pages already free stay free. -/
lemma Free.freed {s : VmState} {l : List UInt64} (h : Free s l) (hend : 0 < s.kernelEnd)
    {pa : UInt64} (hpa : PageAligned pa) (hlo : s.kernelEnd ≤ pa) (hhi : pa < PHYSTOP)
    (hnot : pa ∉ l) : Free (s.freed pa) (pa :: l) where
  chain := by
    refine h.chain.push (fun e => ?_) ?_ fun p hp => ?_
    · -- the pool lies above `end`, which is above address 0
      have := UInt64.lt_of_lt_of_le hend hlo
      rw [show pa = 0 from e] at this
      exact absurd this (UInt64.lt_irrefl 0)
    · exact read64_setWord_self _ hpa.aligned8 _
    · have hne : p ≠ pa := fun e => hnot (e ▸ hp)
      have hf : frame p ≠ frame pa := fun e => hne ((h.aligned p hp).frame_inj hpa e)
      show read64 ((s.fill pa 1).setWord pa s.freelist).mem p = read64 s.mem p
      rw [read64_setWord_of_ne _ _ hpa.aligned8 (h.aligned p hp).aligned8 hne]
      unfold read64
      rw [fill_mem_of_ne _ _ hf]
  nodup := List.nodup_cons.mpr ⟨hnot, h.nodup⟩
  aligned := fun p hp => by
    rcases List.mem_cons.mp hp with rfl | hp
    · exact hpa
    · exact h.aligned p hp
  pool := fun p hp => by
    rcases List.mem_cons.mp hp with rfl | hp
    · exact ⟨hlo, hhi⟩
    · exact h.pool p hp

end Vm

end Xv6
