import Xv6.Fs.ReadWrite

/-!
# What `readi` and `writei` do to a file's contents

`readi` and `writei` refuse a range that starts past the end of the file or wraps around,
and `writei` one that ends past `MAXFILE` blocks; a refused call changes nothing.

A round of `writei`'s loop whose copy-in faults leaves the loop with the count of the rounds
before it. The bytes that the faulting copy-in moved before the fault are in the block's buffer
all the same, and nothing logs them: the file's contents change by bytes that `writei` does not
report (`writei_fault_keeps_bytes`). `copyin` faults partway when the user buffer runs from a
mapped page into an unmapped one.
-/

namespace Xv6.Fs

open StateExcept

variable {s s₁ : FsState} {ip : Fin NINODE}

/-- `writei` refuses a write that starts past the end, wraps around, or ends past `MAXFILE`
blocks; it then changes nothing. -/
theorem writei_refused (src : Src) {off n : UInt32}
    (h : off > (s.inode ip).di.size ∨ off + n < off ∨ off + n > UInt32.ofNat (MAXFILE * BSIZE)) :
    (writei ip src off n).run s = .ok (-1, s) := by
  by_cases h₁ : off > (s.inode ip).di.size ∨ off + n < off
  · simp only [writei, run_bind, run_get, Bool.or_eq_true, decide_eq_true_eq, h₁, ↓reduceIte,
      run_pure]
  · have h₂ : off + n > UInt32.ofNat (MAXFILE * BSIZE) := by tauto
    simp only [writei, run_bind, run_get, Bool.or_eq_true, decide_eq_true_eq, h₁, h₂, ↓reduceIte,
      run_pure]

/-- `readi` returns 0 for a read that starts past the end or wraps around, and changes nothing. -/
theorem readi_refused (dst : Dst) {off n : UInt32}
    (h : off > (s.inode ip).di.size ∨ off + n < off) :
    (readi ip dst off n).run s = .ok ((0, dst), s) := by
  simp only [readi, run_bind, run_get, Bool.or_eq_true, decide_eq_true_eq, h, ↓reduceIte, run_pure]

/-- `bmap` of a direct block that is allocated returns its address and changes nothing. -/
theorem bmap_direct {bn : Nat} (hbn : bn < NDIRECT)
    (ha : (s.inode ip).di.addrs ⟨bn, Nat.lt_succ_of_lt hbn⟩ ≠ 0) :
    (bmap ip bn).run s = .ok ((s.inode ip).di.addrs ⟨bn, Nat.lt_succ_of_lt hbn⟩, s) := by
  simp only [bmap, hbn, ↓reduceDIte, run_bind, run_get, beq_iff_eq, ha, ↓reduceIte, run_pure]

/-- A round of `writei`'s loop whose copy-in faults ends the loop with the count so far, and
leaves the moved bytes in the block. -/
theorem writeiLoop_fault (src : Src) (fuel : Nat) {n tot off a : UInt32} (ht : tot < n)
    (hbmap : (bmap ip (off / bsize).toNat).run s = .ok (a, s₁)) (ha : a ≠ 0)
    (hfault : (src.copyin tot.toNat (min (n - tot) (bsize - off % bsize)).toNat).1 = -1) :
    (writeiLoop ip src n (fuel + 1) tot off).run s = .ok ((tot, off), { s₁ with
      disk := Function.update s₁.disk a.toNat ((s₁.disk a.toNat).setBytes (off % bsize).toNat
        (src.copyin tot.toNat (min (n - tot) (bsize - off % bsize)).toNat).2) }) := by
  simp only [writeiLoop, ht, ↓reduceIte, run_bind, hbmap, beq_iff_eq, ha, run_get, run_bread,
    run_setData, hfault, run_pure]

/-- The end of `writei` once its loop has returned `(tot, off')` in state `s₁`. -/
theorem writei_of_loop (src : Src) {off n tot off' : UInt32}
    (hok : ¬(off > (s.inode ip).di.size ∨ off + n < off))
    (hmax : ¬off + n > UInt32.ofNat (MAXFILE * BSIZE))
    (hloop : (writeiLoop ip src n (n.toNat + 1) 0 off).run s = .ok ((tot, off'), s₁)) :
    (writei ip src off n).run s = (do
      if off' > ((← get).inode ip).di.size then
        modifyInode ip fun x => { x with di := { x.di with size := off' } }
      iupdate ip
      pure (cint tot) : FsM Int).run s₁ := by
  simp only [writei, run_bind, run_get, Bool.or_eq_true, decide_eq_true_eq, hok, hmax, ↓reduceIte,
    hloop]

/-- A write whose first chunk goes to an allocated direct block, and whose copy-in faults after
moving some bytes, reports that nothing was written. The moved bytes are in the block all the
same, and only the inode's block is logged. -/
theorem writei_fault_keeps_bytes (src : Src) {off n : UInt32}
    (hoff : off ≤ (s.inode ip).di.size) (hwrap : off ≤ off + n)
    (hmax : off + n ≤ UInt32.ofNat (MAXFILE * BSIZE)) (hn : 0 < n)
    (hbn : (off / bsize).toNat < NDIRECT)
    (ha : (s.inode ip).di.addrs ⟨(off / bsize).toNat, Nat.lt_succ_of_lt hbn⟩ ≠ 0)
    (hblk : ((s.inode ip).di.addrs ⟨(off / bsize).toNat, Nat.lt_succ_of_lt hbn⟩).toNat ≠
      IBLOCK (s.inode ip).inum s.sb)
    (hfault : (src.copyin 0 (min n (bsize - off % bsize)).toNat).1 = -1) :
    ∃ s', (writei ip src off n).run s = .ok (0, s') ∧ s'.inode = s.inode ∧
      s'.logged = s.logged ++ [IBLOCK (s.inode ip).inum s.sb] ∧
      s'.disk ((s.inode ip).di.addrs ⟨(off / bsize).toNat, Nat.lt_succ_of_lt hbn⟩).toNat =
        (s.disk ((s.inode ip).di.addrs ⟨(off / bsize).toNat, Nat.lt_succ_of_lt hbn⟩).toNat).setBytes
          (off % bsize).toNat (src.copyin 0 (min n (bsize - off % bsize)).toNat).2 := by
  have hsize : ¬off > (s.inode ip).di.size := UInt32.not_lt.2 hoff
  have hok : ¬(off > (s.inode ip).di.size ∨ off + n < off) := not_or.2 ⟨hsize, UInt32.not_lt.2 hwrap⟩
  have hloop := writeiLoop_fault src n.toNat hn (bmap_direct hbn ha) ha
    (by rwa [UInt32.sub_zero, UInt32.toNat_zero])
  rw [UInt32.sub_zero, UInt32.toNat_zero] at hloop
  rw [writei_of_loop src hok (UInt32.not_lt.2 hmax) hloop]
  -- the size does not grow, and `iupdate` writes only the inode's block
  simp only [run_bind, run_get, hsize, ↓reduceIte, run_iupdate, run_pure]
  refine ⟨_, rfl, rfl, rfl, ?_⟩
  simp only [Function.update_of_ne hblk, Function.update_self]

/-! The failing input: a 20-byte file in one direct block (block 46; its inode, 2, is in block
32), and a user buffer starting 10 bytes before the end of a mapped page, with the next page
unmapped. `writei(ip, 1, 4086, 0, 20)` returns 0, and the file's first 10 bytes are now the
user's bytes. The call is the first chunk of `filewrite(f, 4086, 20)` on the file opened for
writing. -/

/-- The user memory: page 0 mapped, page 1 not; every byte is 7. -/
def faultMem : UserMem := ⟨fun p => if p = 0 then 0x80000000 else 0, fun _ => 7⟩

/-- Inode 2: a 20-byte file in block 46. -/
def faultInode : DInode := ⟨T_FILE, 0, 0, 1, 20, fun k => if k.val = 0 then 46 else 0⟩

/-- The disk: inode 2 in its slot of block 32, blocks 0 to 46 in use in the bitmap (block 45),
and the file's block 46 all zeros. -/
def faultDisk : Disk := fun b =>
  if b = 32 then setDinodeAt (fun _ => 0) 2 faultInode
  else if b = 45 then fun i => if i.val < 5 then 0xFF else if i.val = 5 then 0x7F else 0
  else fun _ => 0

/-- Inode-table entry 0 holds inode 2, locked by the writer (`valid`). -/
def faultState : FsState :=
  ⟨⟨FSMAGIC, 2000, 1954, 200, 30, 2, 32, 45⟩, faultDisk,
    fun i => if i.val = 0 then ⟨ROOTDEV, 2, 1, true, faultInode⟩ else ⟨0, 0, 0, false, DInode.zero⟩, []⟩

/-- The entry of the file. -/
def faultIp : Fin NINODE := ⟨0, NINODE_pos⟩

theorem writei_fault_changes_content :
    content faultState.disk (faultState.inode faultIp).di = List.replicate 20 0 ∧
      ((writei faultIp (.user faultMem 4086) 0 20).run faultState).map
        (fun r => (r.1, content r.2.disk (r.2.inode faultIp).di)) =
        .ok (0, List.replicate 10 7 ++ List.replicate 10 0) := by
  constructor <;> decide

end Xv6.Fs
