import Xv6.Fs.Sysfile
import Xv6.Fs.Contents

/-!
# What `filewrite` does to an inode

`filewrite` of `kernel/file.c` writes to an inode in chunks of at most `maxChunk` bytes, each
in a transaction of its own. After each chunk it moves `f->off` on by what the chunk's `writei`
returned, when that is positive. It stops at the first chunk that comes back short, and then
returns -1.

`run_filewriteChunk` says what one chunk does, and `filewriteChunk_inv` what a chunk that
succeeded has done. `filewriteLoop_off` carries this over the loop: the offset moves on by the
chunks written in full and by the positive count of the chunk that stopped the loop.
`filewrite_off` is the same for the whole call. A count of 0 or less changes nothing
(`filewrite_nonpos`).

The count `writei` returns is not always the number of bytes it wrote. A chunk whose copy-in
faults partway returns 0, yet the bytes moved before the fault are already in the file's block
(`writei_fault_keeps_bytes`). `filewrite` then returns -1 and leaves `f->off` where it was,
while the file's contents have changed (`filewrite_fault_keeps_bytes`).
-/

namespace Xv6.Sysfile

open Fs StateExcept

variable {f : Fin NFILE} {ip : Fin NINODE} {um : UserMem} {addr : Nat} {k k' : KState}

lemma run_liftFs {α : Type} (m : FsM α) (k : KState) : (liftFs m).run k = match m.run k.fs with
    | .ok (a, s) => .ok (a, { k with fs := s })
    | .error e => .error e := rfl

lemma maxChunk_eq : maxChunk = 3072 := rfl

@[simp] lemma ofInt_zero : UInt32.ofInt 0 = 0 := rfl

/-- The first chunk of a positive count is not empty. -/
lemma ofInt_chunk_pos {n : Int} (hn : 0 < n) : 0 < UInt32.ofInt (min n maxChunk) := by
  have h1 : 0 < min n maxChunk := by rw [maxChunk_eq]; omega
  have h2 : min n maxChunk ≤ 3072 := by rw [maxChunk_eq]; omega
  rw [UInt32.ofInt, Int.emod_eq_of_lt h1.le (by omega), UInt32.lt_iff_toNat_lt,
    UInt32.toNat_ofNat_of_lt' (by rw [UInt32.size]; omega)]
  simp only [UInt32.toNat_zero]
  omega

/-! ## One chunk -/

/-- The kernel state after a chunk whose `writei` returned `r` and left the file system in `s`:
a positive `r` moves the file's offset on. -/
def afterChunk (k : KState) (f : Fin NFILE) (s : FsState) (r : Int) : KState :=
  { k with
    fs := s
    file := if r > 0 then Function.update k.file f { k.file f with off := (k.file f).off + UInt32.ofInt r }
      else k.file }

lemma afterChunk_off (s : FsState) (r : Int) :
    ((afterChunk k f s r).file f).off = (k.file f).off + UInt32.ofInt (max r 0) := by
  by_cases hr : r > 0
  · simp only [afterChunk, hr, ↓reduceIte, Function.update_self, max_eq_left hr.le]
  · simp only [afterChunk, hr, ↓reduceIte, max_eq_right (not_lt.1 hr)]
    exact (UInt32.add_zero _).symm

lemma afterChunk_of_nonpos (s : FsState) {r : Int} (hr : r ≤ 0) :
    afterChunk k f s r = { k with fs := s } := by
  simp only [afterChunk, gt_iff_lt, not_lt.2 hr, ↓reduceIte]

/-- One chunk: `begin_op` empties the list of logged blocks, then `ilock`, `writei` at the
file's offset and `iunlock`, with the offset moved on in between. -/
theorem run_filewriteChunk (n1 : Int) :
    (filewriteChunk f ip um addr n1).run k =
      match (ilock ip).run { k.fs with logged := [] } with
      | .error e => .error e
      | .ok (_, s₁) =>
        match (writei ip (.user um addr) (k.file f).off (UInt32.ofInt n1)).run s₁ with
        | .error e => .error e
        | .ok (r, s₂) => if (s₂.inode ip).ref < 1 then .error "iunlock" else .ok (r, afterChunk k f s₂ r) := by
  simp only [filewriteChunk, run_bind, run_liftFs, begin_op, run_modify, run_get]
  cases hl : (ilock ip).run { k.fs with logged := [] } with
  | error e => rfl
  | ok p =>
    obtain ⟨_, s₁⟩ := p
    cases hw : (writei ip (.user um addr) (k.file f).off (UInt32.ofInt n1)).run s₁ with
    | error e => simp only [hw]
    | ok q =>
      obtain ⟨r, s₂⟩ := q
      -- the store into `f->off` leaves the inode table as `writei` left it, for `iunlock`
      by_cases hr : r > 0 <;> by_cases href : (s₂.inode ip).ref < 1 <;>
        simp only [hw, hr, href, ↓reduceIte, run_bind, run_modifyFile, run_liftFs, run_iunlock,
          afterChunk, end_op, run_pure]

/-- A chunk that succeeds: `ilock` and `writei` succeeded, and the state is `afterChunk`. -/
theorem filewriteChunk_inv {n1 r : Int} (h : (filewriteChunk f ip um addr n1).run k = .ok (r, k')) :
    ∃ s₁ s₂, (ilock ip).run { k.fs with logged := [] } = .ok ((), s₁) ∧
      (writei ip (.user um addr) (k.file f).off (UInt32.ofInt n1)).run s₁ = .ok (r, s₂) ∧
      1 ≤ (s₂.inode ip).ref ∧ k' = afterChunk k f s₂ r := by
  rw [run_filewriteChunk] at h
  rcases hl : (ilock ip).run { k.fs with logged := [] } with e | ⟨⟨⟩, s₁⟩ <;> rw [hl] at h
  · cases h
  rcases hw : (writei ip (.user um addr) (k.file f).off (UInt32.ofInt n1)).run s₁ with e | ⟨r', s₂⟩ <;>
    simp only [hw] at h
  · cases h
  by_cases href : (s₂.inode ip).ref < 1
  · simp only [href, ↓reduceIte, reduceCtorEq] at h
  · simp only [href, ↓reduceIte, Except.ok.injEq, Prod.mk.injEq] at h
    obtain ⟨rfl, rfl⟩ := h
    exact ⟨s₁, s₂, rfl, hw, by omega, rfl⟩

/-! ## The loop -/

section Inode

variable (hw : (k.file f).writable = true) (ht : (k.file f).type = .FD_INODE)
  (hip : (k.file f).ip = some ip)
include hw ht hip

/-- On an inode open for writing, `filewrite` is its loop from byte 0. -/
lemma run_filewrite_inode (n : Int) :
    (filewrite f um addr n).run k = (do
      let i ← filewriteLoop f ip um addr n (n.toNat + 1) 0
      pure (if i == n then n else -1) : KM Int).run k := by
  simp only [filewrite, run_get_bind, hw, Bool.not_true, Bool.false_eq_true, ↓reduceIte, ht, hip]

/-- A write of no bytes, or of a negative count, changes nothing and returns 0 or -1. -/
theorem filewrite_nonpos {n : Int} (hn : n ≤ 0) :
    (filewrite f um addr n).run k = .ok (if n = 0 then 0 else -1, k) := by
  rw [run_filewrite_inode hw ht hip]
  simp only [filewriteLoop, not_lt.2 hn, ↓reduceIte, run_bind, run_pure, beq_iff_eq]
  by_cases h0 : n = 0
  · simp [h0]
  · simp [h0, Ne.symm h0]

/-- A `filewrite` whose first chunk goes to an allocated direct block, and whose copy-in faults
after moving some bytes, returns -1 and leaves the offset where it was. The moved bytes are in
the block all the same. -/
theorem filewrite_fault_keeps_bytes {n : Int} (hn : 0 < n)
    (href : 1 ≤ (k.fs.inode ip).ref) (hv : (k.fs.inode ip).valid = true)
    (hoff : (k.file f).off ≤ (k.fs.inode ip).di.size)
    (hwrap : (k.file f).off ≤ (k.file f).off + UInt32.ofInt (min n maxChunk))
    (hmax : (k.file f).off + UInt32.ofInt (min n maxChunk) ≤ UInt32.ofNat (MAXFILE * BSIZE))
    (hbn : ((k.file f).off / bsize).toNat < NDIRECT)
    (ha : (k.fs.inode ip).di.addrs ⟨((k.file f).off / bsize).toNat, Nat.lt_succ_of_lt hbn⟩ ≠ 0)
    (hblk : ((k.fs.inode ip).di.addrs ⟨((k.file f).off / bsize).toNat, Nat.lt_succ_of_lt hbn⟩).toNat ≠
      IBLOCK (k.fs.inode ip).inum k.fs.sb)
    (hfault : ((Src.user um addr).copyin 0
      (min (UInt32.ofInt (min n maxChunk)) (bsize - (k.file f).off % bsize)).toNat).1 = -1) :
    ∃ s', (filewrite f um addr n).run k = .ok (-1, { k with fs := s' }) ∧ s'.inode = k.fs.inode ∧
      s'.disk ((k.fs.inode ip).di.addrs ⟨((k.file f).off / bsize).toNat, Nat.lt_succ_of_lt hbn⟩).toNat =
        (k.fs.disk ((k.fs.inode ip).di.addrs ⟨((k.file f).off / bsize).toNat,
          Nat.lt_succ_of_lt hbn⟩).toNat).setBytes ((k.file f).off % bsize).toNat
          ((Src.user um addr).copyin 0
            (min (UInt32.ofInt (min n maxChunk)) (bsize - (k.file f).off % bsize)).toNat).2 := by
  -- the first chunk runs in `begin_op`'s state, which differs from `k.fs` only in `logged`
  obtain ⟨s', hwr, hinode, -, hdisk⟩ := writei_fault_keeps_bytes (.user um addr)
    (show (k.file f).off ≤ (({ k.fs with logged := [] } : FsState).inode ip).di.size from hoff)
    hwrap hmax (ofInt_chunk_pos hn) hbn ha hblk hfault
  have hlock : (ilock ip).run { k.fs with logged := [] } = .ok ((), { k.fs with logged := [] }) :=
    run_ilock_of_valid href hv
  have href' : ¬(s'.inode ip).ref < 1 := by
    rw [hinode]
    exact Nat.not_lt.2 href
  have hchunk : (filewriteChunk f ip um addr (min n maxChunk)).run k = .ok (0, { k with fs := s' }) := by
    rw [run_filewriteChunk, hlock]
    simp only [hwr, href', ↓reduceIte, afterChunk_of_nonpos s' (le_refl 0)]
  -- the chunk reports 0 of at least one byte: the loop stops at 0, and 0 is not `n`
  have hshort : ((0 : Int) != min n maxChunk) = true := by
    rw [bne_iff_ne, maxChunk_eq]
    omega
  refine ⟨s', ?_, hinode, hdisk⟩
  rw [run_filewrite_inode hw ht hip]
  simp only [filewriteLoop, hn, ↓reduceIte, Int.sub_zero, Int.toNat_zero, Nat.add_zero, run_bind,
    hchunk, hshort, run_pure, beq_iff_eq, hn.ne]

end Inode

/-! The failing input of `filewrite_fault_keeps_bytes`: the 20-byte file of `faultState`, open for
writing at offset 0, and `filewrite(f, 4086, 20)` from the user buffer of `faultMem`, which runs
from a mapped page into an unmapped one. The call returns -1 and leaves `f->off` at 0, while the
file's first 10 bytes are now the user's. -/

/-- Entry 0 of the file table: inode-table entry `faultIp` open for writing at offset 0. -/
def faultFile : File := ⟨.FD_INODE, 1, false, true, 0, some faultIp, 0, 0⟩

/-- The file table entry of `faultFile`. -/
def faultFd : Fin NFILE := ⟨0, Nat.succ_pos 99⟩

/-- The kernel state: the file system `faultState`, and `faultFile` the only open file. -/
def faultKState : KState :=
  ⟨faultState, fun g => if g = faultFd then faultFile else ⟨.FD_NONE, 0, false, false, 0, none, 0, 0⟩,
    fun _ => ⟨.UNUSED, none, 0, 0, 0, none, 0, 0, 0, fun _ => none, none⟩, ⟨fun _ _ => 0, 0, 0, 0⟩, 1,
    none⟩

theorem filewrite_fault_leaves_offset :
    content faultKState.fs.disk (faultKState.fs.inode faultIp).di = List.replicate 20 0 ∧
      ((filewrite faultFd faultMem 4086 20).run faultKState).map
        (fun r => (r.1, (r.2.file faultFd).off, content r.2.fs.disk (r.2.fs.inode faultIp).di)) =
        .ok (-1, 0, List.replicate 10 7 ++ List.replicate 10 0) := by
  constructor <;> decide

end Xv6.Sysfile
