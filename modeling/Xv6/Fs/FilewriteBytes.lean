import Xv6.Fs.Filewrite
import Xv6.Fs.FileBytes

/-!
# `filewrite` on the bytes of a file

`filewrite` of `kernel/file.c` writes to an inode in chunks of at most `maxChunk` bytes. On a
file whose blocks satisfy `FileBlocks`, a call that returns `n` is a write of the `n` user bytes
from `addr` at the file's offset (`filewrite_spec`): the contents are the old contents with the
bytes `copyin` reads spliced in at `f->off`, the offset moves on by `n`, and the invariant holds
at the new size.

The loop invariant is `Wrote`: after `i` bytes the contents are the old ones with the first `i`
user bytes spliced in at the old offset, and the offset has moved on by `i`. One chunk
(`Wrote.step`) is `writei_spec` in the state `begin_op` and `ilock` leave, and two splices end
to end are one (`Splice.splice_append`).
-/

namespace Xv6.Sysfile

open Fs StateExcept Splice

variable {f : Fin NFILE} {ip : Fin NINODE} {um : UserMem} {addr : Nat} {k k' k₀ : KState}

/-- What `filewrite`'s loop has done after the first `i` bytes of a write from user address
`addr`, from the kernel state `k₀` the call started in. -/
structure Wrote (k₀ : KState) (f : Fin NFILE) (ip : Fin NINODE) (um : UserMem) (addr i : Nat)
    (k : KState) : Prop where
  blocks : FileBlocks k.fs ip (k.fs.inode ip).di.size.toNat
  copied : (copyin um addr i).1 = 0
  bytes : content k.fs.disk (k.fs.inode ip).di =
    splice (content k₀.fs.disk (k₀.fs.inode ip).di) (k₀.file f).off.toNat (copyin um addr i).2
  off : (k.file f).off.toNat = (k₀.file f).off.toNat + i
  ref : 1 ≤ (k.fs.inode ip).ref
  valid : (k.fs.inode ip).valid = true

lemma Wrote.init (hb : FileBlocks k.fs ip (k.fs.inode ip).di.size.toNat)
    (href : 1 ≤ (k.fs.inode ip).ref) (hv : (k.fs.inode ip).valid = true) : Wrote k f ip um addr 0 k := by
  have hcp : (copyin um addr 0).1 = 0 :=
    ((copyin_spec um addr 0).resolve_right fun h => absurd h.2 (Nat.not_lt_zero _)).1
  have hnil : (copyin um addr 0).2 = [] :=
    List.eq_nil_of_length_eq_zero (length_copyin_of_ok (.user um addr) 0 0 hcp)
  exact ⟨hb, hcp, by rw [hnil, splice_nil], rfl, href, hv⟩

/-- One chunk of `n1` bytes, from user address `addr + i`, that `writei` wrote in full. -/
lemma Wrote.step {i : Nat} (hw : Wrote k₀ f ip um addr i k) {n1 : Int} (hn1 : 0 < n1)
    (hn1' : n1 ≤ maxChunk) (h : (filewriteChunk f ip um (addr + i) n1).run k = .ok (n1, k')) :
    Wrote k₀ f ip um addr (i + n1.toNat) k' := by
  obtain ⟨s₁, s₂, hlock, hwr, href₂, rfl⟩ := filewriteChunk_inv h
  -- `begin_op` and `ilock` of a loaded inode leave the file system as it was
  rw [run_ilock_of_valid (s := { k.fs with logged := [] }) hw.ref hw.valid] at hlock
  obtain rfl := (Prod.mk.inj (Except.ok.inj hlock)).2
  -- the chunk length as the `uint` that `writei` gets
  have hm : ((UInt32.ofInt n1).toNat : Int) = n1 := by
    rw [maxChunk_eq] at hn1'
    rw [UInt32.ofInt, Int.emod_eq_of_lt hn1.le (by omega),
      UInt32.toNat_ofNat_of_lt' (by rw [UInt32.size]; omega), Int.toNat_of_nonneg hn1.le]
  have hmN : (UInt32.ofInt n1).toNat = n1.toNat := by omega
  have hwr' : (writei ip (.user um (addr + i)) (k.file f).off (UInt32.ofInt n1)).run
      { k.fs with logged := [] } = .ok (((UInt32.ofInt n1).toNat : Int), s₂) := by
    rw [hm]
    exact hwr
  obtain ⟨-, hmax, hcp, hbytes, hb₂, -, addrs, hinode⟩ := writei_spec (hw.blocks.setLogged []) hwr'
  have hentry : s₂.inode ip =
      { k.fs.inode ip with
        di := { (k.fs.inode ip).di with
          addrs := addrs
          size := UInt32.ofNat (max (k.fs.inode ip).di.size.toNat
            ((k.file f).off.toNat + (UInt32.ofInt n1).toNat)) } } := by
    rw [hinode, Function.update_self]
  have hsum : ((k.file f).off + UInt32.ofInt n1).toNat = (k.file f).off.toNat + n1.toNat := by
    rw [toNat_add_of_lt (by rw [MAXFILE_eq, BSIZE_eq] at hmax; omega), hmN]
  -- the chunk's bytes follow the bytes written before
  have hcopy : (copyin um addr (i + n1.toNat)).1 = 0 := by
    have := (Src.copyin_ok_append (.user um addr) 0 i n1.toNat).2
      ⟨hw.copied, by rw [Nat.zero_add]; rw [hmN] at hcp; exact hcp⟩
    exact this
  refine ⟨hb₂, hcopy, ?_, ?_, ?_, ?_⟩
  · show content s₂.disk (s₂.inode ip).di = _
    rw [hbytes, show content ({ k.fs with logged := [] } : FsState).disk
        (({ k.fs with logged := [] } : FsState).inode ip).di = content k.fs.disk (k.fs.inode ip).di from rfl,
      hw.bytes, hmN, hw.off]
    have hlen : (copyin um addr i).2.length = i := length_copyin_of_ok (.user um addr) 0 i hw.copied
    rw [show (k₀.file f).off.toNat + i = (k₀.file f).off.toNat + (copyin um addr i).2.length by
      rw [hlen], splice_append]
    congr 1
    have := Src.copyin_append (.user um addr) 0 i n1.toNat hcopy
    rw [Nat.zero_add] at this
    exact this.symm
  · show ((afterChunk k f s₂ n1).file f).off.toNat = _
    rw [afterChunk_off, max_eq_left hn1.le, hsum, hw.off, Nat.add_assoc]
  · show 1 ≤ (s₂.inode ip).ref
    exact href₂
  · show (s₂.inode ip).valid = true
    rw [hentry]
    exact hw.valid

/-- The loop from byte `i`, when it reports all `n` bytes written, has written them: each round
that goes on is a chunk written in full (`Wrote.step`), and a round that stops short returns an
`i` below `n`. -/
theorem filewriteLoop_wrote {n : Int} : ∀ (fuel : Nat) (i : Int) {k k' : KState}, 0 ≤ i →
    Wrote k₀ f ip um addr i.toNat k → (filewriteLoop f ip um addr n fuel i).run k = .ok (n, k') →
      Wrote k₀ f ip um addr n.toNat k'
  | 0, i, k, k', _, hw, h => by
    simp only [filewriteLoop, run_pure_eq_ok, Prod.mk.injEq] at h
    obtain ⟨rfl, rfl⟩ := h
    exact hw
  | fuel + 1, i, k, k', hi, hw, h => by
    simp only [filewriteLoop] at h
    split at h
    · obtain ⟨r, k₁, hc, h⟩ := run_bind_eq_ok.1 h
      by_cases hr : r = min (n - i) maxChunk
      · -- a chunk written in full: the loop goes on at `i + r` from a state that has written it
        subst hr
        have hpos : 0 < min (n - i) maxChunk := by rw [maxChunk_eq]; omega
        simp only [bne_self_eq_false, Bool.false_eq_true, ↓reduceIte] at h
        have hw₁ := hw.step hpos (min_le_right _ _) hc
        rw [← Int.toNat_add hi hpos.le] at hw₁
        exact filewriteLoop_wrote fuel _ (by omega) hw₁ h
      · -- a short chunk returns `i`, which is below `n`
        simp only [bne_iff_ne, ne_eq, hr, not_false_eq_true, ↓reduceIte, run_pure_eq_ok,
          Prod.mk.injEq] at h
        omega
    · simp only [run_pure_eq_ok, Prod.mk.injEq] at h
      obtain ⟨rfl, rfl⟩ := h
      exact hw

/-- A `filewrite` to an inode open for writing, whose blocks satisfy `FileBlocks`, that returns
`n`: the user bytes from `addr` were all mapped, they are in the file at the offset the call
started at, the offset moved on by `n`, and the invariant holds at the new size. -/
theorem filewrite_spec {n : Int} (hwrite : (k.file f).writable = true)
    (ht : (k.file f).type = .FD_INODE) (hip : (k.file f).ip = some ip)
    (href : 1 ≤ (k.fs.inode ip).ref) (hv : (k.fs.inode ip).valid = true)
    (hb : FileBlocks k.fs ip (k.fs.inode ip).di.size.toNat)
    (h : (filewrite f um addr n).run k = .ok (n, k')) :
    (copyin um addr n.toNat).1 = 0 ∧
      content k'.fs.disk (k'.fs.inode ip).di =
        splice (content k.fs.disk (k.fs.inode ip).di) (k.file f).off.toNat (copyin um addr n.toNat).2 ∧
      (k'.file f).off.toNat = (k.file f).off.toNat + n.toNat ∧
      FileBlocks k'.fs ip (k'.fs.inode ip).di.size.toNat := by
  have hw : Wrote k f ip um addr n.toNat k' := by
    by_cases hn : n ≤ 0
    · -- nothing to write: the state is unchanged and `n.toNat` is 0
      rw [filewrite_nonpos hwrite ht hip hn] at h
      obtain ⟨-, rfl⟩ := Prod.mk.inj (Except.ok.inj h)
      rw [Int.toNat_of_nonpos hn]
      exact Wrote.init hb href hv
    · rw [run_filewrite_inode hwrite ht hip] at h
      obtain ⟨j, k₁, hl, h⟩ := run_bind_eq_ok.1 h
      simp only [run_pure_eq_ok, Prod.mk.injEq] at h
      obtain ⟨hj, rfl⟩ := h
      -- a positive `n` is returned only when the loop reports all of it
      have hjn : j = n := by
        by_contra hne
        simp only [beq_iff_eq, hne, ↓reduceIte] at hj
        omega
      subst hjn
      exact filewriteLoop_wrote _ 0 le_rfl (Wrote.init hb href hv) hl
  exact ⟨hw.copied, hw.bytes, hw.off, hw.blocks⟩

/-- Entry 0 of the file table: the file of `fileState` open for writing at offset 1000. -/
def fileFd : Fin NFILE := ⟨0, NFILE_pos⟩

/-- A user memory whose page 0 is mapped, and whose physical memory holds 7 throughout. -/
def sevensMem : UserMem := ⟨fun p => if p = 0 then 0x80000000 else 0, fun _ => 7⟩

/-- The kernel state: the file system `fileState`, and `fileFd` the only open file. -/
def fileKState : KState :=
  ⟨fileState, fun g => if g = fileFd then
      { type := .FD_INODE, ref := 1, readable := false, writable := true, pipe := 0, ip := some fileIp,
        off := 1000, major := 0 }
      else ⟨.FD_NONE, 0, false, false, 0, none, 0, 0⟩,
    fun _ => ⟨.UNUSED, none, 0, 0, 0, none, 0, 0, 0, fun _ => none, none⟩, ⟨fun _ _ => 0, 0, 0, 0⟩, 1,
    none⟩

/-- `filewrite(f, 0, 16)` at offset 1000 of the 1000-byte file: the 16 bytes are appended in
the file's first block, which has room up to byte 1023. -/
theorem filewrite_spec_append : ∃ k', (filewrite fileFd sevensMem 0 16).run fileKState = .ok (16, k') ∧
    content k'.fs.disk (k'.fs.inode fileIp).di =
      splice (content fileState.disk (fileState.inode fileIp).di) 1000 (List.replicate 16 7) := by
  obtain ⟨k', h⟩ : ∃ k', (filewrite fileFd sevensMem 0 16).run fileKState = .ok (16, k') := ⟨_, rfl⟩
  have hc : (copyin sevensMem 0 (16 : Int).toNat).2 = List.replicate 16 7 := by decide
  refine ⟨k', h, ?_⟩
  have h1 : (fileKState.file fileFd).writable = true := by decide
  have h2 : (fileKState.file fileFd).type = .FD_INODE := by decide
  have h3 : (fileKState.file fileFd).ip = some fileIp := by decide
  have h4 : 1 ≤ (fileKState.fs.inode fileIp).ref := by decide
  have h5 : (fileKState.fs.inode fileIp).valid = true := by decide
  have hoff : (fileKState.file fileFd).off.toNat = 1000 := by decide
  have := (filewrite_spec h1 h2 h3 h4 h5 fileBlocks_fileState h).2.1
  rw [hoff, hc] at this
  exact this

end Xv6.Sysfile
