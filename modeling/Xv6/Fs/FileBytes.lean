import Xv6.Fs.FileBlocks
import Xv6.Lib.Splice

/-!
# `readi` and `writei` on the bytes of a file

On a file whose blocks satisfy `FileBlocks`, `writei` and `readi` of `kernel/fs.c` are a write
and a read of its byte string `content`.

* `writei_spec`: a `writei` that returns `n` has copied in the `n` bytes of its source, and the
  file's contents are the old contents with those bytes spliced in at `off`; its size is the
  larger of the old size and `off + n`, the invariant holds at the new size, and of the inode
  table only the entry's address table and size changed. The loop invariant is `Written`: after
  `tot` bytes, the file's first `max size (off + tot)` bytes are the old contents with the first
  `tot` source bytes spliced in. Each round (`Written.step`) is `bmap_spec` for the block, and
  one store into it that changes the bytes of the chunk and no others.
* `readi_spec`: on such a file `readi` into a kernel buffer changes nothing and returns the
  bytes of the contents from `off` on, as many as were asked for and the file holds.

The counts are the source's `uint`s; below `MAXFILE * BSIZE` none of the sums wraps.
-/

namespace Xv6.Fs

open StateExcept Splice

variable {s t t₁ t' s' : FsState} {ip : Fin NINODE} {src : Src}

/-! ## The `uint` arithmetic of the loops -/

lemma bsize_toNat : bsize.toNat = BSIZE := rfl

lemma toNat_add_of_lt {a b : UInt32} (h : a.toNat + b.toNat < 2 ^ 32) :
    (a + b).toNat = a.toNat + b.toNat := by
  rw [UInt32.toNat_add, Nat.mod_eq_of_lt h]

/-- The length of a chunk of the loops: to the end of the request or of the block. -/
lemma toNat_chunk {n tot : UInt32} (o : UInt32) (h : tot ≤ n) :
    (min (n - tot) (bsize - o % bsize)).toNat = min (n.toNat - tot.toNat) (BSIZE - o.toNat % BSIZE) := by
  have hmod : o % bsize ≤ bsize := by
    rw [UInt32.le_iff_toNat_le, UInt32.toNat_mod, bsize_toNat]
    exact (Nat.mod_lt _ (by decide)).le
  rw [UInt32.toNat_min, UInt32.toNat_sub_of_le _ _ h, UInt32.toNat_sub_of_le _ _ hmod,
    UInt32.toNat_mod, bsize_toNat]

/-- A `uint` whose `int` conversion is a count is that count. -/
lemma eq_of_cint_eq_toNat {x y : UInt32} (h : cint x = (y.toNat : Int)) : x = y := by
  have e : cint x = x.toBitVec.toInt := rfl
  rw [e, BitVec.toInt_eq_toNat_cond] at h
  have hx := x.toNat_lt
  split at h
  · exact UInt32.toNat_inj.mp (by simp at h; omega)
  · simp at h
    omega

lemma cint_of_lt {x : UInt32} (h : x.toNat < 2 ^ 31) : cint x = x.toNat :=
  BitVec.toInt_eq_toNat_of_lt (show 2 * x.toNat < 2 ^ 32 by omega)

/-! ## The loop of `writei` -/

/-- What `writei`'s loop has done after the first `tot` bytes of a write of `src` at `off` into
the file at `ip`, from the state `s` the write started in. -/
structure Written (s : FsState) (ip : Fin NINODE) (src : Src) (off tot : Nat) (t : FsState) :
    Prop where
  blocks : FileBlocks t ip (max (s.inode ip).di.size.toNat (off + tot))
  copied : (src.copyin 0 tot).1 = 0
  bytes : (List.range (max (s.inode ip).di.size.toNat (off + tot))).map
      (byteAt t.disk (t.inode ip).di) =
    splice (content s.disk (s.inode ip).di) off (src.copyin 0 tot).2
  sb : t.sb = s.sb
  entry : AddrsOnly s t ip

/-- A copy-in that succeeds returns as many bytes as it was asked for. -/
lemma length_copyin_of_ok (src : Src) (off m : Nat) (h : (src.copyin off m).1 = 0) :
    (src.copyin off m).2.length = m :=
  ((src.copyin_spec off m).resolve_right fun h' => by rw [h] at h'; exact absurd h'.1 (by decide)).2

lemma Written.init (hb : FileBlocks s ip (s.inode ip).di.size.toNat) {off : Nat}
    (hoff : off ≤ (s.inode ip).di.size.toNat) : Written s ip src off 0 s := by
  have hcp : (src.copyin 0 0).1 = 0 :=
    ((src.copyin_spec 0 0).resolve_right fun h => absurd h.2 (Nat.not_lt_zero _)).1
  have hnil : (src.copyin 0 0).2 = [] := List.eq_nil_of_length_eq_zero (length_copyin_of_ok src 0 0 hcp)
  have hmax : max (s.inode ip).di.size.toNat (off + 0) = (s.inode ip).di.size.toNat := by omega
  refine ⟨by rw [hmax]; exact hb, hcp, ?_, rfl, AddrsOnly.refl s ip⟩
  rw [hmax, hnil, splice_nil, content_eq]

/-- One round of `writei`'s loop: `bmap` finds block `(off + tot) / BSIZE`, and the `m` bytes
that `copyin` returns are stored in it from `(off + tot) % BSIZE` on. -/
lemma Written.step {off tot : Nat} (hw : Written s ip src off tot t) {m : Nat} (hm : m ≤ BSIZE - (off + tot) % BSIZE)
    (hmax : off + tot + m ≤ MAXFILE * BSIZE) {a : UInt32}
    (hbmap : (bmap ip ((off + tot) / BSIZE)).run t = .ok (a, t₁)) (ha : a ≠ 0)
    (hcp : (src.copyin tot m).1 = 0) (l : List Nat) :
    Written s ip src off (tot + m) { t₁ with
      disk := Function.update t₁.disk a.toNat
        ((t₁.disk a.toNat).setBytes ((off + tot) % BSIZE) (src.copyin tot m).2)
      logged := l } := by
  have hlen := length_copyin_of_ok src tot m hcp
  obtain ⟨hk, haddr⟩ := bmap_spec hw.blocks hbmap ha
  have hb₁ := hk.blocks
  have hsize := hw.blocks.len_le
  -- the chunk lies in block `(off + tot) / BSIZE`, from `(off + tot) % BSIZE` on
  have hblock : ∀ k, off + tot ≤ k → k < off + tot + m →
      k / BSIZE = (off + tot) / BSIZE ∧ k % BSIZE = (off + tot) % BSIZE + (k - (off + tot)) := by
    intro k h₁ h₂
    rw [BSIZE_eq] at hm ⊢
    omega
  have hcov : ∀ bn', bn' * BSIZE < max (s.inode ip).di.size.toNat (off + tot + m) →
      max (s.inode ip).di.size.toNat (off + tot) ≤ bn' * BSIZE → bn' = (off + tot) / BSIZE := by
    intro bn' h₁ h₂
    rw [BSIZE_eq] at hm h₁ h₂ ⊢
    omega
  have hext := hb₁.extend (by omega) (haddr ▸ ha) hcov
  have hL : max (s.inode ip).di.size.toNat (off + (tot + m)) =
      max (max (s.inode ip).di.size.toNat (off + tot)) (off + tot + (src.copyin tot m).2.length) := by
    rw [hlen]
    omega
  refine ⟨?_, (src.copyin_ok_append 0 tot m).2 ⟨hw.copied, by rwa [Nat.zero_add]⟩, ?_,
    hk.sb.trans hw.sb, hw.entry.trans hk.entry⟩
  · rw [show off + (tot + m) = off + tot + m by omega]
    exact (hext.setData_block haddr ha _).setLogged l
  · have hcopy := (src.copyin_ok_append 0 tot m).2 ⟨hw.copied, by rwa [Nat.zero_add]⟩
    rw [hL, src.copyin_append 0 tot m hcopy, Nat.zero_add,
      ← splice_append, length_copyin_of_ok src 0 tot hw.copied,
      ← hw.bytes]
    refine map_range_splice (le_max_right _ _) (fun i hi => ?_) fun k hk₁ hk₂ => ?_
    · -- inside the chunk: the byte stored
      obtain ⟨hq, hr⟩ := hblock (off + tot + i) (Nat.le_add_right _ _) (by omega)
      have hlt : (off + tot) % BSIZE + i < BSIZE := by
        rw [BSIZE_eq] at hm ⊢
        omega
      show byteAt (Function.update t₁.disk a.toNat _) (t₁.inode ip).di (off + tot + i) = _
      rw [hb₁.byteAt_setData_block haddr ha, if_pos hq, hr, Nat.add_sub_cancel_left,
        Bytes.get_setBytes_of_mem _ _ (Nat.le_add_right _ _) (by omega) hlt, Nat.add_sub_cancel_left,
        List.getD_eq_getElem _ _ hi]
    · -- outside the chunk: the byte as it was, below the length the loop had reached
      have hkL : k < max (s.inode ip).di.size.toNat (off + tot) := by omega
      show byteAt (Function.update t₁.disk a.toNat _) (t₁.inode ip).di k = _
      rw [hb₁.byteAt_setData_block haddr ha, ← hk.bytes k hkL]
      split
      · rename_i e
        have hout : k % BSIZE < (off + tot) % BSIZE ∨
            (off + tot) % BSIZE + (src.copyin tot m).2.length ≤ k % BSIZE := by
          rw [hlen]
          rw [BSIZE_eq] at e ⊢
          omega
        rw [Bytes.get_setBytes_of_not_mem _ _ hout]
        unfold byteAt
        rw [e, haddr]
      · rfl

/-- `writei`'s loop, read backwards from a run that wrote all `n` bytes. -/
theorem writeiLoop_written {n off : UInt32} (hmax : off.toNat + n.toNat ≤ MAXFILE * BSIZE) :
    ∀ (fuel : Nat) (tot : UInt32) (t t' : FsState) (o' : UInt32), tot ≤ n →
      Written s ip src off.toNat tot.toNat t →
      (writeiLoop ip src n fuel tot (off + tot)).run t = .ok ((n, o'), t') →
      Written s ip src off.toNat n.toNat t' ∧ o' = off + n
  | 0, tot, t, t', o', htn, hw, h => by
    -- out of fuel: the loop returns the count it has, which is then `n`
    rw [writeiLoop, run_pure_eq_ok, Prod.mk.injEq, Prod.mk.injEq] at h
    obtain ⟨⟨rfl, rfl⟩, rfl⟩ := h
    exact ⟨hw, rfl⟩
  | fuel + 1, tot, t, t', o', htn, hw, h => by
    have hsz : MAXFILE * BSIZE < 2 ^ 32 := by decide
    have htn' := UInt32.le_iff_toNat_le.1 htn
    have hO : (off + tot).toNat = off.toNat + tot.toNat := toNat_add_of_lt (by omega)
    by_cases ht : tot < n
    · rw [writeiLoop, if_pos ht] at h
      obtain ⟨a, t₁, hbmap, hk⟩ := run_bind_eq_ok.1 h
      have hne_n : n ≠ tot := fun e => by
        rw [e] at ht
        exact Nat.lt_irrefl _ (UInt32.lt_iff_toNat_lt.1 ht)
      by_cases ha : a = 0
      · -- `bmap` failed: the loop stops short of `n`
        rw [if_pos (by simpa using ha), run_pure_eq_ok, Prod.mk.injEq, Prod.mk.injEq] at hk
        exact absurd hk.1.1 hne_n
      rw [if_neg (by simpa using ha), run_get_bind, run_bind_of_eq_ok (run_bread _ _),
        run_bind_of_eq_ok (run_setData _ _)] at hk
      by_cases hfault : (src.copyin tot.toNat (min (n - tot) (bsize - (off + tot) % bsize)).toNat).1 = -1
      · -- the copy-in faulted: the loop stops short of `n`
        rw [if_pos (by simpa using hfault), run_pure_eq_ok, Prod.mk.injEq, Prod.mk.injEq] at hk
        exact absurd hk.1.1 hne_n
      rw [if_neg (by simpa using hfault), run_bind_of_eq_ok (run_log_write _)] at hk
      -- the round in numbers
      have hm := toNat_chunk (off + tot) htn
      have hcp : (src.copyin tot.toNat (min (n - tot) (bsize - (off + tot) % bsize)).toNat).1 = 0 :=
        ((src.copyin_spec _ _).resolve_right fun h' => hfault h'.1).1
      have hm₁ : (min (n - tot) (bsize - (off + tot) % bsize)).toNat ≤
          BSIZE - (off.toNat + tot.toNat) % BSIZE := by
        rw [hm, hO]
        exact min_le_right _ _
      have hT : (tot + min (n - tot) (bsize - (off + tot) % bsize)).toNat =
          tot.toNat + (min (n - tot) (bsize - (off + tot) % bsize)).toNat :=
        toNat_add_of_lt (by rw [hm]; omega)
      have hw' := hw.step hm₁ (by rw [hm]; omega)
        (by rwa [UInt32.toNat_div, bsize_toNat, hO] at hbmap) ha hcp
        ((t₁.logged ++ [a.toNat]))
      rw [UInt32.toNat_mod, bsize_toNat, hO] at hk
      rw [← hT] at hw'
      rw [UInt32.add_assoc] at hk
      exact writeiLoop_written hmax fuel _ _ t' o'
        (UInt32.le_iff_toNat_le.2 (by rw [hT, hm]; omega)) hw' hk
    · -- the loop is done: it returns its count, which is then `n`
      rw [writeiLoop, if_neg ht, run_pure_eq_ok, Prod.mk.injEq, Prod.mk.injEq] at h
      obtain ⟨⟨rfl, rfl⟩, rfl⟩ := h
      exact ⟨hw, rfl⟩

/-! ## `writei` -/

/-! The witnesses of this module run on a 1000-byte file in direct block 46 of the `mkfs`
layout: its inode, 2, lies in block 32, and the bitmap at block 45 marks blocks 0 to 46 in use.
Byte `k` of block 46 is `k % 256`. -/

/-- Inode 2: a 1000-byte file in block 46. -/
def fileInode : DInode := ⟨T_FILE, 0, 0, 1, 1000, fun k => if k.val = 0 then 46 else 0⟩

def fileDisk : Disk := fun b =>
  if b = 32 then setDinodeAt (fun _ => 0) 2 fileInode
  else if b = 45 then fun i => if i.val < 5 then 0xFF else if i.val = 5 then 0x7F else 0
  else if b = 46 then fun i => UInt8.ofNat i.val
  else fun _ => 0

/-- Inode-table entry 0 holds inode 2, locked (`valid`). -/
def fileState : FsState :=
  ⟨⟨FSMAGIC, 2000, 1954, 200, 30, 2, 32, 45⟩, fileDisk,
    fun i => if i.val = 0 then ⟨ROOTDEV, 2, 1, true, fileInode⟩ else ⟨0, 0, 0, false, DInode.zero⟩, []⟩

/-- The entry of the file. -/
def fileIp : Fin NINODE := ⟨0, NINODE_pos⟩

theorem fileBlocks_fileState : FileBlocks fileState fileIp (fileState.inode fileIp).di.size.toNat :=
  FileBlocks.of_direct (by decide) (by decide) (by decide) (by decide) (by decide) (by decide)
    (by decide) (by decide) (by decide)

/-- The contents of a file whose first `L` bytes agree with a view of another state. -/
lemma content_eq_of_bytes {L : Nat} {X : List UInt8} (hL : (t'.inode ip).di.size.toNat = L)
    (hbytes : ∀ k < L, byteAt t'.disk (t'.inode ip).di k = byteAt t.disk (t.inode ip).di k)
    (h : (List.range L).map (byteAt t.disk (t.inode ip).di) = X) :
    content t'.disk (t'.inode ip).di = X := by
  rw [content_eq, hL, ← h]
  exact List.map_congr_left fun k hk => hbytes k (List.mem_range.1 hk)

/-- The end of `writei` after a loop that wrote all `n` bytes: the entry's size set to `v`, the
larger of the old size and `off + n`, and the entry written back by `iupdate`. -/
lemma Written.finish {off n : Nat} (hw : Written s ip src off n t) (v : UInt32)
    (hv : v.toNat = max (s.inode ip).di.size.toNat (off + n)) :
    let t₁ := { t with inode := (Function.update t.inode ip
      { t.inode ip with di := { (t.inode ip).di with size := v } }) }
    let t₂ := { t₁ with
      disk := Function.update t₁.disk (IBLOCK (t₁.inode ip).inum t₁.sb)
        (setDinodeAt (t₁.disk (IBLOCK (t₁.inode ip).inum t₁.sb)) (t₁.inode ip).inum (t₁.inode ip).di)
      logged := t₁.logged ++ [IBLOCK (t₁.inode ip).inum t₁.sb] }
    content t₂.disk (t₂.inode ip).di = splice (content s.disk (s.inode ip).di) off (src.copyin 0 n).2 ∧
      FileBlocks t₂ ip (t₂.inode ip).di.size.toNat ∧ t₂.sb = s.sb ∧
      ∃ addrs, t₂.inode = Function.update s.inode ip
        { s.inode ip with di := { (s.inode ip).di with addrs := addrs, size := v } } := by
  intro t₁ t₂
  have hsize : (t₂.inode ip).di.size.toNat = max (s.inode ip).di.size.toNat (off + n) := by
    simp only [t₂, t₁, Function.update_self]
    exact hv
  have hb₁ : FileBlocks t₁ ip (max (s.inode ip).di.size.toNat (off + n)) := hw.blocks.setSize v
  have hk := Keeps.setData_below hb₁ hb₁.iblock
    (setDinodeAt (t₁.disk (IBLOCK (t₁.inode ip).inum t₁.sb)) (t₁.inode ip).inum (t₁.inode ip).di)
    (t₁.logged ++ [IBLOCK (t₁.inode ip).inum t₁.sb])
  obtain ⟨addrs, e⟩ := hw.entry
  refine ⟨content_eq_of_bytes hsize (fun k hk' => ?_) hw.bytes, hsize ▸ hk.blocks, hw.sb, addrs, ?_⟩
  · -- `iupdate` leaves the bytes, and the size is not read by them
    rw [hk.bytes k hk']
    simp only [t₁, Function.update_self]
    rfl
  · show Function.update t.inode ip _ = _
    rw [e, Function.update_idem, Function.update_self]

/-- A `writei` that returns `n`: the range started inside the file and ends within `MAXFILE`
blocks, the `n` source bytes were copied in and spliced into the file at `off`, its size is the
larger of the old size and `off + n`, and its blocks still satisfy the invariant at the new
size. Of the inode table only the entry's addresses and size changed. -/
theorem writei_spec {off n : UInt32} (hb : FileBlocks s ip (s.inode ip).di.size.toNat)
    (h : (writei ip src off n).run s = .ok ((n.toNat : Int), s')) :
    off.toNat ≤ (s.inode ip).di.size.toNat ∧ off.toNat + n.toNat ≤ MAXFILE * BSIZE ∧
    (src.copyin 0 n.toNat).1 = 0 ∧
      content s'.disk (s'.inode ip).di =
        splice (content s.disk (s.inode ip).di) off.toNat (src.copyin 0 n.toNat).2 ∧
      FileBlocks s' ip (s'.inode ip).di.size.toNat ∧ s'.sb = s.sb ∧
      ∃ addrs, s'.inode = Function.update s.inode ip { s.inode ip with di := { (s.inode ip).di with
        addrs := addrs, size := UInt32.ofNat (max (s.inode ip).di.size.toNat (off.toNat + n.toNat)) } } := by
  -- a refused write returns -1, which is no count
  have hcheck : ¬(off > (s.inode ip).di.size ∨ off + n < off ∨ off + n > UInt32.ofNat (MAXFILE * BSIZE)) := by
    intro hr
    rw [writei_refused src hr] at h
    have := congrArg Prod.fst (Except.ok.inj h)
    simp only at this
    omega
  have hok : ¬(off > (s.inode ip).di.size ∨ off + n < off) := fun hr => hcheck (hr.elim .inl (.inr ∘ .inl))
  have hmax : ¬off + n > UInt32.ofNat (MAXFILE * BSIZE) := fun hr => hcheck (.inr (.inr hr))
  have hoffN : off.toNat ≤ (s.inode ip).di.size.toNat :=
    UInt32.le_iff_toNat_le.1 (UInt32.not_lt.1 fun hr => hok (.inl hr))
  have hsum : (off + n).toNat = off.toNat + n.toNat := by
    have hw := UInt32.le_iff_toNat_le.1 (UInt32.not_lt.1 fun hr => hok (.inr hr))
    have := n.toNat_lt
    rw [UInt32.toNat_add] at hw ⊢
    omega
  have hmaxN : off.toNat + n.toNat ≤ MAXFILE * BSIZE := by
    have := UInt32.le_iff_toNat_le.1 (UInt32.not_lt.1 hmax)
    rw [hsum] at this
    exact this.trans (by decide)
  -- the loop ran to the end
  obtain ⟨tot, o, t, hloop⟩ : ∃ tot o t,
      (writeiLoop ip src n (n.toNat + 1) 0 off).run s = .ok ((tot, o), t) := by
    cases hl : (writeiLoop ip src n (n.toNat + 1) 0 off).run s with
    | error e =>
      simp only [writei, run_bind, run_get, Bool.or_eq_true, decide_eq_true_eq, hok, hmax,
        ↓reduceIte, hl, reduceCtorEq] at h
    | ok p => exact ⟨p.1.1, p.1.2, p.2, rfl⟩
  rw [writei_of_loop src hok hmax hloop, run_get_bind] at h
  have hw₀ : Written s ip src off.toNat (0 : UInt32).toNat s := Written.init hb hoffN
  rw [← UInt32.add_zero off] at hloop
  by_cases hg : o > (t.inode ip).di.size
  · rw [if_pos hg, run_bind_of_eq_ok (run_modifyInode _ _), run_bind_of_eq_ok (run_iupdate _),
      run_pure] at h
    obtain ⟨hn, rfl⟩ := Prod.mk.inj (Except.ok.inj h)
    obtain rfl := eq_of_cint_eq_toNat hn
    obtain ⟨hw, rfl⟩ := writeiLoop_written hmaxN _ 0 s t _ UInt32.zero_le hw₀ hloop
    -- the size grows to `off + n`
    have hgt := UInt32.lt_iff_toNat_lt.1 hg
    rw [hsum, hw.entry.size] at hgt
    have hv : (UInt32.ofNat (max (s.inode ip).di.size.toNat (off.toNat + tot.toNat))) = off + tot := by
      rw [Nat.max_eq_right hgt.le, ← hsum, UInt32.ofNat_toNat]
    rw [hv]
    exact ⟨hoffN, hmaxN, hw.copied, (hw.finish (off + tot) (by rw [hsum]; omega))⟩
  · rw [if_neg hg] at h
    beta_reduce at h
    rw [run_bind_of_eq_ok (run_iupdate _), run_pure] at h
    obtain ⟨hn, rfl⟩ := Prod.mk.inj (Except.ok.inj h)
    obtain rfl := eq_of_cint_eq_toNat hn
    obtain ⟨hw, rfl⟩ := writeiLoop_written hmaxN _ 0 s t _ UInt32.zero_le hw₀ hloop
    -- the size stays: setting it to itself changes nothing
    have hle := UInt32.le_iff_toNat_le.1 (UInt32.not_lt.1 hg)
    rw [hsum, hw.entry.size] at hle
    have hv : UInt32.ofNat (max (s.inode ip).di.size.toNat (off.toNat + tot.toNat)) =
        (t.inode ip).di.size := by
      rw [Nat.max_eq_left hle, hw.entry.size, UInt32.ofNat_toNat]
    have ht : t = { t with inode := (Function.update t.inode ip
        { t.inode ip with di := { (t.inode ip).di with size := (t.inode ip).di.size } }) } := by
      rw [Function.update_eq_self]
    have hfin := hw.finish (t.inode ip).di.size (by rw [hw.entry.size]; omega)
    rw [← ht] at hfin
    rw [hv]
    exact ⟨hoffN, hmaxN, hw.copied, hfin⟩

/-- The size a `writei` that returns `n` leaves: the larger of the old size and `off + n`. -/
lemma writei_size {off n : UInt32} (hb : FileBlocks s ip (s.inode ip).di.size.toNat)
    (h : (writei ip src off n).run s = .ok ((n.toNat : Int), s')) :
    (s'.inode ip).di.size.toNat = max (s.inode ip).di.size.toNat (off.toNat + n.toNat) := by
  obtain ⟨-, hmax, -, -, -, -, addrs, hinode⟩ := writei_spec hb h
  have hlt : max (s.inode ip).di.size.toNat (off.toNat + n.toNat) < 2 ^ 32 := by
    have := (s.inode ip).di.size.toNat_lt
    rw [MAXFILE_eq, BSIZE_eq] at hmax
    omega
  rw [hinode, Function.update_self]
  exact UInt32.toNat_ofNat_of_lt' hlt

/-! ## `readi` -/

/-- The `len` bytes of the file at `ip` from byte `off` on, read through its blocks. -/
def bytesFrom (s : FsState) (ip : Fin NINODE) (off len : Nat) : List UInt8 :=
  (List.range len).map fun i => byteAt s.disk (s.inode ip).di (off + i)

lemma bytesFrom_add (off a b : Nat) :
    bytesFrom s ip off (a + b) = bytesFrom s ip off a ++ bytesFrom s ip (off + a) b := by
  simp only [bytesFrom, List.range_add, List.map_append, List.map_map]
  refine congrArg₂ (· ++ ·) rfl (List.map_congr_left fun i _ => ?_)
  simp only [Function.comp, Nat.add_assoc]

@[simp] lemma length_bytesFrom (off len : Nat) : (bytesFrom s ip off len).length = len := by
  simp [bytesFrom]

/-- A chunk inside one block, copied out of its buffer, is the file's bytes there. -/
lemma getBytes_block (s : FsState) (ip : Fin NINODE) {o m : Nat} (hm : o % BSIZE + m ≤ BSIZE) :
    (s.disk (addrOf s.disk (s.inode ip).di (o / BSIZE)).toNat).getBytes (o % BSIZE) m =
      bytesFrom s ip o m := by
  unfold Bytes.getBytes bytesFrom byteAt
  refine List.map_congr_left fun i hi => ?_
  have hi := List.mem_range.1 hi
  have hq : (o + i) / BSIZE = o / BSIZE := by
    rw [BSIZE_eq] at hm ⊢
    omega
  have hr : (o + i) % BSIZE = o % BSIZE + i := by
    rw [BSIZE_eq] at hm ⊢
    omega
  rw [hq, hr]

/-- `readi`'s loop into a kernel buffer over a range without holes: every round finds its block,
and the buffer grows by the chunk. -/
theorem readiLoop_eq (n off : UInt32) (hn : off.toNat + n.toNat ≤ (s.inode ip).di.size.toNat)
    (hholes : ∀ bn, bn * BSIZE < (s.inode ip).di.size.toNat → addrOf s.disk (s.inode ip).di bn ≠ 0) :
    ∀ (fuel : Nat) (tot : UInt32), tot ≤ n → n.toNat - tot.toNat < fuel →
      (readiLoop ip n fuel tot (off + tot) (.kernel (bytesFrom s ip off.toNat tot.toNat))).run s =
        .ok ((cint n, .kernel (bytesFrom s ip off.toNat n.toNat)), s)
  | 0, _, _, h => absurd h (Nat.not_lt_zero _)
  | fuel + 1, tot, htn, hfuel => by
    have htn' := UInt32.le_iff_toNat_le.1 htn
    have hsz := (s.inode ip).di.size.toNat_lt
    have hO : (off + tot).toNat = off.toNat + tot.toNat := toNat_add_of_lt (by omega)
    by_cases ht : tot < n
    · have htlt := UInt32.lt_iff_toNat_lt.1 ht
      have hm := toNat_chunk (off + tot) htn
      rw [hO] at hm
      have hmpos : 0 < (min (n - tot) (bsize - (off + tot) % bsize)).toNat := by
        rw [hm, BSIZE_eq]
        omega
      -- the block of the chunk is mapped
      have hbn : ((off + tot) / bsize).toNat = (off.toNat + tot.toNat) / BSIZE := by
        rw [UInt32.toNat_div, bsize_toNat, hO]
      have hne : addrOf s.disk (s.inode ip).di ((off.toNat + tot.toNat) / BSIZE) ≠ 0 :=
        hholes _ (lt_of_le_of_lt (Nat.div_mul_le_self _ _) (by omega))
      have hchunk := getBytes_block s ip (o := off.toNat + tot.toNat)
        (m := (min (n - tot) (bsize - (off + tot) % bsize)).toNat) (by rw [hm]; omega)
      have hT : (tot + min (n - tot) (bsize - (off + tot) % bsize)).toNat =
          tot.toNat + (min (n - tot) (bsize - (off + tot) % bsize)).toNat :=
        toNat_add_of_lt (by rw [hm]; omega)
      have ih := readiLoop_eq n off hn hholes fuel (tot + min (n - tot) (bsize - (off + tot) % bsize))
        (UInt32.le_iff_toNat_le.2 (by rw [hT, hm]; omega)) (by rw [hT]; omega)
      rw [hT, bytesFrom_add, ← UInt32.add_assoc] at ih
      have hne' : addrOf s.disk (s.inode ip).di ((off + tot) / bsize).toNat ≠ 0 := by
        rw [hbn]
        exact hne
      rw [readiLoop, if_pos ht, run_bind_of_eq_ok (run_bmap_of_ne_zero hne'),
        if_neg (by simpa using hne'), run_get_bind, run_bind_of_eq_ok (run_bread _ _)]
      simp only [UInt32.toNat_mod, bsize_toNat, hO, hbn, hchunk,
        Dst.copyout_kernel_of_length _ _ (length_bytesFrom _ _)]
      exact ih
    · -- all `n` bytes are in the buffer
      have htn : tot = n := UInt32.le_antisymm htn (UInt32.not_lt.1 ht)
      subst htn
      rw [readiLoop, if_neg ht, run_pure]

/-- The bytes from `off` on that a read of `m` bytes inside the file gets. -/
lemma bytesFrom_eq_content {off m : Nat} (h : off + m ≤ (s.inode ip).di.size.toNat) :
    bytesFrom s ip off m = ((content s.disk (s.inode ip).di).drop off).take m :=
  (take_drop_map_range _ h).symm

/-- `readi` into a kernel buffer from an offset inside a file whose blocks satisfy the
invariant: it changes nothing, and returns the bytes of the contents from `off` on, as many as
were asked for and the file holds. -/
theorem readi_spec {off n : UInt32} (hb : FileBlocks s ip (s.inode ip).di.size.toNat)
    (hoff : off ≤ (s.inode ip).di.size) (hwrap : off ≤ off + n) :
    (readi ip (.kernel []) off n).run s =
      .ok ((((min n.toNat ((s.inode ip).di.size.toNat - off.toNat) : Nat) : Int),
        .kernel (((content s.disk (s.inode ip).di).drop off.toNat).take n.toNat)), s) := by
  have hsize := hb.len_le
  have hoffN := UInt32.le_iff_toNat_le.1 hoff
  have hsum : (off + n).toNat = off.toNat + n.toNat := by
    have hw := UInt32.le_iff_toNat_le.1 hwrap
    have := n.toNat_lt
    rw [UInt32.toNat_add] at hw ⊢
    omega
  -- the count after `readi` clamps it to the end of the file
  obtain ⟨n', hn', hdef⟩ : ∃ n' : UInt32, n'.toNat = min n.toNat ((s.inode ip).di.size.toNat - off.toNat) ∧
      n' = if off + n > (s.inode ip).di.size then (s.inode ip).di.size - off else n := by
    refine ⟨_, ?_, rfl⟩
    split
    · rename_i hgt
      have := UInt32.lt_iff_toNat_lt.1 hgt
      rw [UInt32.toNat_sub_of_le _ _ hoff]
      omega
    · rename_i hle
      have := UInt32.le_iff_toNat_le.1 (UInt32.not_lt.1 hle)
      omega
  have hcheck : ¬(off > (s.inode ip).di.size ∨ off + n < off) := by
    rintro (h | h)
    · exact absurd hoff (UInt32.not_le.2 h)
    · exact absurd hwrap (UInt32.not_le.2 h)
  have hloop := readiLoop_eq (s := s) n' off (by omega) hb.no_hole
    (n'.toNat + 1) 0 UInt32.zero_le (by omega)
  rw [UInt32.add_zero] at hloop
  simp only [readi, run_get_bind, Bool.or_eq_true, decide_eq_true_eq, hcheck, ↓reduceIte, ← hdef]
  rw [show bytesFrom s ip off.toNat (0 : UInt32).toNat = [] from rfl] at hloop
  rw [hloop, cint_of_lt (by rw [hn']; have := MAXFILE_eq; rw [BSIZE_eq] at hsize; omega), hn',
    bytesFrom_eq_content (by omega), List.take_eq_take_min (i := n.toNat), List.length_drop,
    length_content]

/-! ## Reading what `writei` wrote -/

/-- A read of the range a `writei` wrote, in the state the write left, returns the bytes the
write copied in. -/
theorem writei_readi {off n : UInt32} (hb : FileBlocks s ip (s.inode ip).di.size.toNat)
    (h : (writei ip src off n).run s = .ok ((n.toNat : Int), s')) :
    (readi ip (.kernel []) off n).run s' = .ok (((n.toNat : Int), .kernel (src.copyin 0 n.toNat).2), s') := by
  obtain ⟨hoff, hmax, hcp, hbytes, hb', -⟩ := writei_spec hb h
  have hsize := writei_size hb h
  have hwrap : off ≤ off + n := by
    rw [UInt32.le_iff_toNat_le, toNat_add_of_lt (by rw [MAXFILE_eq, BSIZE_eq] at hmax; omega)]
    omega
  have hoff' : off ≤ (s'.inode ip).di.size := by
    rw [UInt32.le_iff_toNat_le, hsize]
    omega
  -- the window of the splice reads back as the bytes spliced in
  have hread : ((splice (content s.disk (s.inode ip).di) off.toNat (src.copyin 0 n.toNat).2).drop
      off.toNat).take (src.copyin 0 n.toNat).2.length = (src.copyin 0 n.toNat).2 :=
    take_drop_splice (by rw [length_content]; exact hoff)
  rw [length_copyin_of_ok src 0 n.toNat hcp] at hread
  rw [readi_spec hb' hoff' hwrap, hbytes, hread, hsize]
  congr
  omega

/-- Sixteen bytes written at the end of the file read back. -/
theorem writei_readi_append :
    ∃ s', (writei fileIp (.kernel (List.replicate 16 7)) 1000 16).run fileState = .ok (16, s') ∧
      (readi fileIp (.kernel []) 1000 16).run s' = .ok ((16, .kernel (List.replicate 16 7)), s') := by
  obtain ⟨s', h⟩ : ∃ s', (writei fileIp (.kernel (List.replicate 16 7)) 1000 16).run fileState =
      .ok (((16 : UInt32).toNat : Int), s') := ⟨_, rfl⟩
  exact ⟨s', h, writei_readi fileBlocks_fileState h⟩

/-- A read of a range apart from the one a `writei` wrote returns, in the state the write left,
what it returned before the write. -/
theorem writei_readi_disjoint {off n p m : UInt32} (hb : FileBlocks s ip (s.inode ip).di.size.toNat)
    (h : (writei ip src off n).run s = .ok ((n.toNat : Int), s'))
    (hp : p ≤ (s.inode ip).di.size) (hwrap : p ≤ p + m)
    (hd : p.toNat + m.toNat ≤ off.toNat ∨ off.toNat + n.toNat ≤ p.toNat) :
    (readi ip (.kernel []) p m).run s' = ((readi ip (.kernel []) p m).run s).map fun r => (r.1, s') := by
  obtain ⟨hoff, -, hcp, hbytes, hb', -⟩ := writei_spec hb h
  have hsize := writei_size hb h
  have hpN := UInt32.le_iff_toNat_le.1 hp
  have hp' : p ≤ (s'.inode ip).di.size := by
    rw [UInt32.le_iff_toNat_le, hsize]
    omega
  -- the bytes of the range are the old ones
  have hread : ((splice (content s.disk (s.inode ip).di) off.toNat (src.copyin 0 n.toNat).2).drop
      p.toNat).take m.toNat = ((content s.disk (s.inode ip).di).drop p.toNat).take m.toNat :=
    take_drop_splice_of_disjoint (by rw [length_content]; exact hoff)
      (by rw [length_copyin_of_ok src 0 n.toNat hcp]; exact hd)
  rw [readi_spec hb' hp' hwrap, readi_spec hb hp hwrap, hbytes, hread, hsize]
  -- and so is their count: a write past the range's start leaves the size or ends at the start
  have hmin : min m.toNat (max (s.inode ip).di.size.toNat (off.toNat + n.toNat) - p.toNat) =
      min m.toNat ((s.inode ip).di.size.toNat - p.toNat) := by
    omega
  rw [hmin]
  rfl

/-- A write at the end of the file leaves a read of its first 100 bytes as it was. -/
theorem writei_readi_disjoint_head :
    ∃ s', (writei fileIp (.kernel (List.replicate 16 7)) 1000 16).run fileState = .ok (16, s') ∧
      (readi fileIp (.kernel []) 0 100).run s' =
        ((readi fileIp (.kernel []) 0 100).run fileState).map fun r => (r.1, s') := by
  obtain ⟨s', h⟩ : ∃ s', (writei fileIp (.kernel (List.replicate 16 7)) 1000 16).run fileState =
      .ok (((16 : UInt32).toNat : Int), s') := ⟨_, rfl⟩
  exact ⟨s', h, writei_readi_disjoint fileBlocks_fileState h (by decide) (by decide) (by decide)⟩

end Xv6.Fs
