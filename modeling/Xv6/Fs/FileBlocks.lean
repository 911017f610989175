import Xv6.Fs.Bitmap
import Xv6.Fs.Contents

/-!
# The blocks of a file

The invariant under which `bmap`, `readi` and `writei` of `kernel/fs.c` see a file as a byte
string. `FileBlocks s ip len` says of inode-table entry `ip`:

* no block below byte `len` is a hole, so `bmap` finds every one of them without allocating;
* every block the file lists, and its indirect block, is a data block: past the metadata
  (`dataStart`, the first block `mkfs` leaves free), on the disk, and marked in the bitmap;
* the file lists no block twice, and none of its data blocks is its indirect block;
* the bitmap marks the metadata in use, and the inode's own block lies below the bitmap.

The byte view is `byteAt`: byte `k` of the file is byte `k % BSIZE` of the block `addrOf`
finds for block `k / BSIZE`, so that `content` is `byteAt` over the first `size` bytes.

`Keeps s t ip len` is what a step that does not write the file keeps: the invariant, the first
`len` bytes, the superblock, and every field of the inode table but the entry's address table.
`bmap_spec` says that a successful `bmap` is such a step and leaves block `bn` mapped. The three
ways `bmap` allocates (a direct block, an entry of the indirect block, the indirect block and
then an entry) are `Keeps.fill` and `Keeps.newIndirect` at the places `balloc` leaves.
-/

namespace Xv6.Fs

open StateExcept

variable {s t u : FsState} {ip : Fin NINODE} {len : Nat}

/-! ## The data area -/

/-- The first block past the boot block, the superblock, the log, the inode blocks and the
`sb.size / BPB + 1` bitmap blocks: `nmeta` of `mkfs`. -/
def dataStart (sb : Superblock) : Nat := sb.bmapstart + sb.size / BPB + 1

lemma dataStart_pos (sb : Superblock) : 0 < dataStart sb := Nat.succ_pos _

lemma bmapstart_lt_dataStart (sb : Superblock) : sb.bmapstart < dataStart sb :=
  Nat.lt_succ_of_le (Nat.le_add_right _ _)

/-- On a disk whose data area starts below its `uint` size, the sum of `BBLOCK` does not wrap for
any block number: the bitmap has room for the bit of every `uint`. -/
lemma bmapstart_le_BBLOCK (sb : Superblock) (hds : dataStart sb ≤ sb.size) (hsize : sb.size < 2 ^ 32)
    {y : Nat} (hy : y < 2 ^ 32) : sb.bmapstart ≤ BBLOCK y sb := by
  simp only [dataStart, BBLOCK, BPB_eq] at hds ⊢
  omega

/-- The bitmap block of a block of the disk lies below the data area. -/
lemma BBLOCK_lt_dataStart (sb : Superblock) {y : Nat} (hy : y < sb.size) : BBLOCK y sb < dataStart sb := by
  have h₁ : y / BPB ≤ sb.size / BPB := Nat.div_le_div_right hy.le
  have h₂ : BBLOCK y sb ≤ y / BPB + sb.bmapstart := Nat.mod_le _ _
  unfold dataStart
  omega

/-- Block `b` is a data block in use. -/
structure InData (s : FsState) (b : Nat) : Prop where
  start_le : dataStart s.sb ≤ b
  lt_size : b < s.sb.size
  in_use : used s b = true

/-- A data block stays one while the bitmap keeps its bit. -/
lemma InData.mono {b : Nat} (h : InData s b) (hsb : t.sb = s.sb)
    (hused : ∀ y < s.sb.size, used s y = true → used t y = true) : InData t b where
  start_le := by rw [hsb]; exact h.start_le
  lt_size := by rw [hsb]; exact h.lt_size
  in_use := hused b h.lt_size h.in_use

/-- A data block holds no bitmap bit of a block of the disk. -/
lemma InData.BBLOCK_ne {b y : Nat} (h : InData s b) (hy : y < s.sb.size) : BBLOCK y s.sb ≠ b :=
  Nat.ne_of_lt (lt_of_lt_of_le (BBLOCK_lt_dataStart s.sb hy) h.start_le)

/-- Taking a free block leaves every data block in use as it was. -/
lemma takeBlock_disk_of_inData {b c : Nat} (hc : c < s.sb.size) (hfree : used s c = false)
    (h : InData s b) : (takeBlock s c).disk b = s.disk b := by
  have h₁ : b ≠ c := fun e => by
    have hin := h.in_use
    rw [e, hfree] at hin
    exact Bool.false_ne_true hin
  have h₂ : b ≠ BBLOCK c s.sb := (h.BBLOCK_ne hc).symm
  simp only [takeBlock, Function.update_of_ne h₁, Function.update_of_ne h₂]

/-- The bit of block `y` reads the superblock and the bitmap block of `y` only. -/
lemma used_congr (t s : FsState) {y : Nat} (hsb : t.sb = s.sb) (hd : t.disk (BBLOCK y s.sb) = s.disk (BBLOCK y s.sb)) :
    used t y = used s y := by
  rw [used, used, hsb, hd]

/-! ## Addresses and bytes -/

lemma addrOf_of_le {disk : Disk} {d : DInode} {bn : Nat} (h : MAXFILE ≤ bn) : addrOf disk d bn = 0 := by
  have hd : ¬bn < NDIRECT := by
    rw [MAXFILE] at h
    omega
  rw [addrOf, dif_neg hd]
  split
  · rfl
  · exact indirectAt_of_le _ (by rw [MAXFILE] at h; omega)

lemma lt_MAXFILE_of_addrOf_ne_zero {disk : Disk} {d : DInode} {bn : Nat} (h : addrOf disk d bn ≠ 0) :
    bn < MAXFILE :=
  Nat.lt_of_not_le fun hle => h (addrOf_of_le hle)

/-- `addrOf` reads the address table and the indirect block only. -/
lemma addrOf_congr {disk disk' : Disk} {d d' : DInode} (ha : d'.addrs = d.addrs)
    (hind : d.addrs (Fin.last NDIRECT) ≠ 0 →
      disk' (d.addrs (Fin.last NDIRECT)).toNat = disk (d.addrs (Fin.last NDIRECT)).toNat) :
    addrOf disk' d' = addrOf disk d := by
  funext bn
  unfold addrOf
  rw [ha]
  split
  · rfl
  · split
    · rfl
    · rw [hind ‹_›]

/-- Recording address `a` for direct block `bn`, as `bmap` does with `ip->addrs[bn] = addr`. -/
lemma addrOf_setDirect (disk : Disk) (d : DInode) {bn : Nat} (hbn : bn < NDIRECT) (a : UInt32)
    (bn' : Nat) :
    addrOf disk { d with addrs := Function.update d.addrs ⟨bn, Nat.lt_succ_of_lt hbn⟩ a } bn' =
      if bn' = bn then a else addrOf disk d bn' := by
  have hlast : Fin.last NDIRECT ≠ ⟨bn, Nat.lt_succ_of_lt hbn⟩ := Fin.ne_of_val_ne (by simp; omega)
  unfold addrOf
  by_cases h : bn' < NDIRECT
  · simp only [dif_pos h]
    by_cases e : bn' = bn
    · subst e
      simp
    · rw [if_neg e, Function.update_of_ne (Fin.ne_of_val_ne e)]
  · have e : bn' ≠ bn := by omega
    simp only [dif_neg h, if_neg e, Function.update_of_ne hlast]

/-- Recording address `a` in entry `j` of the indirect block, as `bmap` does with
`a[bn] = addr`. -/
lemma addrOf_setIndirect {disk : Disk} {d : DInode} (hind : d.addrs (Fin.last NDIRECT) ≠ 0)
    {j : Nat} (hj : j < NINDIRECT) (a : UInt32) (bn' : Nat) :
    addrOf (Function.update disk (d.addrs (Fin.last NDIRECT)).toNat
        (setIndirectAt (disk (d.addrs (Fin.last NDIRECT)).toNat) j a)) d bn' =
      if bn' = NDIRECT + j then a else addrOf disk d bn' := by
  unfold addrOf
  by_cases h : bn' < NDIRECT
  · rw [dif_pos h, dif_pos h, if_neg (by omega)]
  · rw [dif_neg h, dif_neg h, if_neg hind, if_neg hind, Function.update_self]
    by_cases e : bn' = NDIRECT + j
    · rw [if_pos e, show bn' - NDIRECT = j by omega, indirectAt_setIndirectAt_self _ hj]
    · rw [if_neg e, indirectAt_setIndirectAt_of_ne _ _ (by omega)]

/-- A new indirect block that `balloc` zeroed lists no blocks: recording it changes no
address. -/
lemma addrOf_newIndirect {disk : Disk} {d : DInode} (hind : d.addrs (Fin.last NDIRECT) = 0)
    {c : UInt32} (hzero : disk c.toNat = fun _ => 0) :
    addrOf disk { d with addrs := Function.update d.addrs (Fin.last NDIRECT) c } = addrOf disk d := by
  funext bn
  unfold addrOf
  split
  · exact Function.update_of_ne (Fin.ne_of_val_ne (by simp; omega)) _ _
  · simp only [Function.update_self]
    split
    · rfl
    · rw [hzero, indirectAt_zero]

/-- Byte `k` of the inode `d`: byte `k % BSIZE` of the block that holds block `k / BSIZE`. -/
def byteAt (disk : Disk) (d : DInode) (k : Nat) : UInt8 :=
  (disk (addrOf disk d (k / BSIZE)).toNat).get (k % BSIZE)

lemma content_eq (disk : Disk) (d : DInode) :
    content disk d = (List.range d.size.toNat).map (byteAt disk d) := rfl

/-! ## The invariant -/

/-- The blocks of inode-table entry `ip` cover its first `len` bytes and are its own. -/
structure FileBlocks (s : FsState) (ip : Fin NINODE) (len : Nat) : Prop where
  len_le : len ≤ MAXFILE * BSIZE
  no_hole : ∀ bn, bn * BSIZE < len → addrOf s.disk (s.inode ip).di bn ≠ 0
  data : ∀ bn, addrOf s.disk (s.inode ip).di bn ≠ 0 →
    InData s (addrOf s.disk (s.inode ip).di bn).toNat
  ind : (s.inode ip).di.addrs (Fin.last NDIRECT) ≠ 0 →
    InData s ((s.inode ip).di.addrs (Fin.last NDIRECT)).toNat
  inj : ∀ bn bn', addrOf s.disk (s.inode ip).di bn ≠ 0 →
    addrOf s.disk (s.inode ip).di bn = addrOf s.disk (s.inode ip).di bn' → bn = bn'
  ne_ind : ∀ bn, addrOf s.disk (s.inode ip).di bn ≠ 0 →
    addrOf s.disk (s.inode ip).di bn ≠ (s.inode ip).di.addrs (Fin.last NDIRECT)
  metadata : ∀ b < dataStart s.sb, used s b = true
  dataStart_le : dataStart s.sb ≤ s.sb.size
  iblock : IBLOCK (s.inode ip).inum s.sb < s.sb.bmapstart
  size_lt : s.sb.size < 2 ^ 32

namespace FileBlocks

section Free

variable (hb : FileBlocks s ip len) {c : Nat} (hc : c < s.sb.size) (hfree : used s c = false)
include hb hfree

/-- A free block lies in the data area. -/
lemma dataStart_le_of_free : dataStart s.sb ≤ c :=
  Nat.le_of_not_lt fun h => by simp [hb.metadata c h] at hfree

include hc

omit hfree in
lemma toNat_ofNat_of_lt : (UInt32.ofNat c).toNat = c :=
  UInt32.toNat_ofNat_of_lt' (lt_trans hc hb.size_lt)

lemma ofNat_ne_zero_of_free : UInt32.ofNat c ≠ 0 := by
  intro e
  have h0 := congrArg UInt32.toNat e
  rw [hb.toNat_ofNat_of_lt hc, UInt32.toNat_zero] at h0
  have := hb.dataStart_le_of_free hfree
  have := dataStart_pos s.sb
  omega

/-- A free block is none of the file's blocks. -/
lemma addrOf_ne_of_free (bn : Nat) : addrOf s.disk (s.inode ip).di bn ≠ UInt32.ofNat c := by
  intro e
  have hne : addrOf s.disk (s.inode ip).di bn ≠ 0 := e ▸ hb.ofNat_ne_zero_of_free hc hfree
  have hin := (hb.data bn hne).in_use
  rw [e, hb.toNat_ofNat_of_lt hc, hfree] at hin
  exact Bool.false_ne_true hin

/-- A free block is not the file's indirect block. -/
lemma ind_ne_of_free : (s.inode ip).di.addrs (Fin.last NDIRECT) ≠ UInt32.ofNat c := by
  intro e
  have hin := (hb.ind (e ▸ hb.ofNat_ne_zero_of_free hc hfree)).in_use
  rw [e, hb.toNat_ofNat_of_lt hc, hfree] at hin
  exact Bool.false_ne_true hin

/-- Taking a free block sets its bit and no other bit of the disk. -/
lemma used_takeBlock_of_lt : ∀ y < s.sb.size, used (takeBlock s c) y = (used s y || decide (y = c)) :=
  fun _ hy => used_takeBlock (lt_trans hc hb.size_lt) (Nat.ne_of_lt (lt_of_lt_of_le (BBLOCK_lt_dataStart s.sb hy)
    (hb.dataStart_le_of_free hfree)))

end Free

/-- `FileBlocks` reads the superblock, the entry's address table and i-number, the indirect
block and the bitmap only, and holds as long as the bitmap keeps its bits. -/
lemma frame (hb : FileBlocks s ip len) (hsb : t.sb = s.sb)
    (haddrs : (t.inode ip).di.addrs = (s.inode ip).di.addrs)
    (hinum : (t.inode ip).inum = (s.inode ip).inum)
    (hind : (s.inode ip).di.addrs (Fin.last NDIRECT) ≠ 0 →
      t.disk ((s.inode ip).di.addrs (Fin.last NDIRECT)).toNat =
        s.disk ((s.inode ip).di.addrs (Fin.last NDIRECT)).toNat)
    (hused : ∀ y < s.sb.size, used s y = true → used t y = true) : FileBlocks t ip len := by
  have ha : addrOf t.disk (t.inode ip).di = addrOf s.disk (s.inode ip).di := addrOf_congr haddrs hind
  refine ⟨hb.len_le, ?_, ?_, ?_, ?_, ?_, ?_, ?_, ?_, ?_⟩
  · rw [ha]
    exact hb.no_hole
  · rw [ha]
    exact fun bn h => (hb.data bn h).mono hsb hused
  · rw [haddrs]
    exact fun h => (hb.ind h).mono hsb hused
  · rw [ha]
    exact hb.inj
  · rw [ha, haddrs]
    exact hb.ne_ind
  · rw [hsb]
    exact fun b h => hused b (lt_of_lt_of_le h hb.dataStart_le) (hb.metadata b h)
  · rw [hsb]
    exact hb.dataStart_le
  · rw [hinum, hsb]
    exact hb.iblock
  · rw [hsb]
    exact hb.size_lt

/-- A file's blocks are still its own after a store to a block that is not one of them, nor a
bitmap block, nor its indirect block. -/
lemma setData_of_ne (hb : FileBlocks s ip len) {x : Nat} (blk : Block)
    (hbm : ∀ y < s.sb.size, BBLOCK y s.sb ≠ x)
    (hind : (s.inode ip).di.addrs (Fin.last NDIRECT) ≠ 0 →
      ((s.inode ip).di.addrs (Fin.last NDIRECT)).toNat ≠ x) :
    FileBlocks { s with disk := Function.update s.disk x blk } ip len :=
  hb.frame rfl rfl rfl (fun h => Function.update_of_ne (hind h) _ _)
    fun y hy h => by simp only [used, Function.update_of_ne (hbm y hy)]; exact h

/-- A store to a block of the file keeps its blocks: the block is not its indirect block. -/
lemma setData_block (hb : FileBlocks s ip len) {bn : Nat} {a : UInt32}
    (ha : addrOf s.disk (s.inode ip).di bn = a) (hne : a ≠ 0) (blk : Block) :
    FileBlocks { s with disk := Function.update s.disk a.toNat blk } ip len := by
  subst ha
  refine hb.setData_of_ne blk (fun y hy => (hb.data bn hne).BBLOCK_ne hy) fun h e => ?_
  exact hb.ne_ind bn hne (UInt32.toNat_inj.mp e.symm)

/-- A store to block `bn` of the file changes the bytes of that block only. -/
lemma byteAt_setData_block (hb : FileBlocks s ip len) {bn : Nat} {a : UInt32}
    (ha : addrOf s.disk (s.inode ip).di bn = a) (hne : a ≠ 0) (blk : Block) (k : Nat) :
    byteAt (Function.update s.disk a.toNat blk) (s.inode ip).di k =
      if k / BSIZE = bn then blk.get (k % BSIZE) else byteAt s.disk (s.inode ip).di k := by
  subst ha
  have hnind : (addrOf s.disk (s.inode ip).di bn).toNat ≠ ((s.inode ip).di.addrs (Fin.last NDIRECT)).toNat :=
    fun e => hb.ne_ind bn hne (UInt32.toNat_inj.mp e)
  -- the store leaves the indirect block, so every address is as it was
  have haddr : addrOf (Function.update s.disk (addrOf s.disk (s.inode ip).di bn).toNat blk) (s.inode ip).di =
      addrOf s.disk (s.inode ip).di :=
    addrOf_congr rfl fun _ => Function.update_of_ne (Ne.symm hnind) _ _
  unfold byteAt
  rw [haddr]
  by_cases e : k / BSIZE = bn
  · rw [if_pos e, e, Function.update_self]
  · rw [if_neg e]
    refine congrArg (fun b : Block => b.get (k % BSIZE)) (Function.update_of_ne ?_ _ _)
    intro e'
    by_cases h0 : addrOf s.disk (s.inode ip).di (k / BSIZE) = 0
    · -- a hole reads block 0, which is not a data block
      have hdata := (hb.data bn hne).start_le
      have := dataStart_pos s.sb
      rw [h0, UInt32.toNat_zero] at e'
      omega
    · exact e (hb.inj _ _ h0 (UInt32.toNat_inj.mp e'))

/-- `FileBlocks` does not read the list of logged blocks. -/
lemma setLogged (hb : FileBlocks s ip len) (l : List Nat) : FileBlocks { s with logged := l } ip len :=
  hb.frame rfl rfl rfl (fun _ => rfl) fun _ _ h => h

/-- Setting the size of the entry keeps its blocks: the invariant does not read the size. -/
lemma setSize (hb : FileBlocks s ip len) (v : UInt32) :
    FileBlocks { s with inode := (Function.update s.inode ip
      { s.inode ip with di := { (s.inode ip).di with size := v } }) } ip len :=
  hb.frame rfl (by simp only [Function.update_self]) (by simp only [Function.update_self])
    (fun _ => rfl) fun _ _ h => h

/-- Past the first `len` bytes the invariant covers a block that is no longer a hole. -/
lemma extend (hb : FileBlocks s ip len) {len' bn : Nat} (hlen' : len' ≤ MAXFILE * BSIZE)
    (hbn : addrOf s.disk (s.inode ip).di bn ≠ 0)
    (hcov : ∀ bn', bn' * BSIZE < len' → len ≤ bn' * BSIZE → bn' = bn) : FileBlocks s ip len' := by
  refine { hb with len_le := hlen', no_hole := fun bn' h => ?_ }
  by_cases hlt : bn' * BSIZE < len
  · exact hb.no_hole bn' hlt
  · rw [hcov bn' h (Nat.le_of_not_lt hlt)]
    exact hbn

/-- A file without an indirect block satisfies the invariant when its direct blocks below
`len` are mapped and its direct blocks are distinct data blocks in use. -/
lemma of_direct (hind : (s.inode ip).di.addrs (Fin.last NDIRECT) = 0) (hlen : len ≤ NDIRECT * BSIZE)
    (hcover : ∀ i : Fin NDIRECT, i.val * BSIZE < len → (s.inode ip).di.addrs i.castSucc ≠ 0)
    (hdata : ∀ i : Fin NDIRECT, (s.inode ip).di.addrs i.castSucc ≠ 0 →
      dataStart s.sb ≤ ((s.inode ip).di.addrs i.castSucc).toNat ∧
        ((s.inode ip).di.addrs i.castSucc).toNat < s.sb.size ∧
        used s ((s.inode ip).di.addrs i.castSucc).toNat = true)
    (hinj : ∀ i j : Fin NDIRECT, (s.inode ip).di.addrs i.castSucc ≠ 0 →
      (s.inode ip).di.addrs i.castSucc = (s.inode ip).di.addrs j.castSucc → i = j)
    (hmeta : ∀ b < dataStart s.sb, used s b = true) (hds : dataStart s.sb ≤ s.sb.size)
    (hiblock : IBLOCK (s.inode ip).inum s.sb < s.sb.bmapstart) (hsize : s.sb.size < 2 ^ 32) :
    FileBlocks s ip len := by
  -- without an indirect block only the direct blocks are mapped
  have hdir : ∀ {bn}, addrOf s.disk (s.inode ip).di bn ≠ 0 → bn < NDIRECT := fun {bn} h => by
    by_contra hbn
    exact h (by rw [addrOf, dif_neg hbn, if_pos hind])
  have heq : ∀ {bn} (hbn : bn < NDIRECT),
      addrOf s.disk (s.inode ip).di bn = (s.inode ip).di.addrs (⟨bn, hbn⟩ : Fin NDIRECT).castSucc :=
    fun hbn => by rw [addrOf, dif_pos hbn]; rfl
  refine ⟨hlen.trans (Nat.mul_le_mul_right _ (by rw [MAXFILE]; omega)), fun bn h => ?_,
    fun bn h => ?_, fun h => absurd hind h, fun bn bn' h e => ?_, fun bn h => ?_, hmeta, hds,
    hiblock, hsize⟩
  · have hbn : bn < NDIRECT := by
      by_contra hbn
      have : NDIRECT * BSIZE ≤ bn * BSIZE := Nat.mul_le_mul_right _ (Nat.le_of_not_lt hbn)
      omega
    rw [heq hbn]
    exact hcover ⟨bn, hbn⟩ h
  · have hbn := hdir h
    rw [heq hbn] at h ⊢
    obtain ⟨h₁, h₂, h₃⟩ := hdata _ h
    exact ⟨h₁, h₂, h₃⟩
  · have hbn := hdir h
    have hbn' := hdir (e ▸ h)
    rw [heq hbn, heq hbn'] at e
    rw [heq hbn] at h
    exact congrArg Fin.val (hinj ⟨bn, hbn⟩ ⟨bn', hbn'⟩ h e)
  · rw [hind]
    exact h

end FileBlocks

/-! ## Steps that keep the file -/

/-- Of the inode table, the step from `s` to `t` changed at most the address table of entry
`ip`. -/
def AddrsOnly (s t : FsState) (ip : Fin NINODE) : Prop :=
  ∃ addrs, t.inode =
    Function.update s.inode ip { s.inode ip with di := { (s.inode ip).di with addrs := addrs } }

lemma AddrsOnly.refl (s : FsState) (ip : Fin NINODE) : AddrsOnly s s ip :=
  ⟨(s.inode ip).di.addrs, (Function.update_eq_self ip s.inode).symm⟩

lemma AddrsOnly.trans (h₁ : AddrsOnly s t ip) (h₂ : AddrsOnly t u ip) : AddrsOnly s u ip := by
  obtain ⟨a₁, e₁⟩ := h₁
  obtain ⟨a₂, e₂⟩ := h₂
  refine ⟨a₂, ?_⟩
  rw [e₂, e₁, Function.update_idem, Function.update_self]

lemma AddrsOnly.apply_self (h : AddrsOnly s t ip) :
    ∃ addrs, t.inode ip = { s.inode ip with di := { (s.inode ip).di with addrs := addrs } } := by
  obtain ⟨a, e⟩ := h
  exact ⟨a, by rw [e, Function.update_self]⟩

lemma AddrsOnly.inum (h : AddrsOnly s t ip) : (t.inode ip).inum = (s.inode ip).inum := by
  obtain ⟨_, e⟩ := h.apply_self
  rw [e]

lemma AddrsOnly.size (h : AddrsOnly s t ip) : (t.inode ip).di.size = (s.inode ip).di.size := by
  obtain ⟨_, e⟩ := h.apply_self
  rw [e]

/-- What a step from `s` to `t` that does not write the file at `ip` keeps of its first `len`
bytes. -/
structure Keeps (s t : FsState) (ip : Fin NINODE) (len : Nat) : Prop where
  blocks : FileBlocks t ip len
  bytes : ∀ k < len, byteAt t.disk (t.inode ip).di k = byteAt s.disk (s.inode ip).di k
  sb : t.sb = s.sb
  entry : AddrsOnly s t ip

lemma Keeps.refl (hb : FileBlocks s ip len) : Keeps s s ip len :=
  ⟨hb, fun _ _ => rfl, rfl, AddrsOnly.refl s ip⟩

lemma Keeps.trans (h₁ : Keeps s t ip len) (h₂ : Keeps t u ip len) : Keeps s u ip len :=
  ⟨h₂.blocks, fun k hk => (h₂.bytes k hk).trans (h₁.bytes k hk), h₂.sb.trans h₁.sb,
    h₁.entry.trans h₂.entry⟩

/-- A store to a block below the bitmap, such as `iupdate`'s to the inode's block, keeps the
file. -/
lemma Keeps.setData_below (hb : FileBlocks s ip len) {x : Nat} (hx : x < s.sb.bmapstart)
    (blk : Block) (l : List Nat) :
    Keeps s { s with disk := Function.update s.disk x blk, logged := l } ip len := by
  -- every data block, the indirect block among them, lies past the bitmap
  have hdata : ∀ {b : Nat}, InData s b → b ≠ x := fun h e => by
    have h₁ := h.start_le
    have h₂ := bmapstart_lt_dataStart s.sb
    omega
  have hind : (s.inode ip).di.addrs (Fin.last NDIRECT) ≠ 0 →
      Function.update s.disk x blk ((s.inode ip).di.addrs (Fin.last NDIRECT)).toNat =
        s.disk ((s.inode ip).di.addrs (Fin.last NDIRECT)).toNat :=
    fun h => Function.update_of_ne (hdata (hb.ind h)) _ _
  have hused : ∀ y < s.sb.size, used { s with disk := Function.update s.disk x blk, logged := l } y =
      used s y := fun y hy =>
    used_congr _ _ rfl (Function.update_of_ne (Nat.ne_of_gt (lt_of_lt_of_le hx
      (bmapstart_le_BBLOCK s.sb hb.dataStart_le hb.size_lt (lt_trans hy hb.size_lt)))) _ _)
  refine ⟨hb.frame rfl rfl rfl hind fun y hy h => (hused y hy).trans h, fun k hk => ?_, rfl,
    AddrsOnly.refl s ip⟩
  have hk' : (k / BSIZE) * BSIZE < len := lt_of_le_of_lt (Nat.div_mul_le_self k BSIZE) hk
  unfold byteAt
  rw [addrOf_congr rfl hind]
  exact congrArg (fun b : Block => b.get (k % BSIZE))
    (Function.update_of_ne (hdata (hb.data _ (hb.no_hole _ hk'))) _ _)

/-- Filling a hole at or past byte `len` with a block `c` that was free: what every
allocation of `bmap` comes to. -/
lemma Keeps.fill (hb : FileBlocks s ip len) {bn c : Nat} (hbn : len ≤ bn * BSIZE)
    (hc : c < s.sb.size) (hfree : used s c = false) (hsb : t.sb = s.sb)
    (hentry : AddrsOnly s t ip)
    (hused : ∀ y < s.sb.size, used t y = (used s y || decide (y = c)))
    (haddr : ∀ bn', addrOf t.disk (t.inode ip).di bn' =
      if bn' = bn then UInt32.ofNat c else addrOf s.disk (s.inode ip).di bn')
    (hind : (t.inode ip).di.addrs (Fin.last NDIRECT) = (s.inode ip).di.addrs (Fin.last NDIRECT))
    (hdisk : ∀ bn', addrOf s.disk (s.inode ip).di bn' ≠ 0 →
      t.disk (addrOf s.disk (s.inode ip).di bn').toNat = s.disk (addrOf s.disk (s.inode ip).di bn').toNat) :
    Keeps s t ip len := by
  have hmono : ∀ y < s.sb.size, used s y = true → used t y = true := fun y hy h => by
    rw [hused y hy, h, Bool.true_or]
  have hcn := hb.toNat_ofNat_of_lt hc
  have hc0 := hb.ofNat_ne_zero_of_free hc hfree
  have hinum := hentry.inum
  -- the bytes below `len` lie in blocks other than `bn`
  have hother : ∀ bn', bn' * BSIZE < len → bn' ≠ bn := fun bn' h e => by
    subst e
    exact absurd (lt_of_lt_of_le h hbn) (lt_irrefl _)
  have hcin : InData t c :=
    ⟨hsb ▸ hb.dataStart_le_of_free hfree, hsb ▸ hc, by rw [hused c hc]; simp⟩
  refine ⟨⟨hb.len_le, ?_, ?_, ?_, ?_, ?_, ?_, ?_, ?_, ?_⟩, ?_, hsb, hentry⟩
  · intro bn' h
    rw [haddr, if_neg (hother bn' h)]
    exact hb.no_hole bn' h
  · intro bn' h
    rw [haddr] at h ⊢
    by_cases e : bn' = bn
    · rw [if_pos e, hcn]
      exact hcin
    · rw [if_neg e] at h ⊢
      exact (hb.data bn' h).mono hsb hmono
  · rw [hind]
    exact fun h => (hb.ind h).mono hsb hmono
  · intro bn₁ bn₂ h e
    rw [haddr, haddr] at e
    rw [haddr] at h
    by_cases e₁ : bn₁ = bn <;> by_cases e₂ : bn₂ = bn
    · rw [e₁, e₂]
    · rw [if_pos e₁, if_neg e₂] at e
      exact absurd e.symm (hb.addrOf_ne_of_free hc hfree bn₂)
    · rw [if_neg e₁, if_pos e₂] at e
      exact absurd e (hb.addrOf_ne_of_free hc hfree bn₁)
    · rw [if_neg e₁, if_neg e₂] at e
      rw [if_neg e₁] at h
      exact hb.inj bn₁ bn₂ h e
  · intro bn' h
    rw [haddr] at h ⊢
    rw [hind]
    by_cases e : bn' = bn
    · rw [if_pos e]
      exact (hb.ind_ne_of_free hc hfree).symm
    · rw [if_neg e] at h ⊢
      exact hb.ne_ind bn' h
  · rw [hsb]
    exact fun b h => hmono b (lt_of_lt_of_le h hb.dataStart_le) (hb.metadata b h)
  · rw [hsb]
    exact hb.dataStart_le
  · rw [hinum, hsb]
    exact hb.iblock
  · rw [hsb]
    exact hb.size_lt
  · intro k hk
    have hk' : (k / BSIZE) * BSIZE < len := lt_of_le_of_lt (Nat.div_mul_le_self k BSIZE) hk
    have ha : addrOf t.disk (t.inode ip).di (k / BSIZE) = addrOf s.disk (s.inode ip).di (k / BSIZE) := by
      rw [haddr, if_neg (hother _ hk')]
    unfold byteAt
    rw [ha, hdisk _ (hb.no_hole _ hk')]

/-- Recording a new indirect block `c` that was free and is zeroed: no address changes. -/
lemma Keeps.newIndirect (hb : FileBlocks s ip len) {c : Nat}
    (hc : c < s.sb.size) (hfree : used s c = false) (hsb : t.sb = s.sb)
    (hentry : AddrsOnly s t ip)
    (hused : ∀ y < s.sb.size, used t y = (used s y || decide (y = c)))
    (haddr : addrOf t.disk (t.inode ip).di = addrOf s.disk (s.inode ip).di)
    (hind : (t.inode ip).di.addrs (Fin.last NDIRECT) = UInt32.ofNat c)
    (hdisk : ∀ bn', addrOf s.disk (s.inode ip).di bn' ≠ 0 →
      t.disk (addrOf s.disk (s.inode ip).di bn').toNat = s.disk (addrOf s.disk (s.inode ip).di bn').toNat) :
    Keeps s t ip len := by
  have hmono : ∀ y < s.sb.size, used s y = true → used t y = true := fun y hy h => by
    rw [hused y hy, h, Bool.true_or]
  have hinum := hentry.inum
  refine ⟨⟨hb.len_le, ?_, ?_, ?_, ?_, ?_, ?_, ?_, ?_, ?_⟩, ?_, hsb, hentry⟩
  · rw [haddr]
    exact hb.no_hole
  · rw [haddr]
    exact fun bn h => (hb.data bn h).mono hsb hmono
  · intro _
    rw [hind, hb.toNat_ofNat_of_lt hc]
    exact ⟨hsb ▸ hb.dataStart_le_of_free hfree, hsb ▸ hc, by rw [hused c hc]; simp⟩
  · rw [haddr]
    exact hb.inj
  · rw [haddr, hind]
    exact fun bn _ => hb.addrOf_ne_of_free hc hfree bn
  · rw [hsb]
    exact fun b h => hmono b (lt_of_lt_of_le h hb.dataStart_le) (hb.metadata b h)
  · rw [hsb]
    exact hb.dataStart_le
  · rw [hinum, hsb]
    exact hb.iblock
  · rw [hsb]
    exact hb.size_lt
  · intro k hk
    have hk' : (k / BSIZE) * BSIZE < len := lt_of_le_of_lt (Nat.div_mul_le_self k BSIZE) hk
    unfold byteAt
    rw [haddr, hdisk _ (hb.no_hole _ hk')]

/-! ## `bmap` -/

/-- `loadIndirect` of a table that has an indirect block returns it and changes nothing. -/
lemma run_loadIndirect_of_ne_zero (hind : (s.inode ip).di.addrs (Fin.last NDIRECT) ≠ 0) :
    (loadIndirect ip).run s = .ok ((s.inode ip).di.addrs (Fin.last NDIRECT), s) := by
  rw [loadIndirect, run_get_bind, if_neg (by simpa using hind), run_pure]

/-- `bmap` of a block that is mapped returns its address and changes nothing. -/
lemma run_bmap_of_ne_zero {bn : Nat} (h : addrOf s.disk (s.inode ip).di bn ≠ 0) :
    (bmap ip bn).run s = .ok (addrOf s.disk (s.inode ip).di bn, s) := by
  by_cases hbn : bn < NDIRECT
  · have ha : (s.inode ip).di.addrs ⟨bn, Nat.lt_succ_of_lt hbn⟩ ≠ 0 := by
      simpa only [addrOf, dif_pos hbn] using h
    rw [bmap_direct hbn ha, addrOf, dif_pos hbn]
  · -- an indirect block: the table has one, and its entry is the address
    have hj : bn - NDIRECT < NINDIRECT := by
      have := lt_MAXFILE_of_addrOf_ne_zero h
      rw [MAXFILE] at this
      omega
    have hind : (s.inode ip).di.addrs (Fin.last NDIRECT) ≠ 0 := fun e => h (by
      rw [addrOf, dif_neg hbn, if_pos e])
    have he : addrOf s.disk (s.inode ip).di bn =
        indirectAt (s.disk ((s.inode ip).di.addrs (Fin.last NDIRECT)).toNat) (bn - NDIRECT) := by
      rw [addrOf, dif_neg hbn, if_neg hind]
    rw [he] at h ⊢
    rw [bmap, run_get_bind, dif_neg hbn, if_pos hj, bmapIndirect,
      run_bind_of_eq_ok (run_loadIndirect_of_ne_zero hind), if_neg (by simpa using hind),
      run_get_bind, run_bind_of_eq_ok (run_bread _ _), if_neg (by simpa using h), run_pure]

lemma addrOf_takeBlock (hb : FileBlocks s ip len) {c : Nat} (hc : c < s.sb.size)
    (hfree : used s c = false) :
    addrOf (takeBlock s c).disk (s.inode ip).di = addrOf s.disk (s.inode ip).di :=
  addrOf_congr rfl fun h => takeBlock_disk_of_inData hc hfree (hb.ind h)

/-- `bmap` filling direct block `bn` with the block `c` that `balloc` took. -/
lemma Keeps.fillDirect (hb : FileBlocks s ip len) {bn c : Nat} (hbn : bn < NDIRECT)
    (hz : (s.inode ip).di.addrs ⟨bn, Nat.lt_succ_of_lt hbn⟩ = 0) (hc : c < s.sb.size)
    (hfree : used s c = false) :
    Keeps s { takeBlock s c with inode := Function.update s.inode ip { s.inode ip with di :=
        { (s.inode ip).di with addrs := (Function.update (s.inode ip).di.addrs
          ⟨bn, Nat.lt_succ_of_lt hbn⟩ (UInt32.ofNat c)) } } } ip len := by
  have hhole : addrOf s.disk (s.inode ip).di bn = 0 := by rw [addrOf, dif_pos hbn, hz]
  refine Keeps.fill hb (Nat.le_of_not_lt fun h => hb.no_hole bn h hhole) hc hfree rfl ⟨_, rfl⟩
    (hb.used_takeBlock_of_lt hc hfree) (fun bn' => ?_) ?_
    fun bn' h => takeBlock_disk_of_inData hc hfree (hb.data bn' h)
  · simp only [Function.update_self]
    rw [addrOf_setDirect _ _ hbn, addrOf_takeBlock hb hc hfree]
  · simp only [Function.update_self]
    exact Function.update_of_ne (Fin.ne_of_val_ne (by simp; omega)) _ _

/-- `bmap` filling entry `j` of the indirect block `ind` with the block `c` that `balloc` took,
and logging the indirect block. -/
lemma Keeps.fillIndirect (hb : FileBlocks s ip len) {j c : Nat} (hj : j < NINDIRECT)
    (hind : (s.inode ip).di.addrs (Fin.last NDIRECT) ≠ 0)
    (hz : addrOf s.disk (s.inode ip).di (NDIRECT + j) = 0) (hc : c < s.sb.size)
    (hfree : used s c = false) :
    Keeps s { takeBlock s c with
      disk := Function.update (takeBlock s c).disk ((s.inode ip).di.addrs (Fin.last NDIRECT)).toNat
        (setIndirectAt ((takeBlock s c).disk ((s.inode ip).di.addrs (Fin.last NDIRECT)).toNat) j
          (UInt32.ofNat c))
      logged := (takeBlock s c).logged ++ [((s.inode ip).di.addrs (Fin.last NDIRECT)).toNat] } ip len := by
  have hindata := hb.ind hind
  refine Keeps.fill hb (Nat.le_of_not_lt fun h => hb.no_hole _ h hz) hc hfree rfl
    (AddrsOnly.refl s ip) (fun y hy => ?_) (fun bn' => ?_) rfl
    fun bn' h => ?_
  · -- the indirect block holds no bitmap bit
    rw [← hb.used_takeBlock_of_lt hc hfree y hy]
    exact used_congr _ _ rfl (Function.update_of_ne (hindata.BBLOCK_ne hy) _ _)
  · exact (addrOf_setIndirect hind hj _ bn').trans (by rw [addrOf_takeBlock hb hc hfree])
  · have hne : (addrOf s.disk (s.inode ip).di bn').toNat ≠
        ((s.inode ip).di.addrs (Fin.last NDIRECT)).toNat :=
      fun e => hb.ne_ind bn' h (UInt32.toNat_inj.mp e)
    simp only [Function.update_of_ne hne]
    exact takeBlock_disk_of_inData hc hfree (hb.data bn' h)

lemma addrOf_loadIndirect (hb : FileBlocks s ip len)
    (hz : (s.inode ip).di.addrs (Fin.last NDIRECT) = 0) {c : Nat} (hc : c < s.sb.size)
    (hfree : used s c = false) :
    addrOf (takeBlock s c).disk { (s.inode ip).di with addrs :=
      (Function.update (s.inode ip).di.addrs (Fin.last NDIRECT) (UInt32.ofNat c)) } =
      addrOf s.disk (s.inode ip).di := by
  rw [addrOf_newIndirect hz (by rw [hb.toNat_ofNat_of_lt hc]; exact takeBlock_disk_self s c),
    addrOf_takeBlock hb hc hfree]

/-- `loadIndirect` recording the block `c` that `balloc` took as the new indirect block. -/
lemma Keeps.loadIndirect (hb : FileBlocks s ip len) (hz : (s.inode ip).di.addrs (Fin.last NDIRECT) = 0)
    {c : Nat} (hc : c < s.sb.size) (hfree : used s c = false) :
    Keeps s { takeBlock s c with inode := Function.update s.inode ip { s.inode ip with di :=
        { (s.inode ip).di with addrs := (Function.update (s.inode ip).di.addrs
          (Fin.last NDIRECT) (UInt32.ofNat c)) } } } ip len := by
  refine Keeps.newIndirect hb hc hfree rfl ⟨_, rfl⟩ (hb.used_takeBlock_of_lt hc hfree) ?_ ?_
    fun bn' h => takeBlock_disk_of_inData hc hfree (hb.data bn' h)
  · simp only [Function.update_self]
    exact addrOf_loadIndirect hb hz hc hfree
  · simp only [Function.update_self]

/-- A successful `loadIndirect` keeps the file, changes no address, and leaves the indirect
block it returns in the table. -/
lemma loadIndirect_spec (hb : FileBlocks s ip len) {ind : UInt32}
    (h : (loadIndirect ip).run s = .ok (ind, t)) (hind : ind ≠ 0) :
    Keeps s t ip len ∧ (t.inode ip).di.addrs (Fin.last NDIRECT) = ind ∧
      addrOf t.disk (t.inode ip).di = addrOf s.disk (s.inode ip).di := by
  by_cases hz : (s.inode ip).di.addrs (Fin.last NDIRECT) = 0
  · rw [loadIndirect, run_get_bind, if_pos (by simpa using hz)] at h
    rcases balloc_cases (s.inode ip).dev s with ⟨c, hc, -, hfree, hal⟩ | hal | hal
    · rw [run_bind_of_eq_ok hal, if_neg (by simpa using hb.ofNat_ne_zero_of_free hc hfree), setAddr,
        run_bind_of_eq_ok (run_modifyInode _ _), run_pure] at h
      obtain ⟨rfl, rfl⟩ := Prod.mk.inj (Except.ok.inj h)
      refine ⟨Keeps.loadIndirect hb hz hc hfree, by simp, ?_⟩
      simp only [Function.update_self]
      exact addrOf_loadIndirect hb hz hc hfree
    · -- the disk is full: `loadIndirect` returns 0
      rw [run_bind_of_eq_ok hal, if_pos (by decide), run_pure] at h
      exact absurd (Prod.mk.inj (Except.ok.inj h)).1.symm hind
    · rw [run_bind_of_eq_error hal] at h
      cases h
  · rw [run_loadIndirect_of_ne_zero hz] at h
    obtain ⟨rfl, rfl⟩ := Prod.mk.inj (Except.ok.inj h)
    exact ⟨Keeps.refl hb, rfl, rfl⟩

/-- A successful `bmap` of a direct block that is a hole. -/
lemma bmap_direct_spec (hb : FileBlocks s ip len) {bn : Nat} (hbn : bn < NDIRECT)
    (hz : (s.inode ip).di.addrs ⟨bn, Nat.lt_succ_of_lt hbn⟩ = 0) {a : UInt32}
    (h : (bmap ip bn).run s = .ok (a, t)) (ha : a ≠ 0) :
    Keeps s t ip len ∧ addrOf t.disk (t.inode ip).di bn = a := by
  rw [bmap, run_get_bind, dif_pos hbn, if_pos (by simpa using hz)] at h
  rcases balloc_cases (s.inode ip).dev s with ⟨c, hc, -, hfree, hal⟩ | hal | hal
  · rw [run_bind_of_eq_ok hal, if_neg (by simpa using hb.ofNat_ne_zero_of_free hc hfree), setAddr,
      run_bind_of_eq_ok (run_modifyInode _ _), run_pure] at h
    obtain ⟨rfl, rfl⟩ := Prod.mk.inj (Except.ok.inj h)
    refine ⟨Keeps.fillDirect hb hbn hz hc hfree, ?_⟩
    simp only [Function.update_self]
    rw [addrOf_setDirect _ _ hbn, if_pos rfl]
  · rw [run_bind_of_eq_ok hal, if_pos (by decide), run_pure] at h
    exact absurd (Prod.mk.inj (Except.ok.inj h)).1.symm ha
  · rw [run_bind_of_eq_error hal] at h
    cases h

/-- A successful `bmap` of an indirect block that is a hole. -/
lemma bmap_indirect_spec (hb : FileBlocks s ip len) {j : Nat} (hj : j < NINDIRECT)
    (hz : addrOf s.disk (s.inode ip).di (NDIRECT + j) = 0) {a : UInt32}
    (h : (bmap ip (NDIRECT + j)).run s = .ok (a, t)) (ha : a ≠ 0) :
    Keeps s t ip len ∧ addrOf t.disk (t.inode ip).di (NDIRECT + j) = a := by
  rw [bmap, run_get_bind, dif_neg (by omega), if_pos (by omega), Nat.add_sub_cancel_left,
    bmapIndirect] at h
  obtain ⟨ind, s₁, hload, hk⟩ := run_bind_eq_ok.1 h
  have hind0 : ind ≠ 0 := by
    rintro rfl
    rw [if_pos (by decide), run_pure] at hk
    exact ha (Prod.mk.inj (Except.ok.inj hk)).1.symm
  obtain ⟨hk₁, hind₁, haddr₁⟩ := loadIndirect_spec hb hload hind0
  subst hind₁
  -- the entry of the indirect block is the hole
  have he : indirectAt (s₁.disk ((s₁.inode ip).di.addrs (Fin.last NDIRECT)).toNat) j = 0 := by
    have := hz
    rw [← haddr₁, addrOf, dif_neg (by omega), if_neg hind0, Nat.add_sub_cancel_left] at this
    exact this
  rw [if_neg (by simpa using hind0), run_get_bind, run_bind_of_eq_ok (run_bread _ _),
    if_pos (by simpa using he)] at hk
  have hb₁ := hk₁.blocks
  rcases balloc_cases (s₁.inode ip).dev s₁ with ⟨c, hc, -, hfree, hal⟩ | hal | hal
  · rw [run_bind_of_eq_ok hal, if_pos (by simpa using hb₁.ofNat_ne_zero_of_free hc hfree),
      run_get_bind, run_bind_of_eq_ok (run_setData _ _), run_bind_of_eq_ok (run_log_write _),
      run_pure] at hk
    obtain ⟨rfl, rfl⟩ := Prod.mk.inj (Except.ok.inj hk)
    exact ⟨hk₁.trans (Keeps.fillIndirect hb₁ hj hind0 (by rw [haddr₁]; exact hz) hc hfree),
      (addrOf_setIndirect hind0 hj (UInt32.ofNat c) (NDIRECT + j)).trans (if_pos rfl)⟩
  · rw [run_bind_of_eq_ok hal, if_neg (by decide), run_pure] at hk
    exact absurd (Prod.mk.inj (Except.ok.inj hk)).1.symm ha
  · rw [run_bind_of_eq_error hal] at hk
    cases hk

/-- What a successful `bmap ip bn` does: it keeps the file, and block `bn` is mapped to the
address it returns. -/
theorem bmap_spec (hb : FileBlocks s ip len) {bn : Nat} {a : UInt32}
    (h : (bmap ip bn).run s = .ok (a, t)) (ha : a ≠ 0) :
    Keeps s t ip len ∧ addrOf t.disk (t.inode ip).di bn = a := by
  by_cases hm : addrOf s.disk (s.inode ip).di bn = 0
  · by_cases hbn : bn < NDIRECT
    · exact bmap_direct_spec hb hbn (by simpa only [addrOf, dif_pos hbn] using hm) h ha
    · by_cases hj : bn - NDIRECT < NINDIRECT
      · obtain ⟨j, rfl⟩ : ∃ j, bn = NDIRECT + j := ⟨bn - NDIRECT, by omega⟩
        exact bmap_indirect_spec hb (by omega) hm h ha
      · -- past `MAXFILE` blocks `bmap` panics
        rw [bmap, run_get_bind, dif_neg hbn, if_neg hj] at h
        exact absurd h run_throw_ne_ok
  · -- mapped already: nothing changes
    rw [run_bmap_of_ne_zero hm] at h
    obtain ⟨rfl, rfl⟩ := Prod.mk.inj (Except.ok.inj h)
    exact ⟨Keeps.refl hb, rfl⟩

end Xv6.Fs
