import Xv6.Param

/-!
# The on-disk format

The constants of `kernel/fs.h` and `kernel/stat.h`, and the typed views of raw block contents
that `kernel/fs.c` reads and writes through casts: the slot of a `struct dinode` in an inode
block (`(struct dinode*)bp->data + inum % IPB`), the entries of an indirect block
(`(uint*)bp->data`), the bits of a bitmap block, and the 16 bytes of a `struct dirent`.

Each view comes with its read-after-write lemma and its frame lemma. The later modules only
ever touch blocks through these views, so they never see a byte offset.
-/

namespace Xv6

/-- Root i-number (`ROOTINO`). -/
def ROOTINO : Nat := 1

/-- The superblock's magic number (`FSMAGIC`). -/
def FSMAGIC : Nat := 0x10203040

/-- Direct block addresses per inode (`NDIRECT`). -/
def NDIRECT : Nat := 12

/-- Block addresses in the indirect block (`NINDIRECT`, `BSIZE / sizeof(uint)`). -/
def NINDIRECT : Nat := BSIZE / 4

/-- Maximum file size in blocks (`MAXFILE`). -/
def MAXFILE : Nat := NDIRECT + NINDIRECT

/-- `sizeof(struct dinode)`: four `short`s, a `uint` and `NDIRECT + 1` `uint`s. -/
def sizeofDinode : Nat := 64

/-- Inodes per block (`IPB`). -/
def IPB : Nat := BSIZE / sizeofDinode

/-- Block containing inode `i` (`IBLOCK`): a sum of `uint`s, taken mod `2 ^ 32`. -/
def IBLOCK (i : Nat) (sb : Superblock) : Nat := (i / IPB + sb.inodestart) % 2 ^ 32

/-- Bitmap bits per block (`BPB`). -/
def BPB : Nat := BSIZE * 8

/-- Block of the free map containing the bit for block `b` (`BBLOCK`): a sum with the `uint`
`sb.bmapstart`, taken mod `2 ^ 32`. -/
def BBLOCK (b : Nat) (sb : Superblock) : Nat := (b / BPB + sb.bmapstart) % 2 ^ 32

/-- Length of a directory entry's name (`DIRSIZ`). -/
def DIRSIZ : Nat := 14

/-- `sizeof(struct dirent)`: a `ushort` and `DIRSIZ` bytes. -/
def sizeofDirent : Nat := 16

/-- File types of `kernel/stat.h`. -/
def T_DIR : Int16 := 1
def T_FILE : Int16 := 2
def T_DEVICE : Int16 := 3

lemma NDIRECT_eq : NDIRECT = 12 := rfl
lemma NINDIRECT_eq : NINDIRECT = 256 := rfl
lemma MAXFILE_eq : MAXFILE = 268 := rfl
lemma IPB_eq : IPB = 16 := rfl
lemma BPB_eq : BPB = 8192 := rfl
lemma DIRSIZ_eq : DIRSIZ = 14 := rfl
lemma sizeofDirent_eq : sizeofDirent = 16 := rfl

/-! ## Inode slots -/

/-- A little-endian `short`. -/
def i16 (v : Nat) : Int16 := (UInt16.ofNat v).toInt16

@[simp] lemma i16_toNat_mod (x : Int16) : i16 (x.toUInt16.toNat % 256 ^ 2) = x := by
  simp [i16]

/-- `struct dinode`. -/
structure DInode where
  type : Int16
  major : Int16
  minor : Int16
  nlink : Int16
  size : UInt32
  addrs : Fin (NDIRECT + 1) → UInt32
  deriving DecidableEq

/-- The free inode `memset(dip, 0, sizeof(*dip))` leaves. -/
def DInode.zero : DInode := ⟨0, 0, 0, 0, 0, fun _ => 0⟩

/-- Byte offset of inode `i`'s slot in its block. -/
def dinodeOff (i : Nat) : Nat := i % IPB * sizeofDinode

lemma dinodeOff_add_le (i : Nat) : dinodeOff i + sizeofDinode ≤ BSIZE := by
  have : i % IPB < 16 := Nat.mod_lt _ (by decide)
  simp only [dinodeOff, sizeofDinode, BSIZE]
  omega

/-- Slots of different inodes of one block are disjoint. -/
lemma dinodeOff_disjoint {i j : Nat} (h : i % IPB ≠ j % IPB) :
    dinodeOff i + sizeofDinode ≤ dinodeOff j ∨ dinodeOff j + sizeofDinode ≤ dinodeOff i := by
  simp only [dinodeOff, sizeofDinode]
  omega

/-- The `addrs` of a dinode as the list of `NDIRECT + 1` numbers stored at offset 12. -/
def DInode.addrList (d : DInode) : List Nat := (List.finRange (NDIRECT + 1)).map fun i => (d.addrs i).toNat

@[simp] lemma DInode.length_addrList (d : DInode) : d.addrList.length = NDIRECT + 1 := by
  simp [DInode.addrList]

/-- `(struct dinode*)bp->data + i % IPB`, read. -/
def dinodeAt (blk : Block) (i : Nat) : DInode :=
  let o := dinodeOff i
  { type := i16 (blk.getLE o 2)
    major := i16 (blk.getLE (o + 2) 2)
    minor := i16 (blk.getLE (o + 4) 2)
    nlink := i16 (blk.getLE (o + 6) 2)
    size := UInt32.ofNat (blk.getLE (o + 8) 4)
    addrs := fun k => UInt32.ofNat (blk.getLE (o + 12 + 4 * k) 4) }

/-- `(struct dinode*)bp->data + i % IPB`, overwritten field by field with `d`. -/
def setDinodeAt (blk : Block) (i : Nat) (d : DInode) : Block :=
  let o := dinodeOff i
  ((((((blk.setLE o 2 d.type.toUInt16.toNat).setLE (o + 2) 2 d.major.toUInt16.toNat).setLE (o + 4)
    2 d.minor.toUInt16.toNat).setLE (o + 6) 2 d.nlink.toUInt16.toNat).setLE (o + 8) 4
    d.size.toNat).setLEs (o + 12) 4 d.addrList)

/-- A write of slot `i` touches only the bytes of slot `i`. -/
lemma get_setDinodeAt_of_not_mem (blk : Block) (i : Nat) (d : DInode) {k : Nat}
    (hk : k < dinodeOff i ∨ dinodeOff i + sizeofDinode ≤ k) :
    (setDinodeAt blk i d).get k = blk.get k := by
  simp only [sizeofDinode] at hk
  simp only [setDinodeAt]
  rw [Bytes.get_setLEs_of_not_mem _ _ (by simp [NDIRECT]; omega)]
  repeat rw [Bytes.get_setLE_of_not_mem _ _ (by omega)]

/-- Reading back slot `i` after writing it gives what was written. -/
@[simp] lemma dinodeAt_setDinodeAt_self (blk : Block) (i : Nat) (d : DInode) :
    dinodeAt (setDinodeAt blk i d) i = d := by
  have hle := dinodeOff_add_le i
  simp only [sizeofDinode, BSIZE] at hle
  obtain ⟨type, major, minor, nlink, size, addrs⟩ := d
  simp only [dinodeAt, setDinodeAt, DInode.mk.injEq]
  refine ⟨?_, ?_, ?_, ?_, ?_, ?_⟩
  -- each `short` is followed by stores disjoint from it, and read back cut to 16 bits
  iterate 4
    rw [Bytes.getLE_setLEs_of_le _ _ (by omega)]
    repeat rw [Bytes.getLE_setLE_of_disjoint _ _ (by omega)]
    rw [Bytes.getLE_setLE_self _ _ (by simp [BSIZE]; omega), i16_toNat_mod]
  · rw [Bytes.getLE_setLEs_of_le _ _ (by omega),
      Bytes.getLE_setLE_self _ _ (by simp [BSIZE]; omega)]
    simp
  · funext k
    have hk : k.val < (DInode.addrList ⟨type, major, minor, nlink, size, addrs⟩).length := by
      simp only [DInode.length_addrList]
      exact k.isLt
    rw [Bytes.getLE_setLEs_getElem _ _ hk (by simp [NDIRECT, BSIZE]; omega)]
    simp [DInode.addrList]

/-- A slot is read from its own 64 bytes only. -/
lemma dinodeAt_congr {blk blk' : Block} {i : Nat}
    (h : ∀ k, dinodeOff i ≤ k → k < dinodeOff i + sizeofDinode → blk.get k = blk'.get k) :
    dinodeAt blk i = dinodeAt blk' i := by
  have field : ∀ o w, dinodeOff i ≤ o → o + w ≤ dinodeOff i + sizeofDinode →
      blk.getLE o w = blk'.getLE o w := fun o w h1 h2 =>
    Bytes.getLE_congr fun k hk1 hk2 => h k (by omega) (by omega)
  simp only [dinodeAt, DInode.mk.injEq]
  refine ⟨?_, ?_, ?_, ?_, ?_, ?_⟩
  all_goals first
    | rw [field _ _ (by omega) (by simp only [sizeofDinode]; omega)]
    | funext k
      have := k.isLt
      rw [field _ _ (by omega) (by simp only [NDIRECT, sizeofDinode] at this ⊢; omega)]

/-- Writing slot `i` leaves every other slot of the block as it was. -/
lemma dinodeAt_setDinodeAt_of_ne (blk : Block) {i j : Nat} (d : DInode) (h : i % IPB ≠ j % IPB) :
    dinodeAt (setDinodeAt blk i d) j = dinodeAt blk j := by
  have hd := dinodeOff_disjoint h
  exact dinodeAt_congr fun k h1 h2 => get_setDinodeAt_of_not_mem blk i d (by omega)

/-! ## Indirect blocks -/

/-- `((uint*)bp->data)[j]`. -/
def indirectAt (blk : Block) (j : Nat) : UInt32 := UInt32.ofNat (blk.getLE (4 * j) 4)

/-- `((uint*)bp->data)[j] = a`. -/
def setIndirectAt (blk : Block) (j : Nat) (a : UInt32) : Block := blk.setLE (4 * j) 4 a.toNat

@[simp] lemma indirectAt_setIndirectAt_self (blk : Block) {j : Nat} (hj : j < NINDIRECT)
    (a : UInt32) : indirectAt (setIndirectAt blk j a) j = a := by
  simp only [NINDIRECT, BSIZE] at hj
  rw [indirectAt, setIndirectAt, Bytes.getLE_setLE_self _ _ (by simp [BSIZE]; omega)]
  simp

lemma indirectAt_setIndirectAt_of_ne (blk : Block) {j j' : Nat} (a : UInt32) (h : j' ≠ j) :
    indirectAt (setIndirectAt blk j a) j' = indirectAt blk j' := by
  rw [indirectAt, setIndirectAt, Bytes.getLE_setLE_of_disjoint _ _ (by omega), indirectAt]

/-- An index past the `NINDIRECT` entries of a block reads past its end: `0`. -/
lemma indirectAt_of_le (blk : Block) {j : Nat} (hj : NINDIRECT ≤ j) : indirectAt blk j = 0 := by
  rw [indirectAt, Bytes.getLE_of_le _ (by simp only [NINDIRECT, BSIZE_eq] at hj ⊢; omega)]
  rfl

/-- A block of zeros, as `bzero` leaves it, holds no addresses. -/
@[simp] lemma indirectAt_zero (j : Nat) : indirectAt (fun _ => 0) j = 0 := by
  have : ∀ o w, Bytes.getLE (fun _ : Fin BSIZE => (0 : UInt8)) o w = 0 := by
    intro o w
    induction w generalizing o with
    | zero => rfl
    | succ w ih => simp [Bytes.getLE, Bytes.get, ih]
  simp [indirectAt, this]

/-! ## Directory entries -/

/-- `struct dirent`: the entry's i-number and its `DIRSIZ` name bytes. -/
structure Dirent where
  inum : UInt16
  name : List UInt8
  deriving DecidableEq

/-- The 16 bytes `readi` copies into a `struct dirent`, decoded. -/
def Dirent.ofBytes (bs : List UInt8) : Dirent :=
  ⟨UInt16.ofNat ((bs.getD 0 0).toNat + 256 * (bs.getD 1 0).toNat), (bs.drop 2).take DIRSIZ⟩

/-- The 16 bytes of a `struct dirent`, as `writei` copies them out of it. -/
def Dirent.toBytes (de : Dirent) : List UInt8 :=
  UInt8.ofNat de.inum.toNat :: UInt8.ofNat (de.inum.toNat / 256) :: de.name

@[simp] lemma Dirent.length_toBytes (de : Dirent) : de.toBytes.length = de.name.length + 2 := by
  simp [Dirent.toBytes]

/-- Decoding the bytes of an entry with a `DIRSIZ`-byte name gives the entry back. -/
@[simp] lemma Dirent.ofBytes_toBytes (de : Dirent) (h : de.name.length = DIRSIZ) :
    Dirent.ofBytes de.toBytes = de := by
  obtain ⟨inum, name⟩ := de
  have hlt := inum.toNat_lt
  simp only [Dirent.ofBytes, Dirent.toBytes, List.getD_cons_zero, List.getD_cons_succ,
    List.drop_succ_cons, List.drop_zero, Dirent.mk.injEq]
  refine ⟨?_, by rw [← h, List.take_length]⟩
  apply UInt16.toNat_inj.mp
  simp only [UInt8.toNat_ofNat', UInt16.toNat_ofNat']
  omega

end Xv6
