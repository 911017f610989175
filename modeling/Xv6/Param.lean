import Xv6.Lib.Bytes

/-!
# Parameters and the on-disk layout

The constants of `kernel/param.h` and `kernel/fs.h`, the superblock `struct superblock`, and the
disk seen as a map from block number to `BSIZE` bytes. The constants are plain definitions;
the `*_eq` lemmas give their values for `omega` and `decide`.
-/

namespace Xv6

/-- Maximum number of processes (`NPROC`). -/
def NPROC : Nat := 64

/-- Open files per process (`NOFILE`). -/
def NOFILE : Nat := 16

/-- Open files per system (`NFILE`). -/
def NFILE : Nat := 100

/-- Maximum number of active i-nodes (`NINODE`). -/
def NINODE : Nat := 50

/-- Maximum major device number (`NDEV`). -/
def NDEV : Nat := 10

/-- Device number of the file system root disk (`ROOTDEV`). -/
def ROOTDEV : Nat := 1

/-- Maximum file path name (`MAXPATH`). -/
def MAXPATH : Nat := 128

/-- Maximum number of blocks any FS operation writes (`MAXOPBLOCKS`). -/
def MAXOPBLOCKS : Nat := 10

/-- Maximum number of data blocks in the on-disk log (`LOGSIZE`). -/
def LOGSIZE : Nat := MAXOPBLOCKS * 3

/-- Number of buffers in the block cache (`NBUF`). -/
def NBUF : Nat := MAXOPBLOCKS * 3

/-- Size of the file system in blocks (`FSSIZE`). -/
def FSSIZE : Nat := 2000

/-- Block size in bytes (`BSIZE`). -/
def BSIZE : Nat := 1024

lemma MAXOPBLOCKS_eq : MAXOPBLOCKS = 10 := rfl
lemma LOGSIZE_eq : LOGSIZE = 30 := rfl
lemma NBUF_eq : NBUF = 30 := rfl
lemma BSIZE_eq : BSIZE = 1024 := rfl
lemma NINODE_eq : NINODE = 50 := rfl
lemma NINODE_pos : 0 < NINODE := by decide
lemma NBUF_pos : 0 < NBUF := by decide
lemma NPROC_pos : 0 < NPROC := by decide
lemma NFILE_pos : 0 < NFILE := by decide

/-- The contents of one disk block. -/
abbrev Block := Bytes BSIZE

/-- A disk: block number to contents. -/
abbrev Disk := Nat → Block

/-- `struct superblock`: the disk layout that `mkfs` writes into block 1. Its fields are `uint`s,
each kept as its value; the sums the source makes of them are taken mod `2 ^ 32` (`IBLOCK`,
`BBLOCK`). -/
structure Superblock where
  magic : Nat
  size : Nat
  nblocks : Nat
  ninodes : Nat
  nlog : Nat
  logstart : Nat
  inodestart : Nat
  bmapstart : Nat
  deriving Repr, DecidableEq

end Xv6
