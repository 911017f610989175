import Xv6.Fs.Layout
import Xv6.Lib.StateExcept

/-!
# Blocks and inodes

Model of the block allocator and the inode layer of `kernel/fs.c`: `bzero`, `balloc`, `bfree`,
`ialloc`, `iupdate`, `iget`, `idup`, `ilock`, `iunlock`, `iput`, `iunlockput`, `bmap` and
`itrunc`, as programs over the file-system state that may panic.

The buffer cache is seen through the contents it holds (`Bio/` proves that it holds one buffer
per block): `bread` returns a block's current contents, a store into `bp->data` changes them,
and `brelse` changes nothing in this view. There is one disk, so `bread`'s `dev` selects
nothing. `log_write` appends the block to `logged`, the blocks the running operation has passed
to the log; what the log does with them is the subject of `Log/`. A `panic` is a thrown error
carrying its message. The sleep-locks and `printf` are not modelled: operations run one at a
time. `bmap` is cut at its two halves, `itrunc` at its two loops.
-/

namespace Xv6

/-- `struct inode`, the in-memory copy of an inode, without its sleep-lock. -/
structure Inode where
  dev : Nat
  inum : Nat
  ref : Nat
  valid : Bool
  /-- The copy of the disk inode: `type`, `major`, `minor`, `nlink`, `size` and `addrs`. -/
  di : DInode

/-- The state the file-system layer works on: the superblock `sb` read at boot, the contents of
the disk's blocks, the inode table `itable.inode`, and the blocks logged so far by the running
operation. -/
structure FsState where
  sb : Superblock
  disk : Disk
  inode : Fin NINODE → Inode
  logged : List Nat

/-- File-system code: reads and writes the state, and may panic. -/
abbrev FsM := StateT FsState (Except String)

namespace Fs

/-! ## Buffers and inode-table entries -/

/-- `bread(dev, b)->data`. -/
def bread (_dev b : Nat) : FsM Block := do
  return (← get).disk b

/-- Stores into `bp->data` of the buffer holding block `b`, leaving contents `blk`. -/
def setData (b : Nat) (blk : Block) : FsM Unit :=
  modify fun s => { s with disk := Function.update s.disk b blk }

/-- `log_write(bp)` for the buffer holding block `b`. -/
def log_write (b : Nat) : FsM Unit :=
  modify fun s => { s with logged := s.logged ++ [b] }

/-- Stores into the fields of inode-table entry `ip`. -/
def modifyInode (ip : Fin NINODE) (f : Inode → Inode) : FsM Unit :=
  modify fun s => { s with inode := Function.update s.inode ip (f (s.inode ip)) }

/-- `ip->addrs[k] = a`. -/
def setAddr (ip : Fin NINODE) (k : Fin (NDIRECT + 1)) (a : UInt32) : FsM Unit :=
  modifyInode ip fun x => { x with di := { x.di with addrs := Function.update x.di.addrs k a } }

/-! ### What the primitives do -/

variable {s : FsState}

@[simp] lemma run_bread (dev b : Nat) : (bread dev b).run s = .ok (s.disk b, s) := rfl

@[simp] lemma run_setData (b : Nat) (blk : Block) :
    (setData b blk).run s = .ok ((), { s with disk := Function.update s.disk b blk }) := rfl

@[simp] lemma run_log_write (b : Nat) :
    (log_write b).run s = .ok ((), { s with logged := s.logged ++ [b] }) := rfl

@[simp] lemma run_modifyInode (ip : Fin NINODE) (f : Inode → Inode) :
    (modifyInode ip f).run s = .ok ((), { s with inode := Function.update s.inode ip (f (s.inode ip)) }) :=
  rfl

/-! ## Blocks -/

/-- `bzero`: zero block `bno` and log it. -/
def bzero (_dev bno : Nat) : FsM Unit := do
  setData bno (fun _ => 0)
  log_write bno

/-- The test of `balloc`'s inner loop at bit `bi` of the bitmap block for blocks `b` on: block
`b + bi` exists and its bit is clear. -/
def freeBit (sb : Superblock) (blk : Block) (b bi : Nat) : Bool :=
  decide (b + bi < sb.size) && (blk.get (bi / 8) &&& Bytes.mask bi == 0)

/-- The outer loop of `balloc` from bitmap block `b / BPB` on. Every round moves on by `BPB`
blocks, so `sb.size / BPB + 1` rounds reach the end.

`b` is an `int`, kept here as its value, which stays in `[0, 2 ^ 31)`: the test `b < sb.size`
converts it to a `uint` unchanged, and `b / BPB` in `BBLOCK` is a division of naturals. The
step `b += BPB` past `2 ^ 31 - 1` is a signed overflow, whose behaviour C leaves undefined; the
model stops there with an error, as C semantics with a stuck state for undefined behaviour do. -/
def ballocLoop (dev : Nat) : Nat → Nat → FsM UInt32
  | 0, _ => pure 0
  | fuel + 1, b => do
    let s ← get
    if b < s.sb.size then do
      let blk ← bread dev (BBLOCK b s.sb)
      match (List.range BPB).find? (freeBit s.sb blk b) with
      | some bi =>
        setData (BBLOCK b s.sb) (blk.set (bi / 8) (blk.get (bi / 8) ||| Bytes.mask bi))
        log_write (BBLOCK b s.sb)
        bzero dev (b + bi)
        pure (UInt32.ofNat (b + bi))
      | none =>
        if b + BPB < 2 ^ 31 then ballocLoop dev fuel (b + BPB) else throw "balloc: int overflow"
    else pure 0

/-- `balloc`: allocate a zeroed disk block; `0` when the disk is full. -/
def balloc (dev : Nat) : FsM UInt32 := do
  ballocLoop dev ((← get).sb.size / BPB + 1) 0

/-- `bfree`: clear the bitmap bit of block `b`. -/
def bfree (dev : Nat) (b : UInt32) : FsM Unit := do
  let s ← get
  let blk ← bread dev (BBLOCK b.toNat s.sb)
  let bi := b.toNat % BPB
  if blk.get (bi / 8) &&& Bytes.mask bi == 0 then throw "freeing free block"
  setData (BBLOCK b.toNat s.sb) (blk.set (bi / 8) (blk.get (bi / 8) &&& ~~~Bytes.mask bi))
  log_write (BBLOCK b.toNat s.sb)

/-! ## Inodes -/

/-- `iget`: the table entry of inode `inum`, with one more reference; a free entry is taken
for an inode that has none. -/
def iget (dev inum : Nat) : FsM (Fin NINODE) := do
  let s ← get
  match (List.finRange NINODE).find? (fun i =>
      decide (0 < (s.inode i).ref) && (s.inode i).dev == dev && (s.inode i).inum == inum) with
  | some ip =>
    modifyInode ip fun x => { x with ref := x.ref + 1 }
    pure ip
  | none =>
    match (List.finRange NINODE).find? (fun i => (s.inode i).ref == 0) with
    | some ip =>
      modifyInode ip fun x => { x with dev := dev, inum := inum, ref := 1, valid := false }
      pure ip
    | none => throw "iget: no inodes"

/-- The loop of `ialloc` from inode `inum` on; `ninodes` rounds reach the end. -/
def iallocLoop (dev : Nat) (type : Int16) : Nat → Nat → FsM (Option (Fin NINODE))
  | 0, _ => pure none
  | fuel + 1, inum => do
    let s ← get
    if inum < s.sb.ninodes then do
      let blk ← bread dev (IBLOCK inum s.sb)
      if (dinodeAt blk inum).type == 0 then do
        setData (IBLOCK inum s.sb) (setDinodeAt blk inum { DInode.zero with type := type })
        log_write (IBLOCK inum s.sb)
        let ip ← iget dev inum
        pure (some ip)
      else iallocLoop dev type fuel (inum + 1)
    else pure none

/-- `ialloc`: mark the first free inode allocated with type `type` and return its table entry;
`none` (`NULL`) when every inode is in use. -/
def ialloc (dev : Nat) (type : Int16) : FsM (Option (Fin NINODE)) := do
  iallocLoop dev type (← get).sb.ninodes 1

/-- `iupdate`: copy the in-memory inode to its slot on disk and log the block. -/
def iupdate (ip : Fin NINODE) : FsM Unit := do
  let s ← get
  let x := s.inode ip
  let blk ← bread x.dev (IBLOCK x.inum s.sb)
  setData (IBLOCK x.inum s.sb) (setDinodeAt blk x.inum x.di)
  log_write (IBLOCK x.inum s.sb)

/-- What `iupdate` does: write entry `ip`'s copy of its inode into the inode's slot. -/
lemma run_iupdate (ip : Fin NINODE) :
    (iupdate ip).run s = .ok ((), { s with
      disk := Function.update s.disk (IBLOCK (s.inode ip).inum s.sb)
        (setDinodeAt (s.disk (IBLOCK (s.inode ip).inum s.sb)) (s.inode ip).inum (s.inode ip).di)
      logged := s.logged ++ [IBLOCK (s.inode ip).inum s.sb] }) := rfl

/-- `idup`. -/
def idup (ip : Fin NINODE) : FsM (Fin NINODE) := do
  modifyInode ip fun x => { x with ref := x.ref + 1 }
  pure ip

/-- `ilock`: read the inode from disk unless the entry holds it already. -/
def ilock (ip : Fin NINODE) : FsM Unit := do
  let s ← get
  let x := s.inode ip
  if x.ref < 1 then throw "ilock"
  if !x.valid then do
    let blk ← bread x.dev (IBLOCK x.inum s.sb)
    modifyInode ip fun x => { x with di := dinodeAt blk x.inum, valid := true }
    if (dinodeAt blk x.inum).type == 0 then throw "ilock: no type"

/-- `ilock` of an entry that holds its inode already changes nothing. -/
lemma run_ilock_of_valid {ip : Fin NINODE} (href : 1 ≤ (s.inode ip).ref)
    (hv : (s.inode ip).valid = true) : (ilock ip).run s = .ok ((), s) := by
  simp only [ilock, StateExcept.run_get_bind, Nat.not_lt.2 href, ↓reduceIte, hv, Bool.not_true,
    Bool.false_eq_true]
  rfl

/-- `iunlock`. -/
def iunlock (ip : Fin NINODE) : FsM Unit := do
  if ((← get).inode ip).ref < 1 then throw "iunlock"

lemma run_iunlock (ip : Fin NINODE) :
    (iunlock ip).run s = if (s.inode ip).ref < 1 then .error "iunlock" else .ok ((), s) := by
  simp only [iunlock, StateExcept.run_get_bind]
  split <;> rfl

/-- The first loop of `itrunc`: free the direct blocks. -/
def itruncDirect (ip : Fin NINODE) : FsM Unit :=
  forM (List.finRange NDIRECT) fun i => do
    let x := (← get).inode ip
    if x.di.addrs i.castSucc != 0 then do
      bfree x.dev (x.di.addrs i.castSucc)
      setAddr ip i.castSucc 0

/-- The second half of `itrunc`: free the blocks the indirect block lists, then the indirect
block itself. Each entry is read from the buffer when its round comes. -/
def itruncIndirect (ip : Fin NINODE) : FsM Unit := do
  let x := (← get).inode ip
  let ind := x.di.addrs (Fin.last NDIRECT)
  if ind != 0 then do
    forM (List.range NINDIRECT) fun j => do
      let a := indirectAt (← bread x.dev ind.toNat) j
      if a != 0 then bfree x.dev a
    bfree x.dev ind
    setAddr ip (Fin.last NDIRECT) 0

/-- `itrunc`: free the inode's blocks and set its size to 0. -/
def itrunc (ip : Fin NINODE) : FsM Unit := do
  itruncDirect ip
  itruncIndirect ip
  modifyInode ip fun x => { x with di := { x.di with size := 0 } }
  iupdate ip

/-- `iput`: drop a reference; the last reference to an inode without links frees it. -/
def iput (ip : Fin NINODE) : FsM Unit := do
  let x := (← get).inode ip
  if x.ref == 1 && x.valid && x.di.nlink == 0 then do
    itrunc ip
    modifyInode ip fun x => { x with di := { x.di with type := 0 } }
    iupdate ip
    modifyInode ip fun x => { x with valid := false }
  modifyInode ip fun x => { x with ref := x.ref - 1 }

/-- `iunlockput`. -/
def iunlockput (ip : Fin NINODE) : FsM Unit := do
  iunlock ip
  iput ip

/-! ## Block addresses of a file -/

/-- The indirect block of `ip`, allocated if it has none yet; `0` when that fails. -/
def loadIndirect (ip : Fin NINODE) : FsM UInt32 := do
  let x := (← get).inode ip
  if x.di.addrs (Fin.last NDIRECT) == 0 then do
    let addr ← balloc x.dev
    if addr == 0 then pure 0
    else do
      setAddr ip (Fin.last NDIRECT) addr
      pure addr
  else pure (x.di.addrs (Fin.last NDIRECT))

/-- The second half of `bmap`: entry `bn` of the indirect block, allocated if it is `0`. -/
def bmapIndirect (ip : Fin NINODE) (bn : Nat) : FsM UInt32 := do
  let ind ← loadIndirect ip
  if ind == 0 then pure 0
  else do
    let x := (← get).inode ip
    let a := indirectAt (← bread x.dev ind.toNat) bn
    if a == 0 then do
      let addr ← balloc x.dev
      if addr != 0 then do
        -- `a[bn] = addr` goes to the buffer of the indirect block, as `balloc` left it
        setData ind.toNat (setIndirectAt ((← get).disk ind.toNat) bn addr)
        log_write ind.toNat
      pure addr
    else pure a

/-- `bmap`: the disk address of block `bn` of `ip`, allocated if there is none; `0` when the
disk is full. -/
def bmap (ip : Fin NINODE) (bn : Nat) : FsM UInt32 := do
  let x := (← get).inode ip
  if h : bn < NDIRECT then
    let k : Fin (NDIRECT + 1) := ⟨bn, Nat.lt_succ_of_lt h⟩
    if x.di.addrs k == 0 then do
      let addr ← balloc x.dev
      if addr == 0 then pure 0
      else do
        setAddr ip k addr
        pure addr
    else pure (x.di.addrs k)
  else if bn - NDIRECT < NINDIRECT then bmapIndirect ip (bn - NDIRECT)
  else throw "bmap: out of range"

end Fs

end Xv6
