import Xv6.Fs.Inode
import Xv6.Vm.Copy

/-!
# Reading and writing inode contents

Model of `readi` and `writei` of `kernel/fs.c`. Both walk the range `[off, off + n)` chunk by
chunk, a chunk ending at the next block boundary, through `bmap`; the offsets and counts are
the source's `uint`s. Each round moves at least one byte, so `n + 1` rounds of fuel always
suffice.

`writei` copies each chunk into the block's buffer with `either_copyin`. When the copy faults
partway, the bytes it moved before the fault stay in the buffer: the model stores exactly the
bytes `copyin` returns, logs nothing, and leaves the loop.

The section *Contents* gives the file as a byte string: the address of block `bn` looked up
without allocating (`addrOf`), and the `size` bytes read through those addresses (`content`).
-/

namespace Xv6

/-- The `int` that the `uint` `x` converts to. -/
def cint (x : UInt32) : Int := x.toInt32.toInt

namespace Fs

/-- `BSIZE` as a `uint`. -/
def bsize : UInt32 := UInt32.ofNat BSIZE

/-- The chunk loop of `readi`: `tot` bytes copied so far, `off` the file offset reached, `dst`
the destination as far as it has been written. -/
def readiLoop (ip : Fin NINODE) (n : UInt32) : Nat → UInt32 → UInt32 → Dst → FsM (Int × Dst)
  | 0, tot, _, dst => pure (cint tot, dst)
  | fuel + 1, tot, off, dst =>
    if tot < n then do
      let addr ← bmap ip (off / bsize).toNat
      if addr == 0 then pure (cint tot, dst)
      else do
        let x := (← get).inode ip
        let blk ← bread x.dev addr.toNat
        let m := min (n - tot) (bsize - off % bsize)
        let r := dst.copyout tot.toNat (blk.getBytes (off % bsize).toNat m.toNat)
        if r.1 == -1 then pure (-1, r.2)
        else readiLoop ip n fuel (tot + m) (off + m) r.2
    else pure (cint tot, dst)

/-- `readi(ip, user_dst, dst, off, n)`: the count returned and the destination after the copy. -/
def readi (ip : Fin NINODE) (dst : Dst) (off n : UInt32) : FsM (Int × Dst) := do
  let x := (← get).inode ip
  if off > x.di.size || off + n < off then pure (0, dst)
  else
    let n := if off + n > x.di.size then x.di.size - off else n
    readiLoop ip n (n.toNat + 1) 0 off dst

/-- The chunk loop of `writei`: `tot` bytes written so far and `off` the file offset reached,
returned when the loop ends. -/
def writeiLoop (ip : Fin NINODE) (src : Src) (n : UInt32) :
    Nat → UInt32 → UInt32 → FsM (UInt32 × UInt32)
  | 0, tot, off => pure (tot, off)
  | fuel + 1, tot, off =>
    if tot < n then do
      let addr ← bmap ip (off / bsize).toNat
      if addr == 0 then pure (tot, off)
      else do
        let x := (← get).inode ip
        let blk ← bread x.dev addr.toNat
        let m := min (n - tot) (bsize - off % bsize)
        let r := src.copyin tot.toNat m.toNat
        -- what `either_copyin` moved is in the buffer, whether it then failed or not
        setData addr.toNat (blk.setBytes (off % bsize).toNat r.2)
        if r.1 == -1 then pure (tot, off)
        else do
          log_write addr.toNat
          writeiLoop ip src n fuel (tot + m) (off + m)
    else pure (tot, off)

/-- `writei(ip, user_src, src, off, n)`: the count returned. -/
def writei (ip : Fin NINODE) (src : Src) (off n : UInt32) : FsM Int := do
  let x := (← get).inode ip
  if off > x.di.size || off + n < off then pure (-1)
  else if off + n > UInt32.ofNat (MAXFILE * BSIZE) then pure (-1)
  else do
    let (tot, off) ← writeiLoop ip src n (n.toNat + 1) 0 off
    if off > ((← get).inode ip).di.size then
      modifyInode ip fun x => { x with di := { x.di with size := off } }
    -- written back even when the size did not change, for the blocks `bmap` added
    iupdate ip
    pure (cint tot)

/-! ## Contents -/

/-- The disk address of block `bn` of the inode `d`, looked up without allocating: `0` where
`bmap` would have to allocate. -/
def addrOf (disk : Disk) (d : DInode) (bn : Nat) : UInt32 :=
  if h : bn < NDIRECT then d.addrs ⟨bn, Nat.lt_succ_of_lt h⟩
  else if d.addrs (Fin.last NDIRECT) = 0 then 0
  else indirectAt (disk (d.addrs (Fin.last NDIRECT)).toNat) (bn - NDIRECT)

/-- The contents of the inode `d`: its `size` bytes, read through `addrOf`. -/
def content (disk : Disk) (d : DInode) : List UInt8 :=
  (List.range d.size.toNat).map fun k => (disk (addrOf disk d (k / BSIZE)).toNat).get (k % BSIZE)

@[simp] lemma length_content (disk : Disk) (d : DInode) : (content disk d).length = d.size.toNat := by
  simp [content]

/-- The contents of an inode that fits in one block: the first `size` bytes of its first block. -/
lemma content_of_le_BSIZE (disk : Disk) {d : DInode} (h : d.size.toNat ≤ BSIZE) :
    content disk d = (disk (d.addrs 0).toNat).getBytes 0 d.size.toNat := by
  unfold content Bytes.getBytes
  refine List.map_congr_left fun k hk => ?_
  have hk : k < BSIZE := by
    rw [List.mem_range] at hk
    omega
  rw [Nat.div_eq_of_lt hk, Nat.mod_eq_of_lt hk, Nat.zero_add]
  simp only [addrOf, NDIRECT, Nat.ofNat_pos, ↓reduceDIte]
  rfl

end Fs

end Xv6
