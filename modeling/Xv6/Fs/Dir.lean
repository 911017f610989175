import Xv6.Fs.ReadWrite

/-!
# Directories and path names

Model of the directory and path layers of `kernel/fs.c`: `namecmp` (with `strncmp` and
`strncpy` of `kernel/string.c`), `dirlookup`, `dirlink`, `skipelem`, `namex`, `namei` and
`nameiparent`.

A C string is the list of its bytes; reading past the end of the list reads the terminating
NUL, so `headD 0` is `*p`. A directory entry is read with `readi` into a kernel `struct dirent`
and decoded with `Dirent.ofBytes`. The loops over a directory step by `sizeof(struct dirent)`
while `off < dp->size`, so `size / 16 + 1` rounds reach their end; the loop of `namex` consumes
at least one byte of the path per round.
-/

namespace Xv6

/-- `strncmp(p, q, n)`. -/
def strncmp : List UInt8 → List UInt8 → Nat → Int
  | _, _, 0 => 0
  | p, q, n + 1 =>
    if p.headD 0 != 0 && p.headD 0 == q.headD 0 then strncmp p.tail q.tail n
    else (p.headD 0).toNat - (q.headD 0).toNat

/-- The `n` bytes `strncpy(s, t, n)` stores into `s`: those of `t` up to its NUL, then zeros. -/
def strncpy (t : List UInt8) : Nat → List UInt8
  | 0 => []
  | n + 1 => if t.headD 0 == 0 then List.replicate (n + 1) 0 else t.headD 0 :: strncpy t.tail n

/-- `'/'`. -/
def slash : UInt8 := 47

/-- The names `"."` and `".."`. -/
def dot : List UInt8 := [46]
def dotdot : List UInt8 := [46, 46]

namespace Fs

/-- `namecmp`. -/
def namecmp (s t : List UInt8) : Int := strncmp s t DIRSIZ

/-- `sizeof(struct dirent)` as a `uint`. -/
def direntSize : UInt32 := UInt32.ofNat sizeofDirent

/-- The loop of `dirlookup` from offset `off`: the entry for `name` and its offset. -/
def dirlookupLoop (dp : Fin NINODE) (name : List UInt8) :
    Nat → UInt32 → FsM (Option (Fin NINODE × UInt32))
  | 0, _ => pure none
  | fuel + 1, off => do
    let x := (← get).inode dp
    if off < x.di.size then do
      let r ← readi dp (.kernel []) off direntSize
      if r.1 != sizeofDirent then throw "dirlookup read"
      let de := Dirent.ofBytes r.2.kernelBuf
      if de.inum == 0 then dirlookupLoop dp name fuel (off + direntSize)
      else if namecmp name de.name == 0 then do
        let ip ← iget x.dev de.inum.toNat
        pure (some (ip, off))
      else dirlookupLoop dp name fuel (off + direntSize)
    else pure none

/-- `dirlookup(dp, name, poff)`: the inode `name` names in `dp`, referenced, and the offset
of its entry (`*poff`); `none` (`NULL`) if there is no such entry. -/
def dirlookup (dp : Fin NINODE) (name : List UInt8) : FsM (Option (Fin NINODE × UInt32)) := do
  let x := (← get).inode dp
  if x.di.type != T_DIR then throw "dirlookup not DIR"
  dirlookupLoop dp name (x.di.size.toNat / sizeofDirent + 1) 0

/-- The loop of `dirlink` looking for a free entry: the offset of the first entry with
`inum == 0`, or `dp->size` if there is none. -/
def dirlinkLoop (dp : Fin NINODE) : Nat → UInt32 → FsM UInt32
  | 0, off => pure off
  | fuel + 1, off => do
    let x := (← get).inode dp
    if off < x.di.size then do
      let r ← readi dp (.kernel []) off direntSize
      if r.1 != sizeofDirent then throw "dirlink read"
      if (Dirent.ofBytes r.2.kernelBuf).inum == 0 then pure off
      else dirlinkLoop dp fuel (off + direntSize)
    else pure off

/-- `dirlink(dp, name, inum)`: write the entry `(name, inum)` into `dp`; `-1` if `name` is
there already or the write fails. -/
def dirlink (dp : Fin NINODE) (name : List UInt8) (inum : Nat) : FsM Int := do
  match ← dirlookup dp name with
  | some (ip, _) => do
    iput ip
    pure (-1)
  | none => do
    let off ← dirlinkLoop dp (((← get).inode dp).di.size.toNat / sizeofDirent + 1) 0
    let de : Dirent := ⟨UInt16.ofNat inum, strncpy name DIRSIZ⟩
    let r ← writei dp (.kernel de.toBytes) off direntSize
    if r != sizeofDirent then pure (-1) else pure 0

/-- `skipelem(path, name)`: the rest of the path after its first element, and the element cut
to `DIRSIZ` bytes (what `name` holds); `none` (`0`) if there is no element. -/
def skipelem (path : List UInt8) : Option (List UInt8 × List UInt8) :=
  let path := path.dropWhile (· == slash)
  if path.headD 0 == 0 then none
  else
    let elem := path.takeWhile fun c => c != slash && c != 0
    some ((path.drop elem.length).dropWhile (· == slash), elem.take DIRSIZ)

/-- The loop of `namex`: `ip` is the inode reached, referenced and unlocked, `path` the rest of
the path and `name` the last element read. Returns the inode found and `name`. -/
def namexLoop (nameiparent : Bool) :
    Nat → Fin NINODE → List UInt8 → List UInt8 → FsM (Option (Fin NINODE) × List UInt8)
  | fuel, ip, path, name =>
    match fuel, skipelem path with
    | fuel + 1, some (path, name) => do
      ilock ip
      if ((← get).inode ip).di.type != T_DIR then do
        iunlockput ip
        pure (none, name)
      else if nameiparent && path.headD 0 == 0 then do
        -- stop one level early
        iunlock ip
        pure (some ip, name)
      else do
        match ← dirlookup ip name with
        | none => do
          iunlockput ip
          pure (none, name)
        | some (next, _) => do
          iunlockput ip
          namexLoop nameiparent fuel next path name
    | _, _ =>
      if nameiparent then do
        iput ip
        pure (none, name)
      else pure (some ip, name)

/-- `namex(path, nameiparent, name)` for a process whose working directory is `cwd`. -/
def namex (cwd : Fin NINODE) (path : List UInt8) (nameiparent : Bool) :
    FsM (Option (Fin NINODE) × List UInt8) := do
  let ip ← if path.headD 0 == slash then iget ROOTDEV ROOTINO else idup cwd
  namexLoop nameiparent (path.length + 1) ip path []

/-- `namei(path)`. -/
def namei (cwd : Fin NINODE) (path : List UInt8) : FsM (Option (Fin NINODE)) := do
  return (← namex cwd path false).1

/-- `nameiparent(path, name)`: the parent directory and the last element. -/
def nameiparent (cwd : Fin NINODE) (path : List UInt8) : FsM (Option (Fin NINODE) × List UInt8) :=
  namex cwd path true

end Fs

end Xv6
