import Xv6.Fs.Dir
import Xv6.Vm.Walk

/-!
# File-system system calls

Model of the system calls of `kernel/sysfile.c` that change the file system (`sys_link`,
`sys_unlink`, `create`, `sys_open`, `sys_mkdir`, `sys_mknod`, `sys_chdir`, `sys_close`,
`sys_write`), of `filealloc`, `fileclose` and `filewrite` of `kernel/file.c`, of
`pipeclose` of `kernel/pipe.c`, and of the file-system parts of `fork` and `exit` in
`kernel/proc.c`. The kernel state they work on is defined here too: besides the file system
and the file table it holds the process table, physical memory, `nextpid` and `initproc`.

A call works on the file-system state, the file table `ftable` and the working directory and
open files of every process. `begin_op` starts the list of blocks the operation logs. A path
argument is the string the user passed; `argstr` fails on one that does not fit in `MAXPATH`
bytes with its NUL. `fileclose` of the last reference to a pipe end closes that end; the pipe
and device branches of `filewrite` are not modelled.
-/

namespace Xv6

/-- `O_RDONLY`, `O_WRONLY`, `O_RDWR`, `O_CREATE` and `O_TRUNC` of `kernel/fcntl.h`. -/
def O_RDONLY : Int32 := 0x000
def O_WRONLY : Int32 := 0x001
def O_RDWR : Int32 := 0x002
def O_CREATE : Int32 := 0x200
def O_TRUNC : Int32 := 0x400

/-- The `type` of a `struct file`. -/
inductive FDType where
  | FD_NONE
  | FD_PIPE
  | FD_INODE
  | FD_DEVICE
  deriving DecidableEq, Repr

/-- `struct file`; `pipe` is the physical address of its `struct pipe`, `0` for none. -/
structure File where
  type : FDType
  ref : Nat
  readable : Bool
  writable : Bool
  pipe : UInt64
  ip : Option (Fin NINODE)
  off : UInt32
  major : Int16

/-- `enum procstate`. -/
inductive procstate where
  | UNUSED
  | USED
  | SLEEPING
  | RUNNABLE
  | RUNNING
  | ZOMBIE
  deriving DecidableEq, Repr

/-- `struct proc`: the fields the modelled code reads. `chan` is the process a sleeper waits
for (`wait` sleeps on its own `struct proc`; the other sleep channels are not modelled),
`parent` a slot of the process table, `pagetable` and `trapframe` physical addresses. -/
structure Proc where
  state : procstate
  chan : Option (Fin NPROC)
  killed : Int32
  xstate : Int32
  pid : Int32
  parent : Option (Fin NPROC)
  sz : UInt64
  pagetable : UInt64
  trapframe : UInt64
  ofile : Fin NOFILE → Option (Fin NFILE)
  cwd : Option (Fin NINODE)

/-- The kernel state: the file system, the file table `ftable`, the process table `proc`,
physical memory with the page allocator, `nextpid` and `initproc`. -/
structure KState where
  fs : FsState
  file : Fin NFILE → File
  proc : Fin NPROC → Proc
  vm : Vm.VmState
  nextpid : Int32
  initproc : Option (Fin NPROC)

/-- Kernel code over `KState` that may panic. -/
abbrev KM := StateT KState (Except String)

namespace Fs

/-- `begin_op()`, as the file system sees it: the operation starts with nothing logged. -/
def begin_op : FsM Unit := modify fun s => { s with logged := [] }

/-- `end_op()`. -/
def end_op : FsM Unit := pure ()

/-- Whether `argstr(n, buf, MAXPATH)` succeeds on the string `path`. -/
def argstr (path : List UInt8) : Bool := decide (path.length < MAXPATH)

/-! ## Links and names -/

/-- The failure path `bad:` of `sys_link`: take back the link count. -/
def sys_link_bad (ip : Fin NINODE) : FsM Int := do
  ilock ip
  modifyInode ip fun x => { x with di := { x.di with nlink := x.di.nlink - 1 } }
  iupdate ip
  iunlockput ip
  end_op
  pure (-1)

/-- The second half of `sys_link`, after `ip`'s link count went up: enter it in the parent
of `new`. -/
def sys_link_enter (cwd ip : Fin NINODE) (new : List UInt8) : FsM Int := do
  match ← nameiparent cwd new with
  | (none, _) => sys_link_bad ip
  | (some dp, name) => do
    ilock dp
    let s ← get
    let r ← if (s.inode dp).dev != (s.inode ip).dev then pure (-1)
      else dirlink dp name (s.inode ip).inum
    if r < 0 then do
      iunlockput dp
      sys_link_bad ip
    else do
      iunlockput dp
      iput ip
      end_op
      pure 0

/-- `sys_link(old, new)`. -/
def sys_link (cwd : Fin NINODE) (old new : List UInt8) : FsM Int := do
  if !(argstr old && argstr new) then pure (-1)
  else do
    begin_op
    match ← namei cwd old with
    | none => do
      end_op
      pure (-1)
    | some ip => do
      ilock ip
      if ((← get).inode ip).di.type == T_DIR then do
        iunlockput ip
        end_op
        pure (-1)
      else do
        modifyInode ip fun x => { x with di := { x.di with nlink := x.di.nlink + 1 } }
        iupdate ip
        iunlock ip
        sys_link_enter cwd ip new

/-- The loop of `isdirempty` from offset `off`. -/
def isdiremptyLoop (dp : Fin NINODE) : Nat → UInt32 → FsM Bool
  | 0, _ => pure true
  | fuel + 1, off => do
    if off < ((← get).inode dp).di.size then do
      let r ← readi dp (.kernel []) off direntSize
      if r.1 != sizeofDirent then throw "isdirempty: readi"
      if (Dirent.ofBytes r.2.kernelBuf).inum != 0 then pure false
      else isdiremptyLoop dp fuel (off + direntSize)
    else pure true

/-- `isdirempty(dp)`: no live entry past `.` and `..`. -/
def isdirempty (dp : Fin NINODE) : FsM Bool := do
  isdiremptyLoop dp (((← get).inode dp).di.size.toNat / sizeofDirent + 1) (2 * direntSize)

/-- The failure path `bad:` of `sys_unlink`. -/
def sys_unlink_bad (dp : Fin NINODE) : FsM Int := do
  iunlockput dp
  end_op
  pure (-1)

/-- The end of `sys_unlink`, once `ip`'s entry at `off` in `dp` is found and may go. -/
def sys_unlink_remove (dp ip : Fin NINODE) (off : UInt32) : FsM Int := do
  let r ← writei dp (.kernel (List.replicate sizeofDirent 0)) off direntSize
  if r != sizeofDirent then throw "unlink: writei"
  if ((← get).inode ip).di.type == T_DIR then do
    modifyInode dp fun x => { x with di := { x.di with nlink := x.di.nlink - 1 } }
    iupdate dp
  iunlockput dp
  modifyInode ip fun x => { x with di := { x.di with nlink := x.di.nlink - 1 } }
  iupdate ip
  iunlockput ip
  end_op
  pure 0

/-- `sys_unlink(path)`. -/
def sys_unlink (cwd : Fin NINODE) (path : List UInt8) : FsM Int := do
  if !argstr path then pure (-1)
  else do
    begin_op
    match ← nameiparent cwd path with
    | (none, _) => do
      end_op
      pure (-1)
    | (some dp, name) => do
      ilock dp
      -- cannot unlink "." or ".."
      if namecmp name dot == 0 || namecmp name dotdot == 0 then sys_unlink_bad dp
      else match ← dirlookup dp name with
      | none => sys_unlink_bad dp
      | some (ip, off) => do
        ilock ip
        if ((← get).inode ip).di.nlink < 1 then throw "unlink: nlink < 1"
        if ((← get).inode ip).di.type == T_DIR then do
          if !(← isdirempty ip) then do
            iunlockput ip
            sys_unlink_bad dp
          else sys_unlink_remove dp ip off
        else sys_unlink_remove dp ip off

/-! ## Creating inodes -/

/-- The failure path `fail:` of `create`: de-allocate the new inode `ip`. -/
def create_fail (dp ip : Fin NINODE) : FsM (Option (Fin NINODE)) := do
  modifyInode ip fun x => { x with di := { x.di with nlink := 0 } }
  iupdate ip
  iunlockput ip
  iunlockput dp
  pure none

/-- The entries `.` and `..` of a new directory `ip` in `dp` (no `ip->nlink++` for `.`, to
avoid a cyclic count); whether both went in. -/
def create_dots (dp ip : Fin NINODE) : FsM Bool := do
  let s ← get
  if (← dirlink ip dot (s.inode ip).inum) < 0 then pure false
  else do
    let r ← dirlink ip dotdot ((← get).inode dp).inum
    pure (decide (0 ≤ r))

/-- The end of `create` once the inode `ip` of type `type` is allocated: link it in. -/
def create_link (dp ip : Fin NINODE) (name : List UInt8) (type major minor : Int16) :
    FsM (Option (Fin NINODE)) := do
  ilock ip
  modifyInode ip fun x => { x with di := { x.di with major := major, minor := minor, nlink := 1 } }
  iupdate ip
  let dots ← if type == T_DIR then create_dots dp ip else pure true
  if !dots then create_fail dp ip
  else if (← dirlink dp name ((← get).inode ip).inum) < 0 then create_fail dp ip
  else do
    if type == T_DIR then do
      -- now that success is guaranteed: the child's ".."
      modifyInode dp fun x => { x with di := { x.di with nlink := x.di.nlink + 1 } }
      iupdate dp
    iunlockput dp
    pure (some ip)

/-- `create(path, type, major, minor)`: the locked inode `path` names, allocated if missing. -/
def create (cwd : Fin NINODE) (path : List UInt8) (type major minor : Int16) :
    FsM (Option (Fin NINODE)) := do
  match ← nameiparent cwd path with
  | (none, _) => pure none
  | (some dp, name) => do
    ilock dp
    match ← dirlookup dp name with
    | some (ip, _) => do
      iunlockput dp
      ilock ip
      let t := ((← get).inode ip).di.type
      if type == T_FILE && (t == T_FILE || t == T_DEVICE) then pure (some ip)
      else do
        iunlockput ip
        pure none
    | none => do
      match ← ialloc ((← get).inode dp).dev type with
      | none => do
        iunlockput dp
        pure none
      | some ip => create_link dp ip name type major minor

/-- `sys_mkdir(path)`. -/
def sys_mkdir (cwd : Fin NINODE) (path : List UInt8) : FsM Int := do
  begin_op
  if !argstr path then do
    end_op
    pure (-1)
  else match ← create cwd path T_DIR 0 0 with
  | none => do
    end_op
    pure (-1)
  | some ip => do
    iunlockput ip
    end_op
    pure 0

/-- `sys_mknod(path, major, minor)`; the `int` arguments go to `create`'s `short`s. -/
def sys_mknod (cwd : Fin NINODE) (path : List UInt8) (major minor : Int32) : FsM Int := do
  begin_op
  if !argstr path then do
    end_op
    pure (-1)
  else match ← create cwd path T_DEVICE major.toInt16 minor.toInt16 with
  | none => do
    end_op
    pure (-1)
  | some ip => do
    iunlockput ip
    end_op
    pure 0

end Fs

/-! ## Open files and processes -/

namespace Sysfile

open Fs

/-- File-system code run on the file-system part of the kernel state. -/
def liftFs {α : Type} (m : FsM α) : KM α := fun k =>
  match m.run k.fs with
  | .ok (a, s) => .ok (a, { k with fs := s })
  | .error e => .error e

/-- Virtual-memory code run on the machine part of the kernel state. -/
def liftVm {α : Type} (m : Vm.VmM α) : KM α := fun k =>
  match m.run k.vm with
  | .ok (a, s) => .ok (a, { k with vm := s })
  | .error e => .error e

@[simp] lemma liftFs_eq_ok {α : Type} {m : FsM α} {k k' : KState} {a : α} :
    (liftFs m).run k = .ok (a, k') ↔ ∃ s, m.run k.fs = .ok (a, s) ∧ k' = { k with fs := s } := by
  change liftFs m k = _ ↔ _
  unfold liftFs
  rcases m.run k.fs with e | ⟨b, s⟩
  · simp
  · simp only [Except.ok.injEq, Prod.mk.injEq]
    constructor
    · rintro ⟨rfl, rfl⟩
      exact ⟨s, ⟨rfl, rfl⟩, rfl⟩
    · rintro ⟨s', ⟨rfl, rfl⟩, rfl⟩
      exact ⟨rfl, rfl⟩

@[simp] lemma liftVm_eq_ok {α : Type} {m : Vm.VmM α} {k k' : KState} {a : α} :
    (liftVm m).run k = .ok (a, k') ↔ ∃ s, m.run k.vm = .ok (a, s) ∧ k' = { k with vm := s } := by
  change liftVm m k = _ ↔ _
  unfold liftVm
  rcases m.run k.vm with e | ⟨b, s⟩
  · simp
  · simp only [Except.ok.injEq, Prod.mk.injEq]
    constructor
    · rintro ⟨rfl, rfl⟩
      exact ⟨s, ⟨rfl, rfl⟩, rfl⟩
    · rintro ⟨s', ⟨rfl, rfl⟩, rfl⟩
      exact ⟨rfl, rfl⟩

/-! `struct pipe` lies at the start of the page `pipealloc` takes for it: `lock` (24 bytes),
`data[PIPESIZE]`, then the `uint`s `nread` and `nwrite` and the `int`s `readopen` and
`writeopen`. -/

/-- `PIPESIZE`. -/
def PIPESIZE : Nat := 512

/-- The offsets of `nread`, `nwrite`, `readopen` and `writeopen` in `struct pipe`. -/
def pipe_nread : UInt64 := UInt64.ofNat (24 + PIPESIZE)
def pipe_nwrite : UInt64 := UInt64.ofNat (24 + PIPESIZE + 4)
def pipe_readopen : UInt64 := UInt64.ofNat (24 + PIPESIZE + 8)
def pipe_writeopen : UInt64 := UInt64.ofNat (24 + PIPESIZE + 12)

/-- `pipeclose(pi, writable)`: close one end, and free the page once both are closed. The
wakeups of sleepers on the pipe are not modelled. -/
def pipeclose (pi : UInt64) (writable : Bool) : Vm.VmM Unit := do
  if writable then Vm.write32 (pi + pipe_writeopen) 0
  else Vm.write32 (pi + pipe_readopen) 0
  let s ← get
  if Vm.read32 s.mem (pi + pipe_readopen) == 0 && Vm.read32 s.mem (pi + pipe_writeopen) == 0 then
    Vm.kfree pi

/-- Stores into `ftable.file[f]`. -/
def modifyFile (f : Fin NFILE) (g : File → File) : KM Unit :=
  modify fun k => { k with file := Function.update k.file f (g (k.file f)) }

lemma run_modifyFile (f : Fin NFILE) (g : File → File) (k : KState) :
    (modifyFile f g).run k = .ok ((), { k with file := Function.update k.file f (g (k.file f)) }) :=
  rfl

/-- Stores into `proc[p]`. -/
def modifyProc (p : Fin NPROC) (g : Proc → Proc) : KM Unit :=
  modify fun k => { k with proc := Function.update k.proc p (g (k.proc p)) }

lemma run_modifyProc (p : Fin NPROC) (g : Proc → Proc) (k : KState) :
    (modifyProc p g).run k = .ok ((), { k with proc := Function.update k.proc p (g (k.proc p)) }) :=
  rfl

/-- `filealloc()`: the first file with no references, now with one. -/
def filealloc : KM (Option (Fin NFILE)) := do
  let k ← get
  match (List.finRange NFILE).find? (fun f => (k.file f).ref == 0) with
  | some f => do
    modifyFile f fun x => { x with ref := 1 }
    pure (some f)
  | none => pure none

/-- `filedup(f)`. -/
def filedup (f : Fin NFILE) : KM Unit := do
  if ((← get).file f).ref < 1 then throw "filedup"
  modifyFile f fun x => { x with ref := x.ref + 1 }

/-- `fdalloc(f)` in process `p`: the first free descriptor, now naming `f`. -/
def fdalloc (p : Fin NPROC) (f : Fin NFILE) : KM (Option (Fin NOFILE)) := do
  let k ← get
  match (List.finRange NOFILE).find? (fun fd => ((k.proc p).ofile fd).isNone) with
  | some fd => do
    modifyProc p fun q => { q with ofile := Function.update q.ofile fd (some f) }
    pure (some fd)
  | none => pure none

/-- `fileclose(f)`: drop a reference; the last one puts the file's inode. -/
def fileclose (f : Fin NFILE) : KM Unit := do
  let x := (← get).file f
  if x.ref < 1 then throw "fileclose"
  if 0 < x.ref - 1 then modifyFile f fun x => { x with ref := x.ref - 1 }
  else do
    modifyFile f fun x => { x with ref := 0, type := .FD_NONE }
    if x.type == .FD_PIPE then liftVm (pipeclose x.pipe x.writable)
    else if x.type == .FD_INODE || x.type == .FD_DEVICE then
      match x.ip with
      | some ip => liftFs do
        begin_op
        iput ip
        end_op
      | none => pure ()

/-- The working directory of process `p`; a running process has one. -/
def cwdOf (p : Fin NPROC) : KM (Fin NINODE) := do
  match ((← get).proc p).cwd with
  | some ip => pure ip
  | none => throw "no cwd"

/-- `sys_open(path, omode)` in process `p`. -/
def sys_open (p : Fin NPROC) (path : List UInt8) (omode : Int32) : KM Int := do
  if !argstr path then pure (-1)
  else do
    let cwd ← cwdOf p
    liftFs begin_op
    let ip? ← if omode &&& O_CREATE != 0 then liftFs (create cwd path T_FILE 0 0)
      else do
        match ← liftFs (namei cwd path) with
        | none => pure none
        | some ip => do
          liftFs (ilock ip)
          if ((← get).fs.inode ip).di.type == T_DIR && omode != O_RDONLY then do
            liftFs (iunlockput ip)
            pure none
          else pure (some ip)
    match ip? with
    | none => do
      liftFs end_op
      pure (-1)
    | some ip => do
      let di := ((← get).fs.inode ip).di
      if di.type == T_DEVICE && (di.major < 0 || di.major ≥ Int16.ofNat NDEV) then do
        liftFs (iunlockput ip)
        liftFs end_op
        pure (-1)
      else match ← filealloc with
      | none => do
        liftFs (iunlockput ip)
        liftFs end_op
        pure (-1)
      | some f => do
        match ← fdalloc p f with
        | none => do
          fileclose f
          liftFs (iunlockput ip)
          liftFs end_op
          pure (-1)
        | some fd => do
          modifyFile f fun x =>
            { x with
              type := if di.type == T_DEVICE then .FD_DEVICE else .FD_INODE
              major := if di.type == T_DEVICE then di.major else x.major
              off := if di.type == T_DEVICE then x.off else 0
              ip := some ip
              readable := omode &&& O_WRONLY == 0
              writable := omode &&& O_WRONLY != 0 || omode &&& O_RDWR != 0 }
          if omode &&& O_TRUNC != 0 && di.type == T_FILE then liftFs (itrunc ip)
          liftFs (iunlock ip)
          liftFs end_op
          pure fd.val

/-- `sys_mkdir(path)` in process `p`. -/
def sys_mkdir (p : Fin NPROC) (path : List UInt8) : KM Int := do
  liftFs (Fs.sys_mkdir (← cwdOf p) path)

/-- `sys_mknod(path, major, minor)` in process `p`. -/
def sys_mknod (p : Fin NPROC) (path : List UInt8) (major minor : Int32) : KM Int := do
  liftFs (Fs.sys_mknod (← cwdOf p) path major minor)

/-- `sys_link(old, new)` in process `p`. -/
def sys_link (p : Fin NPROC) (old new : List UInt8) : KM Int := do
  liftFs (Fs.sys_link (← cwdOf p) old new)

/-- `sys_unlink(path)` in process `p`. -/
def sys_unlink (p : Fin NPROC) (path : List UInt8) : KM Int := do
  liftFs (Fs.sys_unlink (← cwdOf p) path)

/-- `sys_chdir(path)` in process `p`. -/
def sys_chdir (p : Fin NPROC) (path : List UInt8) : KM Int := do
  let cwd ← cwdOf p
  liftFs begin_op
  if !argstr path then do
    liftFs end_op
    pure (-1)
  else match ← liftFs (namei cwd path) with
  | none => do
    liftFs end_op
    pure (-1)
  | some ip => do
    liftFs (ilock ip)
    if ((← get).fs.inode ip).di.type != T_DIR then do
      liftFs (iunlockput ip)
      liftFs end_op
      pure (-1)
    else do
      liftFs (iunlock ip)
      liftFs (iput cwd)
      liftFs end_op
      modifyProc p fun q => { q with cwd := some ip }
      pure 0

/-- `argfd`: the descriptor `fd` of process `p` and the file it names. -/
def argfd (p : Fin NPROC) (fd : Int32) : KM (Option (Fin NOFILE × Fin NFILE)) := do
  if h : 0 ≤ fd.toInt ∧ fd.toInt < NOFILE then
    let d : Fin NOFILE := ⟨fd.toInt.toNat, by omega⟩
    match ((← get).proc p).ofile d with
    | some f => pure (some (d, f))
    | none => pure none
  else pure none

/-- `sys_close(fd)` in process `p`. -/
def sys_close (p : Fin NPROC) (fd : Int32) : KM Int := do
  match ← argfd p fd with
  | none => pure (-1)
  | some (d, f) => do
    modifyProc p fun q => { q with ofile := Function.update q.ofile d none }
    fileclose f
    pure 0

/-- The largest chunk `filewrite` hands to one transaction. -/
def maxChunk : Int := ((MAXOPBLOCKS - 1 - 1 - 2) / 2 * BSIZE : Nat)

/-- One round of `filewrite`'s loop: write the chunk of `n1` bytes from user address `addr` in
its own transaction, at the file's offset, and move the offset on. -/
def filewriteChunk (f : Fin NFILE) (ip : Fin NINODE) (um : UserMem) (addr : Nat) (n1 : Int) :
    KM Int := do
  liftFs begin_op
  liftFs (ilock ip)
  let r ← liftFs (writei ip (.user um addr) ((← get).file f).off (UInt32.ofInt n1))
  if r > 0 then modifyFile f fun x => { x with off := x.off + UInt32.ofInt r }
  liftFs (iunlock ip)
  liftFs end_op
  pure r

/-- The loop of `filewrite` from byte `i` of the `n` to write; `n + 1` rounds always suffice. -/
def filewriteLoop (f : Fin NFILE) (ip : Fin NINODE) (um : UserMem) (addr : Nat) (n : Int) :
    Nat → Int → KM Int
  | 0, i => pure i
  | fuel + 1, i =>
    if i < n then do
      let n1 := min (n - i) maxChunk
      let r ← filewriteChunk f ip um (addr + i.toNat) n1
      if r != n1 then pure i
      else filewriteLoop f ip um addr n fuel (i + r)
    else pure i

/-- `filewrite(f, addr, n)`. Writes to pipes and devices are not modelled and return `-1`. -/
def filewrite (f : Fin NFILE) (um : UserMem) (addr : Nat) (n : Int) : KM Int := do
  let x := (← get).file f
  if !x.writable then pure (-1)
  else match x.type, x.ip with
  | .FD_INODE, some ip => do
    let i ← filewriteLoop f ip um addr n (n.toNat + 1) 0
    pure (if i == n then n else -1)
  | .FD_INODE, none => throw "filewrite"
  | .FD_NONE, _ => throw "filewrite"
  | _, _ => pure (-1)

/-- `sys_write(fd, addr, n)` in process `p`, whose memory is `um`. -/
def sys_write (p : Fin NPROC) (fd : Int32) (um : UserMem) (addr : Nat) (n : Int32) : KM Int := do
  match ← argfd p fd with
  | none => pure (-1)
  | some (_, f) => filewrite f um addr n.toInt

/-- The file-system part of `fork` from `p` into `np`: every open file of the parent gets
one more reference and the child's descriptor, and the child shares the working directory. -/
def fork (p np : Fin NPROC) : KM Unit := do
  forM (List.finRange NOFILE) fun fd => do
    match ((← get).proc p).ofile fd with
    | some f => do
      filedup f
      modifyProc np fun q => { q with ofile := Function.update q.ofile fd (some f) }
    | none => pure ()
  let cwd ← cwdOf p
  let cwd ← liftFs (idup cwd)
  modifyProc np fun q => { q with cwd := some cwd }

/-- The file-system part of `exit` in `p`: close every open file, then put the working
directory in a transaction of its own. -/
def exit (p : Fin NPROC) : KM Unit := do
  forM (List.finRange NOFILE) fun fd => do
    match ((← get).proc p).ofile fd with
    | some f => do
      fileclose f
      modifyProc p fun q => { q with ofile := Function.update q.ofile fd none }
    | none => pure ()
  let cwd ← cwdOf p
  liftFs do
    begin_op
    iput cwd
    end_op
  modifyProc p fun q => { q with cwd := none }

end Sysfile

end Xv6
