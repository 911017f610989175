import Xv6.Fs.Sysfile

/-!
# Processes

Model of the process-table code of `kernel/proc.c`: `allocpid`, `allocproc`, `freeproc`,
`proc_pagetable`, `proc_freepagetable`, `userinit`, `growproc`, `fork`, `reparent`, `wakeup`,
`exit`, `wait` and `kill`, over the kernel state of `Fs.Sysfile`.

Each function runs as one step with no other process in between; the locks only serve that,
and are left out, as are the scheduler and the context switch. `wait` is one round of its
`for (;;)` loop: it reaps a zombie child, fails, or puts the caller to sleep on its own
`struct proc`, where `exit`'s `wakeup` finds it; a woken process runs the round again.
A process's name is left out.
-/

namespace Xv6

namespace Proc

open Sysfile Vm

/-- The byte offsets of `epc`, `sp` and `a0` in `struct trapframe`, and its size. -/
def trapframe_epc : UInt64 := 24
def trapframe_sp : UInt64 := 48
def trapframe_a0 : UInt64 := 112
def sizeofTrapframe : Nat := 288

/-- `allocpid()`: `nextpid`, which then moves on by one. -/
def allocpid : KM Int32 := do
  let k ← get
  set { k with nextpid := k.nextpid + 1 }
  pure k.nextpid

/-- `proc_pagetable(p)` of a process whose trapframe page is `trapframe`: a page table with only
the trampoline and the trapframe mapped, or `0`. -/
def proc_pagetable (trapframe : UInt64) : VmM UInt64 := do
  let pagetable ← uvmcreate
  if pagetable == 0 then pure 0
  else if (← mappages pagetable TRAMPOLINE Vm.PGSIZE (← get).trampoline (toPerm (PTE_R ||| PTE_X))) < 0
  then do
    uvmfree pagetable 0
    pure 0
  else if (← mappages pagetable TRAPFRAME Vm.PGSIZE trapframe (toPerm (PTE_R ||| PTE_W))) < 0 then do
    uvmunmap pagetable TRAMPOLINE 1 false
    uvmfree pagetable 0
    pure 0
  else pure pagetable

/-- `proc_freepagetable(pagetable, sz)`. -/
def proc_freepagetable (pagetable sz : UInt64) : VmM Unit := do
  uvmunmap pagetable TRAMPOLINE 1 false
  uvmunmap pagetable TRAPFRAME 1 false
  uvmfree pagetable sz

/-- `freeproc(p)`: free the trapframe and the user memory, and clear the slot. -/
def freeproc (p : Fin NPROC) : KM Unit := do
  let q := (← get).proc p
  if q.trapframe != 0 then liftVm (kfree q.trapframe)
  modifyProc p fun q => { q with trapframe := 0 }
  let q := (← get).proc p
  if q.pagetable != 0 then liftVm (proc_freepagetable q.pagetable q.sz)
  modifyProc p fun q =>
    { q with pagetable := 0, sz := 0, pid := 0, parent := none, chan := none, killed := 0,
             xstate := 0, state := .UNUSED }

/-- `allocproc()`: the first `UNUSED` slot, given a pid, a trapframe and a page table, or `none`
when there is no slot or no memory. -/
def allocproc : KM (Option (Fin NPROC)) := do
  let k ← get
  match (List.finRange NPROC).find? fun p => (k.proc p).state == .UNUSED with
  | none => pure none
  | some p => do
    let pid ← allocpid
    modifyProc p fun q => { q with pid := pid, state := .USED }
    let tf ← liftVm kalloc
    modifyProc p fun q => { q with trapframe := tf }
    if tf == 0 then do
      freeproc p
      pure none
    else do
      let pt ← liftVm (proc_pagetable tf)
      modifyProc p fun q => { q with pagetable := pt }
      if pt == 0 then do
        freeproc p
        pure none
      else pure (some p)

/-- `initcode`: the first user program, which calls `exec("/init")`. -/
def initcode : List UInt8 :=
  [0x17, 0x05, 0x00, 0x00, 0x13, 0x05, 0x45, 0x02, 0x97, 0x05, 0x00, 0x00, 0x93,
   0x85, 0x35, 0x02, 0x93, 0x08, 0x70, 0x00, 0x73, 0x00, 0x00, 0x00, 0x93, 0x08,
   0x20, 0x00, 0x73, 0x00, 0x00, 0x00, 0xef, 0xf0, 0x9f, 0xff, 0x2f, 0x69, 0x6e,
   0x69, 0x74, 0x00, 0x00, 0x24, 0x00, 0x00, 0x00, 0x00, 0x00, 0x00, 0x00, 0x00]

/-- `userinit()`: the first process, running `initcode` in `/`. The C code goes on with a
null pointer when `allocproc` fails; here that ends the boot. -/
def userinit : KM Unit := do
  match ← allocproc with
  | none => throw "userinit"
  | some p => do
    modify fun k => { k with initproc := some p }
    let q := (← get).proc p
    liftVm (uvmfirst q.pagetable initcode (UInt32.ofNat initcode.length))
    modifyProc p fun q => { q with sz := Vm.PGSIZE }
    liftVm (write64 (q.trapframe + trapframe_epc) 0)
    liftVm (write64 (q.trapframe + trapframe_sp) Vm.PGSIZE)
    -- `namei("/")` does not read the working directory of the (not yet running) process
    let cwd ← liftFs (Fs.namei ⟨0, NINODE_pos⟩ [slash])
    modifyProc p fun q => { q with cwd := cwd, state := .RUNNABLE }

/-- `growproc(n)` in process `p`. -/
def growproc (p : Fin NPROC) (n : Int32) : KM Int := do
  let q := (← get).proc p
  -- `sz + n`, with `n` sign-extended to 64 bits
  let target := q.sz + n.toInt64.toUInt64
  if n > 0 then do
    let sz ← liftVm (uvmalloc q.pagetable q.sz target (toPerm PTE_W))
    if sz == 0 then pure (-1)
    else do
      modifyProc p fun q => { q with sz := sz }
      pure 0
  else if n < 0 then do
    let sz ← liftVm (uvmdealloc q.pagetable q.sz target)
    modifyProc p fun q => { q with sz := sz }
    pure 0
  else pure 0

/-- `fork()` in process `p`: the child's pid, or `-1`. -/
def fork (p : Fin NPROC) : KM Int := do
  match ← allocproc with
  | none => pure (-1)
  | some np => do
    let q := (← get).proc p
    let nq := (← get).proc np
    if (← liftVm (uvmcopy q.pagetable nq.pagetable q.sz)) < 0 then do
      freeproc np
      pure (-1)
    else do
      modifyProc np fun x => { x with sz := q.sz }
      -- *(np->trapframe) = *(p->trapframe), then the child's a0 = 0
      let tf := readBytes (← get).vm.mem q.trapframe sizeofTrapframe
      liftVm (writeBytes nq.trapframe tf)
      liftVm (write64 (nq.trapframe + trapframe_a0) 0)
      Sysfile.fork p np
      let pid := ((← get).proc np).pid
      modifyProc np fun x => { x with parent := some p }
      modifyProc np fun x => { x with state := .RUNNABLE }
      pure pid.toInt

/-- `wakeup(chan)` called by `caller`: every other process sleeping on `chan` becomes
runnable. -/
def wakeup (caller : Fin NPROC) (chan : Option (Fin NPROC)) : KM Unit :=
  forM (List.finRange NPROC) fun p => do
    if p != caller then do
      let q := (← get).proc p
      if q.state == .SLEEPING && q.chan == chan then
        modifyProc p fun q => { q with state := .RUNNABLE }

/-- `reparent(p)` called by `p`: its children go to `initproc`. -/
def reparent (p : Fin NPROC) : KM Unit :=
  forM (List.finRange NPROC) fun pp => do
    if ((← get).proc pp).parent == some p then do
      let init := (← get).initproc
      modifyProc pp fun q => { q with parent := init }
      wakeup p init

/-- `exit(status)` in process `p`, up to the switch away from the zombie. -/
def exit (p : Fin NPROC) (status : Int32) : KM Unit := do
  if (← get).initproc == some p then throw "init exiting"
  Sysfile.exit p
  reparent p
  wakeup p ((← get).proc p).parent
  modifyProc p fun q => { q with xstate := status, state := .ZOMBIE }

/-- The four bytes of an `int`, as `copyout` reads them from the kernel. -/
def intBytes (x : Int32) : List UInt8 :=
  (List.range 4).map fun i => UInt8.ofNat (x.toUInt32.toNat / 256 ^ i)

/-- One round of `wait(addr)` in process `p`: `some` of what it returns, or `none` when it goes
to sleep. -/
def wait (p : Fin NPROC) (addr : UInt64) : KM (Option Int) := do
  let k ← get
  match (List.finRange NPROC).find? fun pp =>
      (k.proc pp).parent == some p && (k.proc pp).state == .ZOMBIE with
  | some pp => do
    let pid := (k.proc pp).pid
    -- `addr != 0 && copyout(...) < 0`: the copy only runs for an address that is not null
    let r ← if addr != 0 then liftVm (Vm.copyout (k.proc p).pagetable addr (intBytes (k.proc pp).xstate) 4)
      else pure 0
    if r < 0 then pure (some (-1))
    else do
      freeproc pp
      pure (some pid.toInt)
  | none =>
    let havekids := (List.finRange NPROC).any fun pp => (k.proc pp).parent == some p
    if !havekids || (k.proc p).killed != 0 then pure (some (-1))
    else do
      -- sleep(p, &wait_lock)
      modifyProc p fun q => { q with chan := some p, state := .SLEEPING }
      pure none

/-- `kill(pid)`: the first slot whose `pid` matches is marked killed and woken. -/
def kill (pid : Int32) : KM Int := do
  let k ← get
  match (List.finRange NPROC).find? fun p => (k.proc p).pid == pid with
  | some p => do
    modifyProc p fun q =>
      { q with killed := 1, state := if q.state == .SLEEPING then .RUNNABLE else q.state }
    pure 0
  | none => pure (-1)

end Proc

end Xv6
