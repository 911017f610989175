import Xv6.Vm.Copy
import Xv6.Lib.Machine
import Xv6.Lib.Ring

/-!
# Pipes

Model of `pipewrite` and `piperead` of `kernel/pipe.c` on one pipe, and of the flags
`pipeclose` clears. `struct pipe` is its buffer, the `uint` counters `nread` and `nwrite` and the
two open flags; the lock is the atomicity of a segment. The user buffers are seen through
`copyin` and `copyout` of `Xv6.Vm.Copy`, one byte at a time as the C code copies them.

A call holds `pi->lock` from its start to a `sleep` or to its return, and `sleep` gives it up:
a segment of a call runs alone, and a run of the pipe is any interleaving of segments
(`Seg`). A writer asleep on a full pipe resumes its loop with the bytes it has written so far;
a reader asleep on an empty pipe starts its wait again. Which process is `killed` is read once per
segment. The wakeups are not modelled: any segment may run next.

The bytes between `nread` and `nwrite` are the pipe's queue (`queue`): a write round appends
its byte and a read round takes the first (`queue_push`, `queue_pop`), and in every reachable
state the counters are at most `PIPESIZE` apart modulo `2^32` (`reachable_bounded`). A read whose
`copyout` fails has already taken its byte from the queue, which no reader then gets
(`piperead_drops_byte`).
-/

namespace Xv6

/-- `struct pipe` without its lock. -/
structure Pipe where
  data : Nat → UInt8
  nread : UInt32
  nwrite : UInt32
  readopen : Bool
  writeopen : Bool

namespace Pipe

/-- `PIPESIZE`. -/
def PIPESIZE : Nat := 512

/-- The pipe `pipealloc` sets up in a fresh page `data`: both ends open, nothing written. -/
def init (data : Nat → UInt8) : Pipe := ⟨data, 0, 0, true, true⟩

/-- `pi->nwrite == pi->nread + PIPESIZE`. -/
def full (pi : Pipe) : Bool := pi.nwrite == pi.nread + UInt32.ofNat PIPESIZE

/-- `pi->data[pi->nwrite++ % PIPESIZE] = ch`. -/
def push (pi : Pipe) (ch : UInt8) : Pipe :=
  { pi with
    data := Function.update pi.data (pi.nwrite % UInt32.ofNat PIPESIZE).toNat ch
    nwrite := pi.nwrite + 1 }

/-- `pi->data[pi->nread % PIPESIZE]`. -/
def front (pi : Pipe) : UInt8 := pi.data (pi.nread % UInt32.ofNat PIPESIZE).toNat

/-- `pi->nread++`. -/
def pop (pi : Pipe) : Pipe := { pi with nread := pi.nread + 1 }

/-- How a segment of `pipewrite` ends: the call returns, or sleeps on a full pipe after `i`
bytes. -/
inductive WriteEnd where
  | ret (r : Int)
  | sleep (i : Nat)
  deriving DecidableEq, Repr

/-- The loop of `pipewrite(pi, addr, n)` from byte `i`, in the process with user memory `um`. -/
def pipewriteLoop (um : UserMem) (addr : Nat) (n : Int) (killed : Bool) :
    Nat → Nat → Pipe → Pipe × WriteEnd
  | 0, i, pi => (pi, .ret i)
  | fuel + 1, i, pi =>
    if (i : Int) < n then
      if !pi.readopen || killed then (pi, .ret (-1))
      else if pi.full then (pi, .sleep i)
      else
        let r := copyin um (addr + i) 1
        if r.1 == -1 then (pi, .ret i)
        else pipewriteLoop um addr n killed fuel (i + 1) (pi.push (r.2.headD 0))
    else (pi, .ret i)

/-- A segment of `pipewrite(pi, addr, n)`: from its start when `i = 0`, or after a sleep with
`i` bytes written. Each round that goes on writes a byte of the `n`, so `n + 1` rounds reach
the end. -/
def pipewrite (um : UserMem) (addr : Nat) (n : Int) (killed : Bool) (i : Nat) (pi : Pipe) :
    Pipe × WriteEnd :=
  pipewriteLoop um addr n killed (n.toNat + 1) i pi

/-- The copy loop of `piperead` from byte `i`: the pipe, the reader's memory and `i` at the
end. -/
def pipereadLoop (addr : Nat) (n : Int) : Nat → Nat → Pipe → UserMem → Pipe × UserMem × Nat
  | 0, i, pi, um => (pi, um, i)
  | fuel + 1, i, pi, um =>
    if (i : Int) < n then
      if pi.nread == pi.nwrite then (pi, um, i)
      else
        let r := copyout um (addr + i) [pi.front]
        if r.1 == -1 then (pi.pop, r.2, i)
        else pipereadLoop addr n fuel (i + 1) pi.pop r.2
    else (pi, um, i)

/-- A segment of `piperead(pi, addr, n)`: `none` when it sleeps on an empty pipe whose write end
is open, otherwise what it returns. -/
def piperead (um : UserMem) (addr : Nat) (n : Int) (killed : Bool) (pi : Pipe) :
    Pipe × UserMem × Option Int :=
  if pi.nread == pi.nwrite && pi.writeopen then
    if killed then (pi, um, some (-1)) else (pi, um, none)
  else
    let r := pipereadLoop addr n (n.toNat + 1) 0 pi um
    (r.1, r.2.1, some r.2.2)

/-- The flag `pipeclose(pi, writable)` clears. -/
def pipeclose (writable : Bool) (pi : Pipe) : Pipe :=
  if writable then { pi with writeopen := false } else { pi with readopen := false }

/-- A segment of a call on the pipe. -/
inductive Seg : Pipe → Pipe → Prop
  | write (um : UserMem) (addr : Nat) (n : Int) (killed : Bool) (i : Nat) (pi : Pipe) :
      Seg pi (pipewrite um addr n killed i pi).1
  | read (um : UserMem) (addr : Nat) (n : Int) (killed : Bool) (pi : Pipe) :
      Seg pi (piperead um addr n killed pi).1
  | close (writable : Bool) (pi : Pipe) : Seg pi (pipeclose writable pi)

/-- A pipe from `pipealloc` under any interleaving of segments. -/
def system : Machine.System Pipe where
  init pi := ∃ data, pi = Pipe.init data
  next := Seg

/-! ## The queue -/

/-- The bytes written and not yet read, from `nread` on. -/
def queue (pi : Pipe) : List UInt8 := Ring.view PIPESIZE pi.data pi.nread (pi.nwrite - pi.nread).toNat

/-- The counters are at most `PIPESIZE` apart, modulo `2^32`. -/
def Bounded (pi : Pipe) : Prop := (pi.nwrite - pi.nread).toNat ≤ PIPESIZE

section Queue

variable {pi : Pipe}

lemma PIPESIZE_dvd : PIPESIZE ∣ 2 ^ 32 := ⟨2 ^ 23, by norm_num [PIPESIZE]⟩

lemma full_iff : pi.full = true ↔ (pi.nwrite - pi.nread).toNat = PIPESIZE := by
  rw [full, beq_iff_eq]
  constructor
  · intro e
    rw [e, show pi.nread + UInt32.ofNat PIPESIZE - pi.nread = UInt32.ofNat PIPESIZE by grind]
    rfl
  · intro e
    have : pi.nwrite - pi.nread = UInt32.ofNat PIPESIZE := UInt32.toNat_inj.mp e
    grind

/-- A write round on a pipe that is not full appends its byte to the queue. -/
lemma queue_push (h : Bounded pi) (hf : pi.full = false) (ch : UInt8) :
    Bounded (pi.push ch) ∧ queue (pi.push ch) = queue pi ++ [ch] := by
  have hlt : (pi.nwrite - pi.nread).toNat < PIPESIZE :=
    lt_of_le_of_ne h fun e => by rw [← full_iff] at e; rw [e] at hf; cases hf
  have hlen : (pi.nwrite + 1 - pi.nread).toNat = (pi.nwrite - pi.nread).toNat + 1 :=
    Ring.dist_succ (lt_of_lt_of_le hlt (by norm_num [PIPESIZE]))
  -- the slot of `nwrite` is the one after the queue
  have hw : pi.nread + UInt32.ofNat (pi.nwrite - pi.nread).toNat = pi.nwrite := by
    rw [UInt32.ofNat_toNat]
    grind
  have hview := Ring.view_push PIPESIZE_dvd pi.data pi.nread hlt ch
  rw [hw] at hview
  refine ⟨by unfold Bounded; rw [push, hlen]; exact hlt, ?_⟩
  unfold queue
  rw [push, hlen]
  exact hview

/-- A read round on a pipe that is not empty takes the first byte of the queue. -/
lemma queue_pop (h : Bounded pi) (he : (pi.nread == pi.nwrite) = false) :
    Bounded pi.pop ∧ queue pi = pi.front :: queue pi.pop := by
  have hpos : (pi.nwrite - pi.nread).toNat ≠ 0 := fun e => by
    rw [Ring.dist_eq_zero_iff] at e
    rw [e, beq_self_eq_true] at he
    cases he
  have hlen : (pi.nwrite - (pi.nread + 1)).toNat = (pi.nwrite - pi.nread).toNat - 1 :=
    Ring.dist_pred hpos
  refine ⟨by unfold Bounded; rw [pop, hlen]; unfold Bounded at h; omega, ?_⟩
  unfold queue
  rw [pop, hlen]
  obtain ⟨d, hd⟩ := Nat.exists_eq_succ_of_ne_zero hpos
  rw [hd, Nat.succ_sub_one]
  exact Ring.view_pop PIPESIZE_dvd pi.data pi.nread d

end Queue

/-! ## Every interleaving keeps the counters apart by at most `PIPESIZE` -/

lemma pipewriteLoop_bounded (um : UserMem) (addr : Nat) (n : Int) (killed : Bool) :
    ∀ (fuel i : Nat) (pi : Pipe), Bounded pi → Bounded (pipewriteLoop um addr n killed fuel i pi).1
  | 0, _, _, h => h
  | fuel + 1, i, pi, h => by
    unfold pipewriteLoop
    split
    · split
      · exact h
      · split
        · exact h
        · rename_i hf
          dsimp only
          split
          · exact h
          · exact pipewriteLoop_bounded um addr n killed fuel (i + 1) _
              (queue_push h (Bool.eq_false_iff.mpr hf) _).1
    · exact h

lemma pipereadLoop_bounded (addr : Nat) (n : Int) :
    ∀ (fuel i : Nat) (pi : Pipe) (um : UserMem), Bounded pi →
      Bounded (pipereadLoop addr n fuel i pi um).1
  | 0, _, _, _, h => h
  | fuel + 1, i, pi, um, h => by
    unfold pipereadLoop
    split
    · split
      · exact h
      · rename_i he
        have hpop := (queue_pop h (Bool.eq_false_iff.mpr he)).1
        dsimp only
        split
        · exact hpop
        · exact pipereadLoop_bounded addr n fuel (i + 1) _ _ hpop
    · exact h

/-- One segment keeps the counters at most `PIPESIZE` apart. -/
lemma Seg.bounded {pi pi' : Pipe} (hs : Seg pi pi') (h : Bounded pi) : Bounded pi' := by
  cases hs with
  | write um addr n killed i => exact pipewriteLoop_bounded um addr n killed _ i pi h
  | read um addr n killed =>
    unfold piperead
    split
    · split <;> exact h
    · exact pipereadLoop_bounded addr n _ 0 pi um h
  | close writable =>
    unfold pipeclose
    split <;> exact h

/-- In every state of a pipe under any interleaving of calls, `nwrite - nread` modulo `2^32`
lies in `[0, PIPESIZE]`. -/
theorem reachable_bounded {pi : Pipe} (h : Machine.Reachable system pi) : Bounded pi :=
  @Machine.Reachable.invariant Pipe system Bounded
    (fun _ ⟨data, e⟩ => by
      rw [e]
      unfold Bounded init
      rw [UInt32.sub_self]
      exact Nat.zero_le PIPESIZE)
    (fun _ _ _ hb hs => Seg.bounded hs hb) pi h

/-! ## A byte taken and not delivered -/

/-- A writer whose buffer at virtual address `0` holds `"abc"`, in the frame at `4096`. -/
def abcWriter : UserMem :=
  ⟨fun pg => if pg = 0 then 4096 else 0,
    fun a => if a = 4096 then 97 else if a = 4097 then 98 else if a = 4098 then 99 else 0⟩

/-- A reader whose page `0` is mapped to the frame at `8192` and whose page `1` is not: its buffer
at `4095` has one mapped byte. -/
def edgeReader : UserMem := ⟨fun pg => if pg = 0 then 8192 else 0, fun _ => 0⟩

/-- From a new pipe: `pipewrite` of `"ab"`, `piperead` of two bytes into `edgeReader` at `4095`,
`pipewrite` of `"c"` and `piperead` of one byte at `4095`. What each call returns, and the byte
each read leaves at `4095`. -/
def dropRun : WriteEnd × Option Int × UInt8 × WriteEnd × Option Int × UInt8 :=
  let w₁ := pipewrite abcWriter 0 2 false 0 (Pipe.init fun _ => 0)
  let r₁ := piperead edgeReader 4095 2 false w₁.1
  let w₂ := pipewrite abcWriter 2 1 false 0 r₁.1
  let r₂ := piperead r₁.2.1 4095 1 false w₂.1
  (w₁.2, r₁.2.2, r₁.2.1.mem (8192 + 4095), w₂.2, r₂.2.2, r₂.2.1.mem (8192 + 4095))

/-- The writers store `"abc"` and both writes return their full count. The first read returns
`1` and delivers `a`: its second byte `b` was taken from the pipe before `copyout` failed. The
second read returns `1` and delivers `c`. The bytes delivered, `"ac"`, are not a prefix of the
bytes stored. -/
theorem piperead_drops_byte :
    dropRun = (.ret 2, some 1, 97, .ret 1, some 1, 99) ∧
      [abcWriter.mem 4096, abcWriter.mem 4097, abcWriter.mem 4098] = [97, 98, 99] ∧
      ¬ ([97, 99] : List UInt8) <+: [97, 98, 99] :=
  ⟨by decide +kernel, by decide +kernel, by decide +kernel⟩

/-- The pipe after the first write and the first read of `dropRun`: a reachable state, whose
counters are at most `PIPESIZE` apart. -/
theorem reachable_bounded_dropRun :
    Machine.Reachable system
        (piperead edgeReader 4095 2 false (pipewrite abcWriter 0 2 false 0 (Pipe.init fun _ => 0)).1).1 ∧
      Bounded (piperead edgeReader 4095 2 false (pipewrite abcWriter 0 2 false 0 (Pipe.init fun _ => 0)).1).1 := by
  have h : Machine.Reachable system
      (piperead edgeReader 4095 2 false (pipewrite abcWriter 0 2 false 0 (Pipe.init fun _ => 0)).1).1 :=
    .step (.step (.init ⟨_, rfl⟩) (Seg.write abcWriter 0 2 false 0 _)) (Seg.read edgeReader 4095 2 false _)
  exact ⟨h, reachable_bounded h⟩

end Pipe

end Xv6
