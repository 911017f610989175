import Xv6.Vm.Copy
import Xv6.Lib.Machine
import Xv6.Lib.Ring

/-!
# The console line discipline

Model of the input side of `kernel/console.c`: `consoleintr`, which edits and commits the
input line in `cons.buf`, and `consoleread`. The three `uint` indices `r`, `w` and `e` run
freely over the circular buffer of `INPUT_BUF_SIZE` bytes: the bytes from `r` to `w` are
committed and wait for `consoleread`, those from `w` to `e` are the line being edited. The echo
to the display (`consputc`) and `procdump` are not modelled.

`consoleread` holds `cons.lock` except while it sleeps on an empty buffer, and `consoleintr`
runs with the lock held: a run of the console is any interleaving of interrupts and of segments
of reads (`Seg`), a sleeping read resuming with the bytes it still has to read. The destination
of a read is `either_copyout`'s (`Dst` of `Xv6.Vm.Copy`).

In every reachable state `r ≤ w ≤ e ≤ r + INPUT_BUF_SIZE` as distances modulo `2^32`
(`reachable_ordered`). A read whose `either_copyout` fails has already taken its byte, which no
read then returns (`consoleread_drops_byte`).
-/

namespace Xv6

/-- The input part of `cons`, without its lock. -/
structure Cons where
  buf : Nat → UInt8
  r : UInt32
  w : UInt32
  e : UInt32

namespace Cons

/-- `INPUT_BUF_SIZE`. -/
def INPUT_BUF_SIZE : Nat := 128

/-- `C(x)`, control-`x`, for the letters `consoleintr` and `consoleread` test. -/
def ctrlD : UInt8 := 4
def ctrlH : UInt8 := 8
def ctrlP : UInt8 := 16
def ctrlU : UInt8 := 21

/-- The slot of the index `i`, `i % INPUT_BUF_SIZE`. -/
def slot (i : UInt32) : Nat := (i % UInt32.ofNat INPUT_BUF_SIZE).toNat

/-- The kill-line loop of `consoleintr`: erase back to the last newline, not past `w`. Each
round moves `e` one back towards `w`, so `e - w` rounds reach the end. -/
def killLine : Nat → Cons → Cons
  | 0, cons => cons
  | fuel + 1, cons =>
    if cons.e != cons.w && cons.buf (slot (cons.e - 1)) != 10 then
      killLine fuel { cons with e := cons.e - 1 }
    else cons

/-- `cons.buf[cons.e++ % INPUT_BUF_SIZE] = c`. -/
def store (cons : Cons) (c : UInt8) : Cons :=
  { cons with buf := Function.update cons.buf (slot cons.e) c, e := cons.e + 1 }

/-- `consoleintr(c)` for an input byte `c`. -/
def consoleintr (c : UInt8) (cons : Cons) : Cons :=
  if c == ctrlP then cons
  else if c == ctrlU then killLine (cons.e - cons.w).toNat cons
  else if c == ctrlH || c == 127 then
    if cons.e != cons.w then { cons with e := cons.e - 1 } else cons
  else if c != 0 && cons.e - cons.r < UInt32.ofNat INPUT_BUF_SIZE then
    let c := if c == 13 then 10 else c
    let cons := cons.store c
    if c == 10 || c == ctrlD || cons.e - cons.r == UInt32.ofNat INPUT_BUF_SIZE then
      { cons with w := cons.e }
    else cons
  else cons

/-- How a segment of `consoleread` ends: the call returns, or sleeps on an empty buffer with `n`
bytes still to read. -/
inductive ReadEnd where
  | ret (r : Int)
  | sleep (n : Int)
  deriving DecidableEq, Repr

/-- The loop of `consoleread` with `n` bytes still to read out of `target`. -/
def consolereadLoop (target : Int) (killed : Bool) : Nat → Cons → Dst → Int → Cons × Dst × ReadEnd
  | 0, cons, d, n => (cons, d, .ret (target - n))
  | fuel + 1, cons, d, n =>
    if n > 0 then
      if cons.r == cons.w then
        if killed then (cons, d, .ret (-1)) else (cons, d, .sleep n)
      else
        let c := cons.buf (slot cons.r)
        let cons' := { cons with r := cons.r + 1 }
        if c == ctrlD then
          -- save `^D` for the next read unless this one has read nothing
          ((if n < target then { cons' with r := cons'.r - 1 } else cons'), d, .ret (target - n))
        else
          let res := d.copyout (target - n).toNat [c]
          if res.1 == -1 then (cons', res.2, .ret (target - n))
          else if c == 10 then (cons', res.2, .ret (target - (n - 1)))
          else consolereadLoop target killed fuel cons' res.2 (n - 1)
    else (cons, d, .ret (target - n))

/-- A segment of `consoleread(user_dst, dst, target)` with `n` bytes still to read: `n = target`
at its start. Each round that goes on copies a byte, so `n + 1` rounds reach the end. -/
def consoleread (target : Int) (killed : Bool) (n : Int) (d : Dst) (cons : Cons) :
    Cons × Dst × ReadEnd :=
  consolereadLoop target killed (n.toNat + 1) cons d n

/-- An interrupt or a segment of a read. -/
inductive Seg : Cons → Cons → Prop
  | intr (c : UInt8) (cons : Cons) : Seg cons (consoleintr c cons)
  | read (target : Int) (killed : Bool) (n : Int) (d : Dst) (cons : Cons) :
      Seg cons (consoleread target killed n d cons).1

/-- The console from `consoleinit` under any interleaving of interrupts and reads. -/
def system : Machine.System Cons where
  init cons := cons.r = 0 ∧ cons.w = 0 ∧ cons.e = 0
  next := Seg

/-! ## The order of the indices -/

/-- `r ≤ w ≤ e ≤ r + INPUT_BUF_SIZE`, as distances modulo `2^32`. -/
def Ordered (cons : Cons) : Prop :=
  (cons.w - cons.r).toNat ≤ (cons.e - cons.r).toNat ∧ (cons.e - cons.r).toNat ≤ INPUT_BUF_SIZE

section Ordered

variable {cons : Cons}

lemma lt_of_ne_w (h : Ordered cons) (he : cons.e ≠ cons.w) :
    (cons.w - cons.r).toNat < (cons.e - cons.r).toNat :=
  lt_of_le_of_ne h.1 fun e => he (by
    have : cons.w - cons.r = cons.e - cons.r := UInt32.toNat_inj.mp e
    grind)

/-- Erasing the last byte of the line being edited. -/
lemma ordered_erase (h : Ordered cons) (he : cons.e ≠ cons.w) :
    Ordered { cons with e := cons.e - 1 } := by
  have hlt := lt_of_ne_w h he
  have hd : (cons.e - 1 - cons.r).toNat = (cons.e - cons.r).toNat - 1 := by
    rw [show cons.e - 1 - cons.r = cons.e - (cons.r + 1) + 0 by grind, add_zero,
      Ring.dist_pred (by omega)]
  unfold Ordered at h ⊢
  dsimp only
  rw [hd]
  omega

lemma ordered_killLine : ∀ (fuel : Nat) {cons : Cons}, Ordered cons → Ordered (killLine fuel cons)
  | 0, _, h => h
  | fuel + 1, cons, h => by
    unfold killLine
    split
    · rename_i hc
      have he : cons.e ≠ cons.w := by
        simp only [Bool.and_eq_true, bne_iff_ne] at hc
        exact hc.1
      exact ordered_killLine fuel (ordered_erase h he)
    · exact h

/-- Storing a byte at `e` when the buffer holds fewer than `INPUT_BUF_SIZE` bytes. -/
lemma ordered_store (h : Ordered cons) (hlt : (cons.e - cons.r).toNat < INPUT_BUF_SIZE) (c : UInt8) :
    Ordered (cons.store c) ∧ Ordered { cons.store c with w := (cons.store c).e } := by
  have hd : (cons.e + 1 - cons.r).toNat = (cons.e - cons.r).toNat + 1 :=
    Ring.dist_succ (lt_of_lt_of_le hlt (by norm_num [INPUT_BUF_SIZE]))
  unfold Ordered store at *
  dsimp only
  rw [hd]
  omega

lemma ordered_consoleintr (c : UInt8) (h : Ordered cons) : Ordered (consoleintr c cons) := by
  unfold consoleintr
  split
  · exact h
  split
  · exact ordered_killLine _ h
  split
  · split
    · rename_i he
      exact ordered_erase h (bne_iff_ne.mp he)
    · exact h
  split
  · rename_i hc
    have hlt : (cons.e - cons.r).toNat < INPUT_BUF_SIZE := by
      simp only [Bool.and_eq_true, bne_iff_ne, decide_eq_true_eq] at hc
      exact UInt32.lt_iff_toNat_lt.mp hc.2
    dsimp only
    -- the byte stored, `\r` read as `\n`, plays no part in the order
    generalize (if c == 13 then 10 else c) = c'
    split
    · exact (ordered_store h hlt c').2
    · exact (ordered_store h hlt c').1
  · exact h

/-- Taking the byte at `r` when one is committed, and giving it back. -/
lemma ordered_take (h : Ordered cons) (hr : cons.r ≠ cons.w) :
    Ordered { cons with r := cons.r + 1 } ∧ Ordered { cons with r := cons.r + 1 - 1 } := by
  have hpos : (cons.w - cons.r).toNat ≠ 0 := fun e => hr (Ring.dist_eq_zero_iff.mp e).symm
  refine ⟨?_, by rw [add_sub_cancel_right]; exact h⟩
  unfold Ordered at h ⊢
  dsimp only
  rw [Ring.dist_pred hpos, Ring.dist_pred (by omega)]
  omega

lemma ordered_consolereadLoop (target : Int) (killed : Bool) :
    ∀ (fuel : Nat) (cons : Cons) (d : Dst) (n : Int), Ordered cons →
      Ordered (consolereadLoop target killed fuel cons d n).1
  | 0, _, _, _, h => h
  | fuel + 1, cons, d, n, h => by
    unfold consolereadLoop
    split
    · split
      · split <;> exact h
      · rename_i hr
        obtain ⟨h₁, h₂⟩ := ordered_take h (fun e => hr (beq_iff_eq.mpr e))
        dsimp only
        split
        · split
          · exact h₂
          · exact h₁
        · split
          · exact h₁
          · split
            · exact h₁
            · exact ordered_consolereadLoop target killed fuel _ _ _ h₁
    · exact h

/-- In every state of the console under any interleaving of interrupts and reads,
`r ≤ w ≤ e ≤ r + INPUT_BUF_SIZE` as distances modulo `2^32`. -/
theorem reachable_ordered {cons : Cons} (h : Machine.Reachable system cons) : Ordered cons :=
  @Machine.Reachable.invariant Cons system Ordered
    (fun c ⟨hr, hw, he⟩ => by
      unfold Ordered
      rw [hr, hw, he, UInt32.sub_self]
      exact ⟨le_refl _, Nat.zero_le INPUT_BUF_SIZE⟩)
    (fun _ _ _ hc hs => by
      cases hs with
      | intr c => exact ordered_consoleintr c hc
      | read target killed n d => exact ordered_consolereadLoop target killed _ _ d n hc)
    cons h

end Ordered

/-! ## A byte taken and not returned -/

/-- The console after boot. -/
def boot : Cons := ⟨fun _ => 0, 0, 0, 0⟩

/-- A user buffer at `4095` whose first byte is mapped (page `0`, in the frame at `8192`) and whose
second is not (page `1`). -/
def edgeDst : Dst := .user ⟨fun pg => if pg = 0 then 8192 else 0, fun _ => 0⟩ 4095

/-- The byte a destination built from `edgeDst` holds at the virtual address `4095`. -/
def byteAt4095 : Dst → UInt8
  | .user um _ => um.mem (8192 + 4095)
  | .kernel _ => 0

/-- The line `ab` and a newline typed after boot, then two reads of three bytes into `edgeDst`:
what each read returns and the byte it leaves at `4095`. -/
def dropRun : ReadEnd × UInt8 × ReadEnd × UInt8 :=
  let typed := consoleintr 10 (consoleintr 98 (consoleintr 97 boot))
  let r₁ := consoleread 3 false 3 edgeDst typed
  let r₂ := consoleread 3 false 3 r₁.2.1 r₁.1
  (r₁.2.2, byteAt4095 r₁.2.1, r₂.2.2, byteAt4095 r₂.2.1)

/-- The committed line is `"ab\n"`. The first read returns `1` and delivers `a`: it took `b`
before `either_copyout` failed on the unmapped page. The second read returns `1` and delivers
the newline. No read returns `b`: the bytes returned, `"a\n"`, are not a prefix of the bytes
committed. -/
theorem consoleread_drops_byte :
    Ring.view INPUT_BUF_SIZE (consoleintr 10 (consoleintr 98 (consoleintr 97 boot))).buf 0 3 =
        [97, 98, 10] ∧
      (consoleintr 10 (consoleintr 98 (consoleintr 97 boot))).w = 3 ∧
      dropRun = (.ret 1, 97, .ret 1, 10) ∧ ¬ ([97, 10] : List UInt8) <+: [97, 98, 10] :=
  ⟨by decide +kernel, by decide +kernel, by decide +kernel, by decide +kernel⟩

/-- The console after the line `ab` and a newline are typed after boot and the first read of
`dropRun` has taken `a` and `b`: a reachable state, whose indices are in order. -/
theorem reachable_ordered_dropRun :
    Machine.Reachable system
        (consoleread 3 false 3 edgeDst (consoleintr 10 (consoleintr 98 (consoleintr 97 boot)))).1 ∧
      Ordered (consoleread 3 false 3 edgeDst (consoleintr 10 (consoleintr 98 (consoleintr 97 boot)))).1 := by
  have h : Machine.Reachable system
      (consoleread 3 false 3 edgeDst (consoleintr 10 (consoleintr 98 (consoleintr 97 boot)))).1 :=
    .step (.step (.step (.step (.init ⟨rfl, rfl, rfl⟩) (Seg.intr 97 _)) (Seg.intr 98 _)) (Seg.intr 10 _))
      (Seg.read 3 false 3 edgeDst _)
  exact ⟨h, reachable_ordered h⟩

end Cons

end Xv6
