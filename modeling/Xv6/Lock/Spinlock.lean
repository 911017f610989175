import Mathlib

/-!
# Interrupt nesting: `push_off` and `pop_off`

Model of `push_off` and `pop_off` of `kernel/spinlock.c`, and of the checks and the `intena` save
of `sched` in `kernel/proc.c`, over the fields `noff` (an `int`) and `intena` of the CPU and the
`SIE` bit of `sstatus` (`intr_get()`). `acquire` begins with `push_off` and `release` ends with
`pop_off`, so the lock operations of one CPU are a sequence of these calls (`Op`), together with
changes of the `SIE` bit made outside the pair (`setIntr`) and context switches (`sched`).

The abstract machine `Nest` says what the calls are for: a nesting depth, and the interrupt
state that the outermost `push_off` saves and the outermost `pop_off` gives back. `Abstracts`
relates a CPU to it; `exec_abstracts` is the step lemma and `runOps_abstracts` the run lemma:
along a sequence in which every prefix has at least as many pushes as pops, `setIntr` comes only
at depth 0 and `sched` only at depth 1 (`Nested`), and the depth stays below `2 ^ 31`
(`Bounded`), no call panics and the CPU refines the abstract machine. Within the abstract
machine the saved state is untouched while the depth stays positive (`Nest.run_saved`), which
is why the outermost pair restores the caller's interrupt state (`Nest.run_restores`).

The bound is needed: `noff` is 32 bits wide, so `2 ^ 31` nested `push_off`s wrap it to
`INT_MIN`, and the next `pop_off` panics (`push_off_wraps`).
-/

namespace Xv6.Spinlock

/-- What the calls read and write: `mycpu()->noff`, `mycpu()->intena`, and the `SIE` bit of
`sstatus` as `intr_get()` reads it. -/
structure Cpu where
  noff : Int32
  intena : Bool
  intr : Bool
deriving DecidableEq, Repr

/-- `push_off()`. -/
def push_off (c : Cpu) : Cpu :=
  let old := c.intr
  let c := { c with intr := false }
  let c := if c.noff == 0 then { c with intena := old } else c
  { c with noff := c.noff + 1 }

@[simp] theorem push_off_noff (c : Cpu) : (push_off c).noff = c.noff + 1 := by
  dsimp only [push_off]
  split <;> rfl

@[simp] theorem push_off_intr (c : Cpu) : (push_off c).intr = false := by
  dsimp only [push_off]
  split <;> rfl

theorem push_off_intena (c : Cpu) :
    (push_off c).intena = if c.noff = 0 then c.intr else c.intena := by
  dsimp only [push_off]
  split <;> simp_all

/-- `pop_off()`. -/
def pop_off (c : Cpu) : Except String Cpu :=
  if c.intr then .error "pop_off - interruptible"
  else if c.noff < 1 then .error "pop_off"
  else
    let c := { c with noff := c.noff - 1 }
    .ok (if c.noff == 0 && c.intena then { c with intr := true } else c)

/-- With interrupts off and `noff` positive, `pop_off` decrements `noff` and turns interrupts on
exactly when it reaches 0 with `intena` set. -/
theorem pop_off_eq {c : Cpu} (hi : c.intr = false) (hn : ¬c.noff < 1) :
    pop_off c = .ok ⟨c.noff - 1, c.intena, c.noff - 1 == 0 && c.intena⟩ := by
  simp only [pop_off, hi, hn]
  cases hc : c.intena <;> by_cases hz : c.noff - 1 = 0 <;> simp [hz]

/-- The CPU checks and the `intena` save of `sched()`; its checks of the process
(`holding(&p->lock)`, `p->state`) are not modelled. `swtch` hands the CPU to the scheduler, and
the thread goes on when a scheduler switches back to it, on a CPU in the state `resume`, where it
puts back its own `intena`. -/
def sched (c resume : Cpu) : Except String Cpu :=
  if c.noff != 1 then .error "sched locks"
  else if c.intr then .error "sched interruptible"
  else
    let intena := c.intena
    .ok { resume with intena := intena }

theorem sched_eq {c r : Cpu} (h1 : c.noff = 1) (hi : c.intr = false) :
    sched c r = .ok { r with intena := c.intena } := by
  simp [sched, h1, hi]

/-- One call on the CPU: `push_off`, `pop_off`, a change of the `SIE` bit made elsewhere
(`intr_on` or `intr_off` outside the pair, a trap), or `sched` switching away and back. -/
inductive Op where
  | push
  | pop
  | setIntr (b : Bool)
  | sched (resume : Cpu)
deriving DecidableEq, Repr

/-- One call. -/
def exec (c : Cpu) : Op → Except String Cpu
  | .push => .ok (push_off c)
  | .pop => pop_off c
  | .setIntr b => .ok { c with intr := b }
  | .sched r => sched c r

/-- A sequence of calls, stopping at the first panic. -/
def runOps (c : Cpu) (ops : List Op) : Except String Cpu := ops.foldlM exec c

/-- Pushes minus pops. -/
def depth (ops : List Op) : Int := ops.count .push - ops.count .pop

/-- The discipline of the calls: every prefix has at least as many pushes as pops, the `SIE` bit
is changed from outside only at depth 0, and `sched` is called holding one lock and resumed by a
scheduler that holds one, with interrupts off. -/
structure Nested (ops : List Op) : Prop where
  depth_nonneg : ∀ k ≤ ops.length, 0 ≤ depth (ops.take k)
  setIntr_at_zero : ∀ k b, ops[k]? = some (.setIntr b) → depth (ops.take k) = 0
  sched_at_one : ∀ k r, ops[k]? = some (.sched r) →
    depth (ops.take k) = 1 ∧ r.noff = 1 ∧ r.intr = false

/-- No prefix nests `2 ^ 31` deep. -/
def Bounded (ops : List Op) : Prop := ∀ k ≤ ops.length, depth (ops.take k) < 2 ^ 31

example : runOps ⟨0, false, true⟩ [.push, .push, .pop, .pop] = .ok ⟨0, true, true⟩ := by
  rfl

/-! ## Counting -/

/-- What a call adds to the depth. -/
def Op.delta : Op → Int
  | .push => 1
  | .pop => -1
  | _ => 0

theorem depth_append_singleton (ops : List Op) (op : Op) :
    depth (ops ++ [op]) = depth ops + op.delta := by
  cases op <;> simp [depth, Op.delta] <;> omega

theorem depth_replicate_push (m : Nat) : depth (List.replicate m .push) = m := by
  simp [depth, List.count_replicate]

/-- A condition on every prefix of a list holds on every prefix of a prefix of it. -/
theorem forall_take_of_append {α : Type} (P : List α → Prop) {l₁ l₂ : List α}
    (h : ∀ k ≤ (l₁ ++ l₂).length, P ((l₁ ++ l₂).take k)) : ∀ k ≤ l₁.length, P (l₁.take k) := by
  intro k hk
  have := h k (by simp; omega)
  rwa [List.take_append_of_le_length hk] at this

theorem Nested.of_append {l₁ l₂ : List Op} (h : Nested (l₁ ++ l₂)) : Nested l₁ where
  depth_nonneg := forall_take_of_append (fun l => 0 ≤ depth l) h.depth_nonneg
  setIntr_at_zero k b hk := by
    have hlt : k < l₁.length := (List.getElem?_eq_some_iff.mp hk).1
    have := h.setIntr_at_zero k b (by rwa [List.getElem?_append_left hlt])
    rwa [List.take_append_of_le_length hlt.le] at this
  sched_at_one k r hk := by
    have hlt : k < l₁.length := (List.getElem?_eq_some_iff.mp hk).1
    have := h.sched_at_one k r (by rwa [List.getElem?_append_left hlt])
    rwa [List.take_append_of_le_length hlt.le] at this

theorem Bounded.of_append {l₁ l₂ : List Op} (h : Bounded (l₁ ++ l₂)) : Bounded l₁ :=
  forall_take_of_append (fun l => depth l < 2 ^ 31) h

theorem Nested.of_prefix {l₁ l : List Op} (h : Nested l) (hp : l₁ <+: l) : Nested l₁ := by
  obtain ⟨l₂, rfl⟩ := hp
  exact h.of_append

theorem Bounded.of_prefix {l₁ l : List Op} (h : Bounded l) (hp : l₁ <+: l) : Bounded l₁ := by
  obtain ⟨l₂, rfl⟩ := hp
  exact h.of_append

/-! ## The abstract machine -/

/-- The nesting as the calls mean it: the depth, the interrupt state saved by the outermost push,
and the interrupt state. -/
structure Nest where
  depth : Nat
  saved : Bool
  intr : Bool

namespace Nest

/-- One call: the outermost push saves the interrupt state and every push turns interrupts off;
the outermost pop gives the saved state back. -/
def step (n : Nest) : Op → Nest
  | .push => { depth := n.depth + 1, saved := if n.depth = 0 then n.intr else n.saved, intr := false }
  | .pop => { n with depth := n.depth - 1, intr := if n.depth = 1 then n.saved else n.intr }
  | .setIntr b => { n with intr := b }
  | .sched _ => n

def run (n : Nest) (ops : List Op) : Nest := ops.foldl step n

/-- The CPU before any call: no nesting. -/
def init (c : Cpu) : Nest := ⟨0, c.intena, c.intr⟩

@[simp] theorem run_nil (n : Nest) : n.run [] = n := rfl

@[simp] theorem run_cons (n : Nest) (op : Op) (ops : List Op) :
    n.run (op :: ops) = (n.step op).run ops := rfl

theorem run_append (n : Nest) (l₁ l₂ : List Op) : n.run (l₁ ++ l₂) = (n.run l₁).run l₂ :=
  List.foldl_append

/-- From depth 0, the abstract depth is pushes minus pops, as long as no prefix pops more than it
pushes. -/
theorem run_depth (n : Nest) (h0 : n.depth = 0) (ops : List Op)
    (h : ∀ k ≤ ops.length, 0 ≤ Spinlock.depth (ops.take k)) :
    ((n.run ops).depth : Int) = Spinlock.depth ops := by
  induction ops using List.reverseRecOn with
  | nil => simp [h0, Spinlock.depth]
  | append_singleton ops op ih =>
    have ih := ih (forall_take_of_append (fun l => 0 ≤ Spinlock.depth l) h)
    have hlast := h (ops.length + 1) (by simp)
    rw [List.take_of_length_le (by simp), depth_append_singleton] at hlast
    rw [run_append, depth_append_singleton, ← ih]
    cases op with
    | pop =>
      simp only [Op.delta] at hlast
      simp only [run_cons, run_nil, step, Op.delta]
      omega
    | push => simp [step, Op.delta]
    | setIntr b => simp [step, Op.delta]
    | sched r => simp [step, Op.delta]

/-- While the depth is positive no call touches the saved state. -/
theorem step_saved {n : Nest} (h : 0 < n.depth) (op : Op) : (n.step op).saved = n.saved := by
  cases op with
  | push => simp [step, Nat.pos_iff_ne_zero.mp h]
  | pop => rfl
  | setIntr b => rfl
  | sched r => rfl

theorem run_saved : ∀ (ops : List Op) (n : Nest), (∀ k < ops.length, 0 < (n.run (ops.take k)).depth) →
    (n.run ops).saved = n.saved
  | [], _, _ => rfl
  | op :: ops, n, h => by
    have hn : 0 < n.depth := h 0 (by simp)
    have ih := run_saved ops (n.step op) fun k hk => by simpa using h (k + 1) (by simpa using hk)
    rw [run_cons, ih, step_saved hn]

/-- The outermost pair gives back the interrupt state from before its push: a push from depth 0,
calls that keep the depth positive and end at depth 1, and the pop that brings it to 0. -/
theorem run_restores {n : Nest} (h0 : n.depth = 0) (mid : List Op)
    (hmid : ∀ k < mid.length, 0 < ((n.step .push).run (mid.take k)).depth)
    (h1 : ((n.step .push).run mid).depth = 1) : (n.run (Op.push :: mid ++ [Op.pop])).intr = n.intr := by
  have hsaved : ((n.step .push).run mid).saved = n.intr := by
    rw [run_saved mid (n.step .push) hmid]
    simp [step, h0]
  simp only [run_append, run_cons, run_nil]
  generalize (n.step .push).run mid = m at h1 hsaved
  simp [step, h1, hsaved]

end Nest

/-! ## Refinement -/

/-- What `Nested` and `Bounded` ask of one call at depth `d`. -/
def Allowed (d : Nat) : Op → Prop
  | .push => d + 1 < 2 ^ 31
  | .pop => 0 < d
  | .setIntr _ => d = 0
  | .sched r => d = 1 ∧ r.noff = 1 ∧ r.intr = false

/-- The CPU state `c` is the abstract state `n`: `noff` is the depth, the `SIE` bit is the
interrupt state, and inside a pair interrupts are off and `intena` holds the saved state. -/
structure Abstracts (c : Cpu) (n : Nest) : Prop where
  noff : c.noff.toInt = n.depth
  intr : c.intr = n.intr
  nested : 0 < n.depth → c.intena = n.saved ∧ n.intr = false

theorem Abstracts.noff_eq_zero {c : Cpu} {n : Nest} (h : Abstracts c n) :
    c.noff = 0 ↔ n.depth = 0 := by
  rw [← Int32.toInt_inj, h.noff, Int32.toInt_zero]
  omega

theorem Abstracts.noff_lt_one {c : Cpu} {n : Nest} (h : Abstracts c n) :
    c.noff < 1 ↔ n.depth = 0 := by
  rw [Int32.lt_iff_toInt_lt, h.noff, Int32.toInt_one]
  omega

theorem Abstracts.noff_add_one {c : Cpu} {n : Nest} (h : Abstracts c n) (hb : n.depth + 1 < 2 ^ 31) :
    (c.noff + 1).toInt = (n.depth : Int) + 1 := by
  rw [Int32.toInt_add, h.noff, Int32.toInt_one]
  exact Int.bmod_eq_of_le_mul_two (by omega) (by omega)

theorem Abstracts.noff_sub_one {c : Cpu} {n : Nest} (h : Abstracts c n) (hd : 0 < n.depth) :
    (c.noff - 1).toInt = (n.depth : Int) - 1 := by
  have := c.noff.toInt_lt
  rw [Int32.toInt_sub, h.noff, Int32.toInt_one]
  rw [h.noff] at this
  exact Int.bmod_eq_of_le_mul_two (by omega) (by omega)

theorem push_off_abstracts {c : Cpu} {n : Nest} (h : Abstracts c n) (hb : n.depth + 1 < 2 ^ 31) :
    Abstracts (push_off c) (n.step .push) where
  noff := by
    rw [push_off_noff, h.noff_add_one hb]
    rfl
  intr := push_off_intr c
  nested _ := by
    refine ⟨?_, rfl⟩
    -- the outermost push records the interrupt state; an inner one keeps the record
    rw [push_off_intena]
    by_cases h0 : n.depth = 0
    · simp [Nest.step, h0, h.noff_eq_zero.mpr h0, h.intr]
    · have hne : c.noff ≠ 0 := fun e => h0 (h.noff_eq_zero.mp e)
      simp [Nest.step, h0, hne, (h.nested (Nat.pos_of_ne_zero h0)).1]

theorem pop_off_abstracts {c : Cpu} {n : Nest} (h : Abstracts c n) (hd : 0 < n.depth) :
    ∃ c', pop_off c = .ok c' ∧ Abstracts c' (n.step .pop) := by
  obtain ⟨hintena, hintr⟩ := h.nested hd
  have hoff : ¬c.noff < 1 := fun e => by have := h.noff_lt_one.mp e; omega
  have hsub := h.noff_sub_one hd
  have hz : c.noff - 1 = 0 ↔ n.depth = 1 := by
    rw [← Int32.toInt_inj, hsub, Int32.toInt_zero]
    omega
  refine ⟨_, pop_off_eq (h.intr.trans hintr) hoff, ?_⟩
  constructor
  · show (c.noff - 1).toInt = ((n.depth - 1 : Nat) : Int)
    rw [hsub]
    omega
  · -- the pop to depth 0 turns interrupts on iff `intena` is set; an inner pop leaves them off
    show (c.noff - 1 == 0 && c.intena) = if n.depth = 1 then n.saved else n.intr
    by_cases h1 : n.depth = 1
    · simp [h1, hz.mpr h1, hintena]
    · simp [h1, mt hz.mp h1, hintr]
  · intro hpos
    have h1 : n.depth ≠ 1 := by
      change 0 < n.depth - 1 at hpos
      omega
    exact ⟨hintena, by simp [Nest.step, h1, hintr]⟩

theorem sched_abstracts {c r : Cpu} {n : Nest} (h : Abstracts c n) (hd : n.depth = 1)
    (hr : r.noff = 1 ∧ r.intr = false) : ∃ c', sched c r = .ok c' ∧ Abstracts c' (n.step (.sched r)) := by
  obtain ⟨hintena, hintr⟩ := h.nested (by omega)
  have hone : c.noff = 1 := by
    rw [← Int32.toInt_inj, h.noff, hd, Int32.toInt_one]
    rfl
  refine ⟨_, sched_eq hone (h.intr.trans hintr), ?_⟩
  constructor
  · simp [Nest.step, hr.1, hd, Int32.toInt_one]
  · simp [Nest.step, hr.2, hintr]
  · intro _
    exact ⟨hintena, hintr⟩

theorem runOps_append_singleton (c : Cpu) (ops : List Op) (op : Op) :
    runOps c (ops ++ [op]) = runOps c ops >>= fun c' => exec c' op := by
  simp [runOps, List.foldlM_append]

/-- The step lemma: an allowed call does not panic and keeps `Abstracts`. -/
theorem exec_abstracts {c : Cpu} {n : Nest} (h : Abstracts c n) :
    ∀ op, Allowed n.depth op → ∃ c', exec c op = .ok c' ∧ Abstracts c' (n.step op)
  | .push, hb => ⟨_, rfl, push_off_abstracts h hb⟩
  | .pop, hd => pop_off_abstracts h hd
  | .setIntr _, (hd : n.depth = 0) =>
    ⟨_, rfl, ⟨h.noff, rfl, fun hpos => absurd hd (Nat.pos_iff_ne_zero.mp hpos)⟩⟩
  | .sched _, ⟨hd, hr⟩ => sched_abstracts h hd hr

/-- The last call of a disciplined sequence is allowed at the depth before it. -/
theorem allowed_last {ops : List Op} {op : Op} (hn : Nested (ops ++ [op])) (hb : Bounded (ops ++ [op]))
    {d : Nat} (hd : (d : Int) = depth ops) : Allowed d op := by
  have hall : (ops ++ [op]).take (ops.length + 1) = ops ++ [op] := List.take_of_length_le (by simp)
  have hnow : (ops ++ [op])[ops.length]? = some op := by simp
  have hpre : (ops ++ [op]).take ops.length = ops := by simp
  cases op with
  | push =>
    have := hb (ops.length + 1) (by simp)
    rw [hall, depth_append_singleton] at this
    simp only [Allowed, Op.delta] at this ⊢
    omega
  | pop =>
    have := hn.depth_nonneg (ops.length + 1) (by simp)
    rw [hall, depth_append_singleton] at this
    simp only [Allowed, Op.delta] at this ⊢
    omega
  | setIntr b =>
    have := hn.setIntr_at_zero _ _ hnow
    rw [hpre] at this
    simp only [Allowed]
    omega
  | sched r =>
    obtain ⟨h1, hr⟩ := hn.sched_at_one _ _ hnow
    rw [hpre] at h1
    exact ⟨by omega, hr⟩

theorem init_abstracts {c : Cpu} (h0 : c.noff = 0) : Abstracts c (Nest.init c) where
  noff := by simp [Nest.init, h0]
  intr := rfl
  nested h := absurd h (by simp [Nest.init])

/-- The run lemma: from a CPU outside every pair, a disciplined sequence of calls does not panic
and ends in a state that the abstract run abstracts. -/
theorem runOps_abstracts {c₀ : Cpu} (h0 : c₀.noff = 0) (ops : List Op) (hn : Nested ops)
    (hb : Bounded ops) : ∃ c, runOps c₀ ops = .ok c ∧ Abstracts c ((Nest.init c₀).run ops) := by
  induction ops using List.reverseRecOn with
  | nil => exact ⟨c₀, rfl, init_abstracts h0⟩
  | append_singleton ops op ih =>
    obtain ⟨c, hrun, hc⟩ := ih hn.of_append hb.of_append
    have hd := Nest.run_depth (Nest.init c₀) rfl ops hn.of_append.depth_nonneg
    obtain ⟨c', hstep, hc'⟩ := exec_abstracts hc op (allowed_last hn hb hd)
    refine ⟨c', ?_, ?_⟩
    · rw [runOps_append_singleton, hrun]
      exact hstep
    · rw [Nest.run_append]
      exact hc'

/-- Disciplined nesting of `push_off`/`pop_off` below depth `2 ^ 31`, from a CPU outside every
pair. No call panics, `noff` is pushes minus pops with interrupts off inside a pair, and the
pop that closes an outermost pair leaves the interrupt state as it was before its push. -/
theorem interrupt_nesting (c₀ : Cpu) (h0 : c₀.noff = 0) (ops : List Op) (hn : Nested ops)
    (hb : Bounded ops) :
    (∃ c, runOps c₀ ops = .ok c ∧ c.noff.toInt = depth ops ∧ (0 < depth ops → c.intr = false)) ∧
    ∀ pre mid post : List Op, ops = pre ++ Op.push :: mid ++ Op.pop :: post → depth pre = 0 →
      (∀ k ≤ mid.length, 0 < depth (pre ++ Op.push :: mid.take k)) →
      depth (pre ++ Op.push :: mid) = 1 →
      ∃ c₁ c₂, runOps c₀ pre = .ok c₁ ∧ runOps c₀ (pre ++ Op.push :: mid ++ [Op.pop]) = .ok c₂ ∧
        c₂.intr = c₁.intr := by
  constructor
  · obtain ⟨c, hrun, hc⟩ := runOps_abstracts h0 ops hn hb
    have hd := Nest.run_depth (Nest.init c₀) rfl ops hn.depth_nonneg
    refine ⟨c, hrun, hc.noff.trans hd, fun hpos => ?_⟩
    rw [hc.intr]
    exact (hc.nested (by omega)).2
  · rintro pre mid post rfl hpre hmid h1
    -- the pair is a prefix of the sequence, and so is every point inside it
    have hpair : pre ++ Op.push :: mid ++ [Op.pop] <+: pre ++ Op.push :: mid ++ Op.pop :: post := by simp
    have hat : ∀ k, pre ++ Op.push :: mid.take k <+: pre ++ Op.push :: mid ++ Op.pop :: post := fun k =>
      ((List.prefix_append_right_inj pre).mpr (List.cons_prefix_cons.mpr ⟨rfl, List.take_prefix k mid⟩)).trans
        (List.prefix_append _ _)
    have hpre' : pre <+: pre ++ Op.push :: mid ++ Op.pop :: post := by
      simp
    obtain ⟨c₁, hrun₁, hc₁⟩ := runOps_abstracts h0 pre (hn.of_prefix hpre') (hb.of_prefix hpre')
    obtain ⟨c₂, hrun₂, hc₂⟩ := runOps_abstracts h0 _ (hn.of_prefix hpair) (hb.of_prefix hpair)
    refine ⟨c₁, c₂, hrun₁, hrun₂, ?_⟩
    have hn0 : ((Nest.init c₀).run pre).depth = 0 := by
      have := Nest.run_depth (Nest.init c₀) rfl pre (hn.of_prefix hpre').depth_nonneg
      omega
    set n := (Nest.init c₀).run pre
    -- the abstract depth at a point of the pair is the depth of the calls up to it
    have hdepth : ∀ k, (((n.step .push).run (mid.take k)).depth : Int) =
        depth (pre ++ Op.push :: mid.take k) := by
      intro k
      rw [← Nest.run_depth (Nest.init c₀) rfl _ (hn.of_prefix (hat k)).depth_nonneg, Nest.run_append,
        Nest.run_cons]
    have hrest := Nest.run_restores hn0 mid
      (fun k hk => by have := hdepth k; have := hmid k hk.le; omega)
      (by have := hdepth mid.length; rw [List.take_length] at this; omega)
    rw [hc₂.intr, hc₁.intr, List.append_assoc, Nest.run_append]
    exact hrest

theorem interrupt_nesting_two_locks :
    Nested [.push, .push, .pop, .pop] ∧ Bounded [.push, .push, .pop, .pop] ∧
    ∃ c, runOps ⟨0, false, true⟩ [.push, .push, .pop, .pop] = .ok c ∧
      c.noff.toInt = depth [.push, .push, .pop, .pop] ∧
      (0 < depth [.push, .push, .pop, .pop] → c.intr = false) := by
  have hn : Nested [.push, .push, .pop, .pop] :=
    ⟨by decide, fun k b hk => by simpa using List.mem_of_getElem? hk,
      fun k r hk => by simpa using List.mem_of_getElem? hk⟩
  have hb : Bounded [.push, .push, .pop, .pop] := by
    unfold Bounded
    decide
  exact ⟨hn, hb, (interrupt_nesting ⟨0, false, true⟩ rfl _ hn hb).1⟩

/-! ## Overflow of `noff` -/

theorem nested_replicate_push (m : Nat) : Nested (List.replicate m .push) where
  depth_nonneg k _ := by simp [List.take_replicate, depth_replicate_push]
  setIntr_at_zero k b hk := by simpa [List.mem_replicate] using List.mem_of_getElem? hk
  sched_at_one k r hk := by simpa [List.mem_replicate] using List.mem_of_getElem? hk

theorem bounded_replicate_push {m : Nat} (hm : m < 2 ^ 31) : Bounded (List.replicate m .push) := by
  intro k _
  rw [List.take_replicate, depth_replicate_push]
  omega

/-- A pop after `m > 0` pushes keeps the discipline. -/
theorem nested_replicate_push_pop {m : Nat} (hm : 0 < m) :
    Nested (List.replicate m Op.push ++ [Op.pop]) where
  depth_nonneg k hk := by
    by_cases hkm : k ≤ m
    · rw [List.take_append_of_le_length (by simpa using hkm), List.take_replicate,
        depth_replicate_push]
      omega
    · rw [List.take_of_length_le (by simp at hk ⊢; omega), depth_append_singleton,
        depth_replicate_push]
      simp only [Op.delta]
      omega
  setIntr_at_zero k b hk := by simpa [List.mem_replicate] using List.mem_of_getElem? hk
  sched_at_one k r hk := by simpa [List.mem_replicate] using List.mem_of_getElem? hk

/-- `2 ^ 31` nested pushes from outside every pair wrap `noff` to `INT_MIN`. -/
theorem runOps_push_wrap (c₀ : Cpu) (h0 : c₀.noff = 0) :
    ∃ c, runOps c₀ (List.replicate (2 ^ 31) Op.push) = .ok c ∧ c.noff = Int32.minValue ∧
      c.intr = false := by
  -- the first `2 ^ 31 - 1` pushes stay within the bound, and the run lemma counts them
  obtain ⟨c, hrun, hc⟩ := runOps_abstracts h0 (List.replicate (2 ^ 31 - 1) .push)
    (nested_replicate_push _) (bounded_replicate_push (by norm_num))
  have hd := Nest.run_depth (Nest.init c₀) rfl _ (nested_replicate_push (2 ^ 31 - 1)).depth_nonneg
  rw [depth_replicate_push] at hd
  have hmax : c.noff = Int32.maxValue := by
    rw [← Int32.toInt_inj, hc.noff, hd, Int32.toInt_maxValue]
    norm_num
  refine ⟨push_off c, ?_, ?_, push_off_intr c⟩
  · rw [show 2 ^ 31 = (2 ^ 31 - 1) + 1 from rfl, List.replicate_succ', runOps_append_singleton, hrun]
    rfl
  · rw [push_off_noff, hmax]
    decide

theorem push_off_wraps :
    Nested (List.replicate (2 ^ 31) Op.push ++ [Op.pop]) ∧
    (∃ c, runOps ⟨0, false, true⟩ (List.replicate (2 ^ 31) Op.push) = .ok c ∧
      c.noff.toInt ≠ depth (List.replicate (2 ^ 31) Op.push)) ∧
    runOps ⟨0, false, true⟩ (List.replicate (2 ^ 31) Op.push ++ [Op.pop]) = .error "pop_off" := by
  obtain ⟨c, hrun, hmin, hintr⟩ := runOps_push_wrap ⟨0, false, true⟩ rfl
  refine ⟨nested_replicate_push_pop (by norm_num), ⟨c, hrun, ?_⟩, ?_⟩
  · rw [hmin, depth_replicate_push, Int32.toInt_minValue]
    norm_num
  · rw [runOps_append_singleton, hrun]
    show pop_off c = _
    simp [pop_off, hintr, hmin]
    decide

end Xv6.Spinlock
