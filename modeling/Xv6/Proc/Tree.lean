import Xv6.Proc.Table

/-!
# The process tree

The abstract machine of the process table, `Table.machine`: one step per outcome of `fork`
(`spawn`, `abort`), `exit`, `wait` (`reap`, `sleep`) and `kill`, each taken by a process that
can run. Its invariant `Table.TreeOk` is what the tree is for: `initproc` is alive, and every other
process in use has a living parent, because `exit` hands all its children to `initproc` before
its caller becomes a zombie, and `wait` frees only zombies, which are nobody's parent.

`kernel` is the transition system of the model: booted by `userinit` from the zeroed table, then
any call of `fork`, `exit`, `wait` or `kill` by a process that can run. `kernel_refines` says that
its table moves as `Table.machine` does, stuttering aside, so the invariant holds of every state
the kernel reaches (`Reachable.treeOk`). The facts about single steps (which slots a step frees,
what a zombie keeps, what `wait` returns) follow from the table lemmas of each call.
-/

namespace Xv6

open StateExcept Sysfile Proc

/-- A slot that is in use and has not exited. -/
def Slot.Alive (n : Slot) : Prop := n.state ≠ .UNUSED ∧ n.state ≠ .ZOMBIE

/-- A process that can run: the scheduler may pick it, or it is running. -/
def Slot.Runs (n : Slot) : Prop := n.state = .RUNNABLE ∨ n.state = .RUNNING

lemma Slot.Runs.alive {n : Slot} (h : n.Runs) : n.Alive := by
  rcases h with h | h <;> exact ⟨by rw [h]; decide, by rw [h]; decide⟩

lemma Table.firstUnused_state {t : Table} {np : Fin NPROC} (h : t.firstUnused = some np) :
    (t.node np).state = .UNUSED := by
  simpa using List.find?_some h

lemma Table.zombieChild_spec {t : Table} {p pp : Fin NPROC} (h : t.zombieChild p = some pp) :
    (t.node pp).parent = some p ∧ (t.node pp).state = .ZOMBIE := by
  simpa using List.find?_some h

/-! ## The abstract machine -/

/-- One step of the process table: what a call of `fork`, `exit`, `wait` or `kill` by a process
`p` that can run does to it. -/
inductive Table.Step : Table → Table → Prop
  /-- `fork` spawns a runnable child of `p` in the first `UNUSED` slot, with the next pid. -/
  | spawn {t : Table} {p np : Fin NPROC} : (t.node p).Runs → t.firstUnused = some np →
      Table.Step t (t.bump.set np { t.node np with pid := t.nextpid, parent := some p, state := .RUNNABLE })
  /-- `fork` takes the slot and a pid, and frees the slot again when memory runs out. -/
  | abort {t : Table} {p np : Fin NPROC} : (t.node p).Runs → t.firstUnused = some np →
      Table.Step t (t.bump.set np .free)
  /-- `exit`: the children of `p` go to `initproc`, sleepers may wake, and `p` becomes a zombie. -/
  | exit {t t₁ : Table} {p : Fin NPROC} {status : Int32} : (t.node p).Runs → t.initproc ≠ some p →
      t.Adopt p t.initproc t₁ → (∀ x, (t₁.node x).parent ≠ some p) →
      Table.Step t (t₁.set p { t₁.node p with xstate := status, state := .ZOMBIE })
  /-- `wait` frees the first zombie child of `p`. -/
  | reap {t : Table} {p pp : Fin NPROC} : (t.node p).Runs → t.zombieChild p = some pp →
      Table.Step t (t.set pp .free)
  /-- `wait` with no zombie child puts `p` to sleep on itself. -/
  | sleep {t : Table} {p : Fin NPROC} : (t.node p).Runs → t.zombieChild p = none →
      Table.Step t (t.set p { t.node p with chan := some p, state := .SLEEPING })
  /-- `kill` marks the first slot with the pid. -/
  | kill {t : Table} {p x : Fin NPROC} {pid : Int32} : (t.node p).Runs → t.findPid pid = some x →
      Table.Step t (t.set x (t.node x).mark)

/-- The process-table machine, started from the table `userinit` leaves. -/
def Table.machine : Machine.System Table where
  init t := t = Table.boot
  next := Table.Step

/-- The process tree is well formed: `initproc` is alive, and every other process in use has a
living parent. -/
structure Table.TreeOk (t : Table) : Prop where
  init : ∃ i, t.initproc = some i ∧ (t.node i).Alive
  parent : ∀ x, t.initproc ≠ some x → (t.node x).state ≠ .UNUSED →
    ∃ q, (t.node x).parent = some q ∧ (t.node q).Alive

lemma Table.TreeOk.boot : Table.boot.TreeOk where
  init := ⟨slot0, rfl, by simp [Table.boot, Slot.Alive]⟩
  parent x hx hused := by
    have hx0 : x ≠ slot0 := fun e => hx (by rw [e]; rfl)
    simp [Table.boot, hx0, Slot.free] at hused

/-! ## The tree is kept -/

lemma Table.node_set (t : Table) (y x : Fin NPROC) (n : Slot) :
    (t.set y n).node x = if x = y then n else t.node x := by
  simp only [Table.set_node, Function.update_apply]

/-- Adoption keeps which slots are in use and which are alive. -/
lemma Table.Adopt.unused_iff {p : Fin NPROC} {i : Option (Fin NPROC)} {t t' : Table} (h : t.Adopt p i t')
    (x : Fin NPROC) : (t'.node x).state = .UNUSED ↔ (t.node x).state = .UNUSED := by
  rcases h.state x with e | ⟨e, e'⟩
  · rw [e]
  · rw [e, e']
    decide

lemma Table.Adopt.alive_iff {p : Fin NPROC} {i : Option (Fin NPROC)} {t t' : Table} (h : t.Adopt p i t')
    (x : Fin NPROC) : (t'.node x).Alive ↔ (t.node x).Alive := by
  unfold Slot.Alive
  rcases h.state x with e | ⟨e, e'⟩
  · rw [e]
  · rw [e, e']
    decide

/-- A store into slot `y` that keeps whether it is in use, whether it is alive and its parent
keeps the tree: waking, sleeping and `kill`'s mark. -/
lemma Table.TreeOk.set_same {t : Table} (ht : t.TreeOk) {y : Fin NPROC} {n : Slot}
    (hused : n.state = .UNUSED ↔ (t.node y).state = .UNUSED) (halive : n.Alive ↔ (t.node y).Alive)
    (hpar : n.parent = (t.node y).parent) : (t.set y n).TreeOk := by
  have hal : ∀ q, ((t.set y n).node q).Alive ↔ (t.node q).Alive := by
    intro q
    rw [Table.node_set]
    split
    · subst q
      exact halive
    · exact Iff.rfl
  have hus : ∀ x, ((t.set y n).node x).state = .UNUSED ↔ (t.node x).state = .UNUSED := by
    intro x
    rw [Table.node_set]
    split
    · subst x
      exact hused
    · exact Iff.rfl
  have hp : ∀ x, ((t.set y n).node x).parent = (t.node x).parent := by
    intro x
    rw [Table.node_set]
    split
    · subst x
      exact hpar
    · rfl
  obtain ⟨i, hi, hia⟩ := ht.init
  refine ⟨⟨i, hi, (hal i).2 hia⟩, fun x hx hxu => ?_⟩
  obtain ⟨q, hq, hqa⟩ := ht.parent x hx (fun e => hxu ((hus x).2 e))
  exact ⟨q, (hp x).trans hq, (hal q).2 hqa⟩

lemma Table.TreeOk.bump {t : Table} (ht : t.TreeOk) : t.bump.TreeOk := ⟨ht.init, ht.parent⟩

/-- A slot that was `UNUSED` is nobody's living parent, so a new process there, whose parent is
alive, keeps the tree; so does freeing the slot again. -/
lemma Table.TreeOk.set_unused {t : Table} (ht : t.TreeOk) {y : Fin NPROC}
    (hy : (t.node y).state = .UNUSED) {n : Slot}
    (hn : n.state ≠ .UNUSED → ∃ q, n.parent = some q ∧ q ≠ y ∧ (t.node q).Alive) : (t.set y n).TreeOk := by
  obtain ⟨i, hi, hia⟩ := ht.init
  have hiy : i ≠ y := fun e => hia.1 (e ▸ hy)
  refine ⟨⟨i, hi, by rwa [Table.node_set, if_neg hiy]⟩, fun x hx hxu => ?_⟩
  rw [Table.node_set] at hxu ⊢
  split
  · obtain ⟨q, hq, hqy, hqa⟩ := hn (by rwa [if_pos ‹x = y›] at hxu)
    exact ⟨q, hq, by rwa [Table.node_set, if_neg hqy]⟩
  · rename_i hxy
    rw [if_neg hxy] at hxu
    obtain ⟨q, hq, hqa⟩ := ht.parent x hx hxu
    have hqy : q ≠ y := fun e => hqa.1 (e ▸ hy)
    exact ⟨q, hq, by rwa [Table.node_set, if_neg hqy]⟩

/-- Freeing a zombie keeps the tree: a zombie is nobody's living parent. -/
lemma Table.TreeOk.free_zombie {t : Table} (ht : t.TreeOk) {y : Fin NPROC}
    (hy : (t.node y).state = .ZOMBIE) : (t.set y .free).TreeOk := by
  obtain ⟨i, hi, hia⟩ := ht.init
  have hiy : i ≠ y := fun e => hia.2 (e ▸ hy)
  refine ⟨⟨i, hi, by rwa [Table.node_set, if_neg hiy]⟩, fun x hx hxu => ?_⟩
  rw [Table.node_set] at hxu ⊢
  split
  · rw [if_pos ‹x = y›] at hxu
    exact absurd rfl hxu
  · rename_i hxy
    rw [if_neg hxy] at hxu
    obtain ⟨q, hq, hqa⟩ := ht.parent x hx hxu
    have hqy : q ≠ y := fun e => hqa.2 (e ▸ hy)
    exact ⟨q, hq, by rwa [Table.node_set, if_neg hqy]⟩

/-- `exit` keeps the tree: the children of `p` now have `initproc` for parent, and every other
parent is not `p`, so the new zombie is nobody's parent. -/
lemma Table.TreeOk.exit {t t₁ : Table} {p : Fin NPROC} {status : Int32} (ht : t.TreeOk)
    (hp : (t.node p).Runs) (hinit : t.initproc ≠ some p) (hadopt : t.Adopt p t.initproc t₁)
    (hnot : ∀ x, (t₁.node x).parent ≠ some p) :
    (t₁.set p { t₁.node p with xstate := status, state := .ZOMBIE }).TreeOk := by
  obtain ⟨i, hi, hia⟩ := ht.init
  have hip : i ≠ p := fun e => hinit (e ▸ hi)
  -- `initproc` is alive after the adoption and is not the new zombie
  have hia₁ : ((t₁.set p { t₁.node p with xstate := status, state := .ZOMBIE }).node i).Alive := by
    rw [Table.node_set, if_neg hip]
    exact (hadopt.alive_iff i).2 hia
  refine ⟨⟨i, hadopt.initproc.trans hi, hia₁⟩, fun x hx hxu => ?_⟩
  have hx' : t.initproc ≠ some x := fun e => hx (hadopt.initproc.trans e)
  -- `x` was in use before: either it is `p`, which runs, or adoption kept it in use
  have hxu₀ : (t.node x).state ≠ .UNUSED := by
    by_cases hxp : x = p
    · subst hxp
      exact hp.alive.1
    · rw [Table.node_set, if_neg hxp] at hxu
      exact fun e => hxu ((hadopt.unused_iff x).2 e)
  have hpar : ((t₁.set p { t₁.node p with xstate := status, state := .ZOMBIE }).node x).parent =
      (t₁.node x).parent := by
    rw [Table.node_set]
    split
    · subst x
      rfl
    · rfl
  rw [hpar]
  rcases hadopt.parent x with e | ⟨-, e⟩
  · obtain ⟨q, hq, hqa⟩ := ht.parent x hx' hxu₀
    have hqp : q ≠ p := fun hqp => hnot x (by rw [e, hq, hqp])
    refine ⟨q, e.trans hq, ?_⟩
    rw [Table.node_set, if_neg hqp]
    exact (hadopt.alive_iff q).2 hqa
  · exact ⟨i, e.trans hi, hia₁⟩

/-- Every step of the machine keeps the tree. -/
lemma Table.TreeOk.step {t t' : Table} (ht : t.TreeOk) (hs : Table.Step t t') : t'.TreeOk := by
  cases hs with
  | @spawn p np hp hnp =>
    have hpn : p ≠ np := fun e => hp.alive.1 (e ▸ Table.firstUnused_state hnp)
    exact ht.bump.set_unused (Table.firstUnused_state hnp) fun _ => ⟨p, rfl, hpn, hp.alive⟩
  | @abort p np hp hnp =>
    exact ht.bump.set_unused (Table.firstUnused_state hnp) fun h => absurd rfl h
  | exit hp hinit hadopt hnot => exact ht.exit hp hinit hadopt hnot
  | reap hp hpp => exact ht.free_zombie (Table.zombieChild_spec hpp).2
  | @sleep p hp _ =>
    refine ht.set_same ?_ ?_ rfl
    · exact ⟨(fun h => by cases h), fun h => absurd h hp.alive.1⟩
    · exact ⟨fun _ => hp.alive, fun _ => ⟨(fun h => by cases h), (fun h => by cases h)⟩⟩
  | @kill p x pid hp hx =>
    refine ht.set_same ?_ ?_ rfl
    · unfold Slot.mark
      split <;> simp_all
    · unfold Slot.mark Slot.Alive
      split <;> simp_all

/-- Every reachable table is a well-formed tree. -/
lemma Table.machine_treeOk {t : Table} (ht : Machine.Reachable Table.machine t) : t.TreeOk :=
  Machine.Reachable.invariant (fun _ h => h ▸ Table.TreeOk.boot) (fun _ _ _ hi hn => hi.step hn) ht

/-- A zombie stays a zombie, with its status and pid, until it is freed. -/
lemma Table.Step.zombie {t t' : Table} (hs : Table.Step t t') {x : Fin NPROC}
    (hx : (t.node x).state = .ZOMBIE) :
    (t'.node x).state = .UNUSED ∨
      ((t'.node x).state = .ZOMBIE ∧ (t'.node x).xstate = (t.node x).xstate ∧ (t'.node x).pid = (t.node x).pid) := by
  -- a slot other than the one a step stores into keeps its node
  have keep : ∀ (y : Fin NPROC) (n : Slot) (t₀ : Table), x ≠ y → t₀.node x = t.node x →
      (t₀.set y n).node x = t.node x := fun y n t₀ hxy h₀ => by rw [Table.node_set, if_neg hxy, h₀]
  have same : ∀ n : Slot, n = t.node x → n.state = .UNUSED ∨
      (n.state = .ZOMBIE ∧ n.xstate = (t.node x).xstate ∧ n.pid = (t.node x).pid) :=
    fun n e => .inr ⟨e ▸ hx, e ▸ rfl, e ▸ rfl⟩
  cases hs with
  | @spawn p np hp hnp =>
    have hxn : x ≠ np := fun e => by rw [e, Table.firstUnused_state hnp] at hx; cases hx
    exact same _ (keep np _ t.bump hxn rfl)
  | @abort p np hp hnp =>
    have hxn : x ≠ np := fun e => by rw [e, Table.firstUnused_state hnp] at hx; cases hx
    exact same _ (keep np _ t.bump hxn rfl)
  | @exit t₁ p status hp _ hadopt _ =>
    have hxp : x ≠ p := fun e => by rcases hp with h | h <;> rw [← e, hx] at h <;> cases h
    rw [Table.node_set, if_neg hxp]
    rcases hadopt.state x with e | ⟨e, -⟩
    · exact .inr ⟨e.trans hx, hadopt.xstate x, hadopt.pid x⟩
    · rw [hx] at e
      cases e
  | @reap p pp hp hpp =>
    rw [Table.node_set]
    split
    · exact .inl rfl
    · exact same _ rfl
  | @sleep p hp _ =>
    have hxp : x ≠ p := fun e => by rcases hp with h | h <;> rw [← e, hx] at h <;> cases h
    exact same _ (keep p _ t hxp rfl)
  | @kill p y pid hp hy =>
    rw [Table.node_set]
    split
    · rename_i e
      subst e
      refine .inr ⟨?_, rfl, rfl⟩
      simp [Slot.mark, hx]
    · exact same _ rfl

/-! ## The kernel -/

/-- The system calls of the process tree. -/
inductive Op where
  | fork
  | exit (status : Int32)
  | wait (addr : UInt64)
  | kill (pid : Int32)

/-- One call of `o` by the process in slot `p`, which can run. -/
inductive KStep (p : Fin NPROC) : Op → KState → KState → Prop
  | fork {k k' : KState} {r : Int} : (k.table.node p).Runs → (Proc.fork p).run k = .ok (r, k') →
      KStep p .fork k k'
  | exit {k k' : KState} {status : Int32} : (k.table.node p).Runs →
      (Proc.exit p status).run k = .ok ((), k') → KStep p (.exit status) k k'
  | wait {k k' : KState} {addr : UInt64} {r : Option Int} : (k.table.node p).Runs →
      (wait p addr).run k = .ok (r, k') → KStep p (.wait addr) k k'
  | kill {k k' : KState} {pid : Int32} {r : Int} : (k.table.node p).Runs →
      (kill pid).run k = .ok (r, k') → KStep p (.kill pid) k k'

/-- The kernel: booted by `userinit` from the zeroed process table, then any call by any process
that can run. -/
def kernel : Machine.System KState where
  init k := ∃ k₀, Boot k₀ ∧ userinit.run k₀ = .ok ((), k)
  next k k' := ∃ p o, KStep p o k k'

/-- Each call moves the table as a step of `Table.machine`, or leaves it as it was. -/
lemma KStep.table {p : Fin NPROC} {o : Op} {k k' : KState} (h : KStep p o k k') :
    Table.Step k.table k'.table ∨ k'.table = k.table := by
  cases h with
  | fork hp hr =>
    rcases fork_table hr with ⟨-, e | ⟨np, hnp, e⟩⟩ | ⟨np, hnp, -, e⟩
    · exact .inr e
    · exact .inl (by rw [e]; exact .abort hp hnp)
    · exact .inl (by rw [e]; exact .spawn hp hnp)
  | exit hp hr =>
    obtain ⟨hinit, t₁, hadopt, hnot, e⟩ := exit_table hr
    exact .inl (by rw [e]; exact .exit hp hinit hadopt hnot)
  | wait hp hr =>
    rcases wait_table hr with ⟨pp, hpp, ⟨-, e, -⟩ | ⟨-, e⟩⟩ | ⟨hnone, ⟨-, rfl⟩ | ⟨-, e⟩⟩
    · exact .inl (by rw [e]; exact .reap hp hpp)
    · exact .inr e
    · exact .inr rfl
    · exact .inl (by rw [e]; exact .sleep hp hnone)
  | kill hp hr =>
    rcases kill_table hr with ⟨x, hx, -, e⟩ | ⟨-, -, rfl⟩
    · exact .inl (by rw [e]; exact .kill hp hx)
    · exact .inr rfl

/-- The kernel's process table refines the process-table machine. -/
theorem kernel_refines : Machine.Refines kernel Table.machine KState.table where
  init _ := fun ⟨_, hboot, hk⟩ => hboot.userinit_eq_boot hk
  step _ _ _ := fun ⟨_, _, hs⟩ => hs.table

/-- Every state the kernel reaches has a well-formed process tree. -/
lemma Reachable.treeOk {k : KState} (hk : Machine.Reachable kernel k) : k.table.TreeOk :=
  Table.machine_treeOk (kernel_refines.reachable hk)

/-! ## What single calls do -/

/-- A call frees a slot only as `wait` in the slot's parent, while the slot is a zombie: the slot
a failing `fork` frees was `UNUSED` before the call. -/
lemma KStep.unused {p : Fin NPROC} {o : Op} {k k' : KState} (h : KStep p o k k') {x : Fin NPROC}
    (hx : (k.proc x).state ≠ .UNUSED) (hx' : (k'.proc x).state = .UNUSED) :
    (∃ addr, o = .wait addr) ∧ (k.proc x).parent = some p ∧ (k.proc x).state = .ZOMBIE := by
  have hx₀ : (k.table.node x).state ≠ .UNUSED := hx
  have hx₁ : (k'.table.node x).state = .UNUSED := hx'
  cases h with
  | fork hp hr =>
    exfalso
    rcases fork_table hr with ⟨-, e | ⟨np, hnp, e⟩⟩ | ⟨np, hnp, -, e⟩ <;> rw [e] at hx₁
    · exact hx₀ hx₁
    · rw [Table.node_set] at hx₁
      split at hx₁
      · rename_i hxn
        exact hx₀ (hxn ▸ Table.firstUnused_state hnp)
      · exact hx₀ hx₁
    · rw [Table.node_set] at hx₁
      split at hx₁
      · cases hx₁
      · exact hx₀ hx₁
  | exit hp hr =>
    exfalso
    obtain ⟨-, t₁, hadopt, -, e⟩ := exit_table hr
    rw [e, Table.node_set] at hx₁
    split at hx₁
    · cases hx₁
    · exact hx₀ ((hadopt.unused_iff x).1 hx₁)
  | @wait _ _ addr _ hp hr =>
    rcases wait_table hr with ⟨pp, hpp, ⟨-, e, -⟩ | ⟨-, e⟩⟩ | ⟨-, ⟨-, rfl⟩ | ⟨-, e⟩⟩
    · rw [e, Table.node_set] at hx₁
      split at hx₁
      · rename_i hxp
        subst hxp
        exact ⟨⟨addr, rfl⟩, Table.zombieChild_spec hpp⟩
      · exact absurd hx₁ hx₀
    · rw [e] at hx₁
      exact absurd hx₁ hx₀
    · exact absurd hx₁ hx₀
    · rw [e, Table.node_set] at hx₁
      split at hx₁
      · cases hx₁
      · exact absurd hx₁ hx₀
  | kill hp hr =>
    exfalso
    rcases kill_table hr with ⟨y, -, -, e⟩ | ⟨-, -, rfl⟩
    · rw [e, Table.node_set] at hx₁
      split at hx₁
      · rename_i hxy
        subst hxy
        unfold Slot.mark at hx₁
        split at hx₁
        · cases hx₁
        · exact hx₀ hx₁
      · exact hx₀ hx₁
    · exact hx₀ hx₁

/-- A zombie keeps its status and pid until it is freed. -/
lemma KStep.zombie {p : Fin NPROC} {o : Op} {k k' : KState} (h : KStep p o k k') {x : Fin NPROC}
    (hx : (k.proc x).state = .ZOMBIE) :
    (k'.proc x).state = .UNUSED ∨
      ((k'.proc x).state = .ZOMBIE ∧ (k'.proc x).xstate = (k.proc x).xstate ∧ (k'.proc x).pid = (k.proc x).pid) := by
  rcases h.table with hs | e
  · exact hs.zombie hx
  · have hn : (k'.proc x).node = (k.proc x).node := by rw [← KState.table_node, e, KState.table_node]
    exact .inr ⟨(congrArg Slot.state hn).trans hx, congrArg Slot.xstate hn, congrArg Slot.pid hn⟩

/-- `exit(status)` leaves its caller a zombie with that status. -/
lemma exit_zombie {p : Fin NPROC} {status : Int32} {k k' : KState}
    (h : (Proc.exit p status).run k = .ok ((), k')) :
    (k'.proc p).state = .ZOMBIE ∧ (k'.proc p).xstate = status := by
  obtain ⟨-, t₁, -, -, e⟩ := exit_table h
  have hn : (k'.proc p).node = { t₁.node p with xstate := status, state := .ZOMBIE } := by
    rw [← KState.table_node, e, Table.set_node_self]
  exact ⟨congrArg Slot.state hn, congrArg Slot.xstate hn⟩

/-- A round of `wait` in `p` that returns either freed exactly one zombie child of `p`, after
copying its status out to a non-null `addr`, and returned its pid; or freed nothing, changed no
slot, and returned `-1`. -/
lemma wait_returns {p : Fin NPROC} {addr : UInt64} {k k' : KState} {r : Int}
    (h : (wait p addr).run k = .ok (some r, k')) :
    (∃ pp, (k.proc pp).parent = some p ∧ (k.proc pp).state = .ZOMBIE ∧ r = (k.proc pp).pid.toInt ∧
        (k'.proc pp).state = .UNUSED ∧ (∀ x, x ≠ pp → (k'.proc x).node = (k.proc x).node) ∧
        (addr ≠ 0 → ∃ vm₁,
          (Vm.copyout (k.proc p).pagetable addr (intBytes (k.proc pp).xstate) 4).run k.vm = .ok (0, vm₁))) ∨
      (r = -1 ∧ ∀ x, (k'.proc x).node = (k.proc x).node) := by
  rcases wait_table h with ⟨pp, hpp, ⟨hr, e, hcopy⟩ | ⟨hr, e⟩⟩ | ⟨-, ⟨hr, rfl⟩ | ⟨hr, -⟩⟩
  · obtain ⟨hpar, hz⟩ := Table.zombieChild_spec hpp
    refine .inl ⟨pp, hpar, hz, Option.some.inj hr, ?_, fun x hx => ?_, hcopy⟩
    · have hn : (k'.proc pp).node = .free := by rw [← KState.table_node, e, Table.set_node_self]
      exact congrArg Slot.state hn
    · rw [← KState.table_node, e, Table.node_set, if_neg hx, KState.table_node]
  · exact .inr ⟨Option.some.inj hr, fun x => by rw [← KState.table_node, e, KState.table_node]⟩
  · exact .inr ⟨Option.some.inj hr, fun _ => rfl⟩
  · cases hr

/-! ## A boot -/

/-- Physical memory before `kinit`: zeros, and fourteen pages between `end` and `PHYSTOP`. -/
def bootMem : Vm.VmState := ⟨fun _ _ => 0, 0, 0x87FF2000, 0x80001000⟩

/-- Memory once `kinit` has put the fourteen pages on the free list. -/
def bootVm : Vm.VmState :=
  match Vm.kinit.run bootMem with
  | .ok (_, s) => s
  | .error _ => bootMem

/-- A zeroed `struct proc`. -/
def Proc.zero : Proc := ⟨.UNUSED, none, 0, 0, 0, none, 0, 0, 0, fun _ => none, none⟩

/-- The kernel before `userinit`: an empty inode table, no open file, the zeroed process
table, `nextpid = 1`. -/
def bootState : KState :=
  ⟨⟨⟨FSMAGIC, 2000, 1954, 200, 30, 2, 32, 45⟩, fun _ _ => 0, fun _ => ⟨0, 0, 0, false, DInode.zero⟩, []⟩,
    fun _ => ⟨.FD_NONE, 0, false, false, 0, none, 0, 0⟩, fun _ => Proc.zero, bootVm, 1, none⟩

lemma bootState_boot : Boot bootState := ⟨fun _ => rfl, rfl, rfl⟩

/-- The kernel once `userinit` has run from `bootState`. -/
def initState : KState :=
  match userinit.run bootState with
  | .ok (_, k) => k
  | .error _ => bootState

lemma userinit_bootState : userinit.run bootState = .ok ((), initState) := by
  have hok : (userinit.run bootState).isOk = true := by decide +kernel
  unfold initState
  cases hr : userinit.run bootState with
  | error e =>
    rw [hr] at hok
    cases hok
  | ok r => rfl

lemma reachable_initState : Machine.Reachable kernel initState :=
  .init ⟨bootState, bootState_boot, userinit_bootState⟩

/-! ## The process tree over whole runs -/

/-- The process tree in every state the kernel reaches, and what each call does to it:
`initproc` is alive; every other slot in use has a live parent; a call frees a slot in use only
as `wait` in its parent while it is a zombie; `exit(status)` makes a zombie with `status`, which
keeps its status and pid until it is freed; and a round of `wait` that returns either reaped one
zombie child, after copying its status out, and returned that child's pid, or freed nothing and
returned `-1`. -/
theorem process_tree_reaping {k : KState} (hk : Machine.Reachable kernel k) :
    (∃ i, k.initproc = some i ∧ (k.proc i).state ≠ .UNUSED ∧ (k.proc i).state ≠ .ZOMBIE) ∧
    (∀ x, k.initproc ≠ some x → (k.proc x).state ≠ .UNUSED →
      ∃ q, (k.proc x).parent = some q ∧ (k.proc q).state ≠ .UNUSED ∧ (k.proc q).state ≠ .ZOMBIE) ∧
    (∀ p o k', KStep p o k k' → ∀ x, (k.proc x).state ≠ .UNUSED → (k'.proc x).state = .UNUSED →
      (∃ addr, o = .wait addr) ∧ (k.proc x).parent = some p ∧ (k.proc x).state = .ZOMBIE) ∧
    (∀ p status k', KStep p (.exit status) k k' →
      (k'.proc p).state = .ZOMBIE ∧ (k'.proc p).xstate = status) ∧
    (∀ p o k', KStep p o k k' → ∀ x, (k.proc x).state = .ZOMBIE →
      (k'.proc x).state = .UNUSED ∨ ((k'.proc x).state = .ZOMBIE ∧
        (k'.proc x).xstate = (k.proc x).xstate ∧ (k'.proc x).pid = (k.proc x).pid)) ∧
    (∀ p addr r k', (wait p addr).run k = .ok (some r, k') →
      (∃ pp, (k.proc pp).parent = some p ∧ (k.proc pp).state = .ZOMBIE ∧
        r = (k.proc pp).pid.toInt ∧ (k'.proc pp).state = .UNUSED ∧
        (∀ x, x ≠ pp → (k'.proc x).node = (k.proc x).node) ∧
        (addr ≠ 0 → ∃ vm₁,
          (Vm.copyout (k.proc p).pagetable addr (intBytes (k.proc pp).xstate) 4).run k.vm =
            .ok (0, vm₁))) ∨
      (r = -1 ∧ ∀ x, (k'.proc x).node = (k.proc x).node)) := by
  obtain ⟨⟨i, hi, halive⟩, hparent⟩ := Reachable.treeOk hk
  refine ⟨⟨i, hi, halive⟩, fun x hx hu => hparent x hx hu, fun p o k' h x => h.unused,
    ?_, fun p o k' h x => h.zombie, fun p addr r k' => wait_returns⟩
  intro p status k' h
  cases h with
  | exit _ hr => exact exit_zombie hr

/-- The process tree right after boot. -/
theorem process_tree_reaping_initState :
    Machine.Reachable kernel initState ∧
    ((∃ i, initState.initproc = some i ∧ (initState.proc i).state ≠ .UNUSED ∧
        (initState.proc i).state ≠ .ZOMBIE) ∧
    (∀ x, initState.initproc ≠ some x → (initState.proc x).state ≠ .UNUSED →
      ∃ q, (initState.proc x).parent = some q ∧ (initState.proc q).state ≠ .UNUSED ∧
        (initState.proc q).state ≠ .ZOMBIE) ∧
    (∀ p o k', KStep p o initState k' → ∀ x, (initState.proc x).state ≠ .UNUSED →
      (k'.proc x).state = .UNUSED →
      (∃ addr, o = .wait addr) ∧ (initState.proc x).parent = some p ∧
        (initState.proc x).state = .ZOMBIE) ∧
    (∀ p status k', KStep p (.exit status) initState k' →
      (k'.proc p).state = .ZOMBIE ∧ (k'.proc p).xstate = status) ∧
    (∀ p o k', KStep p o initState k' → ∀ x, (initState.proc x).state = .ZOMBIE →
      (k'.proc x).state = .UNUSED ∨ ((k'.proc x).state = .ZOMBIE ∧
        (k'.proc x).xstate = (initState.proc x).xstate ∧
        (k'.proc x).pid = (initState.proc x).pid)) ∧
    (∀ p addr r k', (wait p addr).run initState = .ok (some r, k') →
      (∃ pp, (initState.proc pp).parent = some p ∧ (initState.proc pp).state = .ZOMBIE ∧
        r = (initState.proc pp).pid.toInt ∧ (k'.proc pp).state = .UNUSED ∧
        (∀ x, x ≠ pp → (k'.proc x).node = (initState.proc x).node) ∧
        (addr ≠ 0 → ∃ vm₁,
          (Vm.copyout (initState.proc p).pagetable addr
            (intBytes (initState.proc pp).xstate) 4).run initState.vm = .ok (0, vm₁))) ∨
      (r = -1 ∧ ∀ x, (k'.proc x).node = (initState.proc x).node))) :=
  ⟨reachable_initState, process_tree_reaping reachable_initState⟩

/-! ## `kill` and the pid of an unused slot -/

lemma initState_table : initState.table = Table.boot :=
  bootState_boot.userinit_eq_boot userinit_bootState

/-- Slot 1, where the first `fork` after boot puts its child. -/
def slot1 : Fin NPROC := ⟨1, Nat.one_lt_succ_succ 62⟩

/-- The kernel after `kill(0)` from `initState`. -/
def killedState : KState :=
  { initState with proc := Function.update initState.proc slot1 (initState.proc slot1).mark }

/-- The kernel after `kill(0)` and then `fork()` in `initproc`. -/
def forkedState : KState :=
  match (Proc.fork slot0).run killedState with
  | .ok (_, k) => k
  | .error _ => killedState

lemma killedState_table : killedState.table = Table.boot.set slot1 (Table.boot.node slot1).mark := by
  rw [killedState, KState.table_update, Proc.mark_node, ← KState.table_node, initState_table]

lemma fork_killedState : (Proc.fork slot0).run killedState = .ok (2, forkedState) := by
  have hok : (match (Proc.fork slot0).run killedState with
      | .ok (r, _) => decide (r = 2)
      | .error _ => false) = true := by decide +kernel
  unfold forkedState
  cases hr : (Proc.fork slot0).run killedState with
  | error e =>
    rw [hr] at hok
    cases hok
  | ok r =>
    rw [hr] at hok
    obtain ⟨r, k⟩ := r
    simp only [decide_eq_true_eq] at hok
    rw [hok]

/-- `kill(0)` right after boot. No process in use has pid 0, yet `kill` returns `0`: it matches
the `UNUSED` slot 1, whose pid the zeroed table leaves at 0, and marks that slot killed. The
next `fork` reuses the slot without clearing `killed`, so its child starts out killed. -/
theorem kill_marks_unused_slot :
    Machine.Reachable kernel initState ∧
    (∀ x, (initState.proc x).state ≠ .UNUSED → (initState.proc x).pid ≠ 0) ∧
    (kill 0).run initState = .ok (0, killedState) ∧
    (killedState.proc slot1).state = .UNUSED ∧ (killedState.proc slot1).killed = 1 ∧
    Machine.Reachable kernel killedState ∧
    (Proc.fork slot0).run killedState = .ok (2, forkedState) ∧
    (forkedState.proc slot1).state = .RUNNABLE ∧ (forkedState.proc slot1).killed = 1 ∧
    Machine.Reachable kernel forkedState := by
  have hnode : ∀ x, (initState.proc x).node = Table.boot.node x := fun x => by
    rw [← KState.table_node, initState_table]
  have hfind : initState.table.findPid 0 = some slot1 := by
    rw [initState_table]
    decide
  have hkill : (kill 0).run initState = .ok (0, killedState) := by
    rw [kill_run, hfind]
    rfl
  have hkilled : (killedState.proc slot1).node = (Table.boot.node slot1).mark := by
    rw [← KState.table_node, killedState_table, Table.set_node_self]
  have hreach₁ : Machine.Reachable kernel killedState := by
    refine .step reachable_initState ⟨slot0, .kill 0, .kill ?_ hkill⟩
    rw [initState_table]
    exact .inl rfl
  -- the child goes to the first unused slot, slot 1, and keeps its `killed`
  obtain ⟨hr, -⟩ | ⟨np, hnp, -, ht⟩ := fork_table fork_killedState
  · exact absurd hr (by decide)
  have hnp₁ : np = slot1 := by
    have hfirst : (Table.boot.set slot1 (Table.boot.node slot1).mark).firstUnused = some slot1 := by
      decide
    rw [killedState_table, hfirst] at hnp
    exact (Option.some.inj hnp).symm
  subst hnp₁
  have hchild : (forkedState.proc slot1).node = { killedState.table.node slot1 with
      pid := killedState.nextpid, parent := some slot0, state := .RUNNABLE } := by
    rw [← KState.table_node, ht, Table.set_node_self]
  refine ⟨reachable_initState, fun x hx => ?_, hkill, ?_, ?_, hreach₁, fork_killedState, ?_, ?_, ?_⟩
  · have hboot : ∀ x, (Table.boot.node x).state ≠ .UNUSED → (Table.boot.node x).pid ≠ 0 := by
      decide
    rw [← Proc.node_state, hnode] at hx
    rw [← Proc.node_pid, hnode]
    exact hboot x hx
  · rw [← Proc.node_state, hkilled]
    decide
  · rw [← Proc.node_killed, hkilled]
    rfl
  · rw [← Proc.node_state, hchild]
  · rw [← Proc.node_killed, hchild, KState.table_node, hkilled]
    rfl
  · refine .step hreach₁ ⟨slot0, .fork, .fork ?_ fork_killedState⟩
    rw [killedState_table]
    exact .inl rfl

end Xv6
