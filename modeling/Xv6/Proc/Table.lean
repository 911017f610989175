import Xv6.Proc.Basic
import Xv6.Lib.Machine

/-!
# The process table

What the process-tree code reads and writes of a `struct proc`: its state, the channel it sleeps
on, `killed`, `xstate`, `pid` and `parent`, the fields a `Slot` keeps. `KState.table` is the view
of the kernel state through them, with `nextpid` and `initproc`.

Each function of `Proc.Basic` gets one lemma that says what a successful run does to the table,
and the callers use that lemma and never the body: `freeproc` clears its slot, `allocproc` takes
the first `UNUSED` slot or gives it back, `fork` spawns a child or aborts, `exit` reparents and
makes a zombie, `wait` reaps the first zombie child, fails or sleeps, and `kill` marks the first
slot with the pid. The file-system and memory code in between keeps the table
(`Preserves SameTable`). The kernel is the transition system whose steps are these calls made by
a process that runs, from the table that `userinit` builds out of the zeroed `proc[]`.
-/

namespace Xv6

/-- A slot of the process table as the tree code sees it. -/
@[ext] structure Slot where
  state : procstate
  chan : Option (Fin NPROC)
  killed : Int32
  xstate : Int32
  pid : Int32
  parent : Option (Fin NPROC)
  deriving DecidableEq

/-- The slot `freeproc` leaves, which is also the zeroed `struct proc`. -/
def Slot.free : Slot := ⟨.UNUSED, none, 0, 0, 0, none⟩

/-- The node of a `struct proc`. -/
def Proc.node (q : Proc) : Slot := ⟨q.state, q.chan, q.killed, q.xstate, q.pid, q.parent⟩

@[simp] lemma Proc.node_state (q : Proc) : q.node.state = q.state := rfl
@[simp] lemma Proc.node_chan (q : Proc) : q.node.chan = q.chan := rfl
@[simp] lemma Proc.node_killed (q : Proc) : q.node.killed = q.killed := rfl
@[simp] lemma Proc.node_xstate (q : Proc) : q.node.xstate = q.xstate := rfl
@[simp] lemma Proc.node_pid (q : Proc) : q.node.pid = q.pid := rfl
@[simp] lemma Proc.node_parent (q : Proc) : q.node.parent = q.parent := rfl

/-- The process table: every slot's node, `nextpid` and `initproc`. -/
@[ext] structure Table where
  node : Fin NPROC → Slot
  nextpid : Int32
  initproc : Option (Fin NPROC)

/-- The table with slot `x` replaced by `n`. -/
def Table.set (t : Table) (x : Fin NPROC) (n : Slot) : Table := { t with node := Function.update t.node x n }

/-- The table once `allocpid` has handed out `nextpid`. -/
def Table.bump (t : Table) : Table := { t with nextpid := t.nextpid + 1 }

/-- The slot `allocproc` takes: the first `UNUSED` one. -/
def Table.firstUnused (t : Table) : Option (Fin NPROC) :=
  (List.finRange NPROC).find? fun p => (t.node p).state == .UNUSED

/-- The child `wait` reaps in `p`: the first zombie whose parent is `p`. -/
def Table.zombieChild (t : Table) (p : Fin NPROC) : Option (Fin NPROC) :=
  (List.finRange NPROC).find? fun pp => (t.node pp).parent == some p && (t.node pp).state == .ZOMBIE

/-- The slot `kill` marks: the first with the pid. -/
def Table.findPid (t : Table) (pid : Int32) : Option (Fin NPROC) :=
  (List.finRange NPROC).find? fun p => (t.node p).pid == pid

@[simp] lemma Table.set_node (t : Table) (x : Fin NPROC) (n : Slot) :
    (t.set x n).node = Function.update t.node x n := rfl

@[simp] lemma Table.set_nextpid (t : Table) (x : Fin NPROC) (n : Slot) :
    (t.set x n).nextpid = t.nextpid := rfl

@[simp] lemma Table.set_initproc (t : Table) (x : Fin NPROC) (n : Slot) :
    (t.set x n).initproc = t.initproc := rfl

@[simp] lemma Table.bump_node (t : Table) : t.bump.node = t.node := rfl

@[simp] lemma Table.bump_nextpid (t : Table) : t.bump.nextpid = t.nextpid + 1 := rfl

@[simp] lemma Table.bump_initproc (t : Table) : t.bump.initproc = t.initproc := rfl

/-- The process table of the kernel state. -/
def KState.table (k : KState) : Table := ⟨fun x => (k.proc x).node, k.nextpid, k.initproc⟩

@[simp] lemma KState.table_node (k : KState) (x : Fin NPROC) : k.table.node x = (k.proc x).node :=
  rfl

@[simp] lemma KState.table_nextpid (k : KState) : k.table.nextpid = k.nextpid := rfl

@[simp] lemma KState.table_initproc (k : KState) : k.table.initproc = k.initproc := rfl

/-- A store into one slot of `proc[]` is a store into the table. -/
@[simp] lemma KState.table_update (k : KState) (p : Fin NPROC) (q : Proc) :
    ({ k with proc := Function.update k.proc p q } : KState).table = k.table.set p q.node := by
  refine Table.ext (funext fun x => ?_) rfl rfl
  show (Function.update k.proc p q x).node = Function.update (fun x => (k.proc x).node) p q.node x
  rw [Function.apply_update (fun _ => Proc.node)]

@[simp] lemma KState.table_fs (k : KState) (s : FsState) : ({ k with fs := s } : KState).table = k.table :=
  rfl

@[simp] lemma KState.table_vm (k : KState) (s : Vm.VmState) :
    ({ k with vm := s } : KState).table = k.table := rfl

@[simp] lemma KState.table_file (k : KState) (f : Fin NFILE → File) :
    ({ k with file := f } : KState).table = k.table := rfl

/-! ## Code that keeps the table -/

/-- `k'` has the process table of `k`. -/
def SameTable (k k' : KState) : Prop := k'.table = k.table

instance : IsPreorder KState SameTable where
  refl _ := rfl
  trans _ _ _ h₁ h₂ := h₂.trans h₁

open StateExcept Sysfile Proc

lemma liftFs_sameTable {α : Type} (m : FsM α) : Preserves SameTable (liftFs m) := by
  intro k a k' h
  obtain ⟨s, -, rfl⟩ := liftFs_eq_ok.mp h
  rfl

lemma liftVm_sameTable {α : Type} (m : Vm.VmM α) : Preserves SameTable (liftVm m) := by
  intro k a k' h
  obtain ⟨s, -, rfl⟩ := liftVm_eq_ok.mp h
  rfl

lemma modifyFile_sameTable (f : Fin NFILE) (g : File → File) : Preserves SameTable (modifyFile f g) :=
  .modify fun _ => rfl

/-- A store into a slot that keeps its node keeps the table. -/
lemma modifyProc_sameTable (p : Fin NPROC) {g : Proc → Proc} (hg : ∀ q, (g q).node = q.node) :
    Preserves SameTable (modifyProc p g) := by
  refine .modify fun k => ?_
  show ({ k with proc := Function.update k.proc p (g (k.proc p)) } : KState).table = k.table
  rw [KState.table_update, hg]
  show k.table.set p (k.table.node p) = k.table
  rw [Table.set, Function.update_eq_self]

lemma filedup_sameTable (f : Fin NFILE) : Preserves SameTable (filedup f) := by
  unfold filedup
  dsimp only
  exact .bind .get fun _ => .ite (.throw_bind _ _) (modifyFile_sameTable _ _)

lemma fileclose_sameTable (f : Fin NFILE) : Preserves SameTable (fileclose f) := by
  unfold fileclose
  dsimp only
  refine .bind .get fun k => .ite (.throw_bind _ _) (.ite (modifyFile_sameTable _ _) ?_)
  refine .bind (modifyFile_sameTable _ _) fun _ => .ite (liftVm_sameTable _) (.ite ?_ (.pure _))
  split
  · exact liftFs_sameTable _
  · exact .pure _

lemma cwdOf_sameTable (p : Fin NPROC) : Preserves SameTable (cwdOf p) := by
  unfold cwdOf
  refine .bind .get fun k => ?_
  split
  · exact .pure _
  · exact .throw _

/-- The file-system part of `fork` only touches the child's descriptors and working
directory. -/
lemma Sysfile.fork_sameTable (p np : Fin NPROC) : Preserves SameTable (Sysfile.fork p np) := by
  unfold Sysfile.fork
  refine .bind (.forM fun fd _ => .bind .get fun k => ?_) fun _ =>
    .bind (cwdOf_sameTable p) fun _ => .bind (liftFs_sameTable _) fun _ =>
      modifyProc_sameTable np fun _ => rfl
  split
  · exact .bind (filedup_sameTable _) fun _ => modifyProc_sameTable np fun _ => rfl
  · exact .pure _

/-- The file-system part of `exit` only touches the caller's descriptors and working
directory. -/
lemma Sysfile.exit_sameTable (p : Fin NPROC) : Preserves SameTable (Sysfile.exit p) := by
  unfold Sysfile.exit
  refine .bind (.forM fun fd _ => .bind .get fun k => ?_) fun _ =>
    .bind (cwdOf_sameTable p) fun _ => .bind (liftFs_sameTable _) fun _ =>
      modifyProc_sameTable p fun _ => rfl
  split
  · exact .bind (fileclose_sameTable _) fun _ => modifyProc_sameTable p fun _ => rfl
  · exact .pure _

/-! ## Stores into one slot -/

@[simp] lemma Table.set_set (t : Table) (x : Fin NPROC) (a b : Slot) :
    (t.set x a).set x b = t.set x b := by
  simp only [Table.set, Function.update_idem]

@[simp] lemma Table.set_self (t : Table) (x : Fin NPROC) : t.set x (t.node x) = t := by
  simp only [Table.set, Function.update_eq_self]

@[simp] lemma Table.set_node_self (t : Table) (x : Fin NPROC) (a : Slot) : (t.set x a).node x = a := by
  simp only [Table.set_node, Function.update_self]

/-- `k'` has the table of `k` but for slot `p`. -/
def OnlySlot (p : Fin NPROC) (k k' : KState) : Prop := k'.table = k.table.set p (k'.table.node p)

instance (p : Fin NPROC) : IsPreorder KState (OnlySlot p) where
  refl k := (Table.set_self _ _).symm
  trans _ _ _ h₁ h₂ := h₂.trans (by rw [h₁, Table.set_set])

lemma OnlySlot.of_sameTable {p : Fin NPROC} {k k' : KState} (h : SameTable k k') : OnlySlot p k k' := by
  unfold OnlySlot SameTable at *
  rw [h, Table.set_self]

lemma modifyProc_onlySlot (p : Fin NPROC) (g : Proc → Proc) : Preserves (OnlySlot p) (modifyProc p g) :=
  .modify fun k => by
    show ({ k with proc := Function.update k.proc p (g (k.proc p)) } : KState).table = _
    rw [KState.table_update, Table.set_node_self]

/-- Every action of `freeproc p` is a read, memory code or a store into slot `p`. -/
lemma freeproc_onlySlot (p : Fin NPROC) : Preserves (OnlySlot p) (freeproc p) := by
  unfold freeproc
  dsimp only
  repeat' first
    | exact .get
    | exact (liftVm_sameTable _).mono fun _ _ => OnlySlot.of_sameTable
    | exact modifyProc_onlySlot p _
    | refine .bind ?_ fun _ => ?_
    | refine .ite ?_ ?_

/-- Every path of `freeproc p` ends with the store that clears the slot. -/
lemma freeproc_clears (p : Fin NPROC) : Ensures (fun k => (k.proc p).node = .free) (freeproc p) := by
  unfold freeproc
  dsimp only
  repeat' first
    | exact .modify fun k => by simp [Proc.node, Slot.free]
    | refine .bind fun _ => ?_
    | refine .ite ?_ ?_

/-- `freeproc p` clears slot `p` of the table and changes nothing else of it. -/
lemma freeproc_table {p : Fin NPROC} {k k' : KState} (h : (freeproc p).run k = .ok ((), k')) :
    k'.table = k.table.set p .free :=
  (freeproc_onlySlot p h).trans (by rw [KState.table_node, freeproc_clears p h])

/-! ## What each call does to the table -/

@[simp] lemma Table.bump_set (t : Table) (x : Fin NPROC) (a : Slot) : (t.set x a).bump = t.bump.set x a :=
  rfl

lemma modifyProc_table {p : Fin NPROC} {g : Proc → Proc} {k k' : KState} {u : Unit}
    (h : (modifyProc p g).run k = .ok (u, k')) : k'.table = k.table.set p (g (k.proc p)).node := by
  rw [run_modifyProc] at h
  obtain ⟨-, rfl⟩ := Prod.mk.inj (Except.ok.inj h)
  exact KState.table_update _ _ _

lemma allocpid_table {k k' : KState} {pid : Int32} (h : allocpid.run k = .ok (pid, k')) :
    pid = k.nextpid ∧ k'.table = k.table.bump ∧ k'.proc = k.proc := by
  obtain ⟨rfl, rfl⟩ := Prod.mk.inj (Except.ok.inj h.symm)
  exact ⟨rfl, rfl, rfl⟩

/-- What `allocproc` does to the table: with no `UNUSED` slot nothing; otherwise the first one
gets the next pid and stays `USED`, or is cleared again when memory runs out. -/
lemma allocproc_table {k k' : KState} {r : Option (Fin NPROC)} (h : allocproc.run k = .ok (r, k')) :
    (k.table.firstUnused = none ∧ r = none ∧ k' = k) ∨
    ∃ np, k.table.firstUnused = some np ∧
      ((r = none ∧ k'.table = k.table.bump.set np .free) ∨
        (r = some np ∧ k'.table = k.table.bump.set np { k.table.node np with pid := k.nextpid, state := .USED })) := by
  rw [allocproc, run_get_bind] at h
  split at h
  · rename_i hnone
    obtain ⟨rfl, rfl⟩ := Prod.mk.inj (run_pure_eq_ok.mp h)
    exact .inl ⟨hnone, rfl, rfl⟩
  · rename_i np hnp
    refine .inr ⟨np, hnp, ?_⟩
    obtain ⟨pid, k₁, h₁, hr₁⟩ := run_bind_eq_ok.mp h
    obtain ⟨_, k₂, h₂, hr₂⟩ := run_bind_eq_ok.mp hr₁
    obtain ⟨tf, k₃, h₃, hr₃⟩ := run_bind_eq_ok.mp hr₂
    obtain ⟨_, k₄, h₄, hr₄⟩ := run_bind_eq_ok.mp hr₃
    obtain ⟨rfl, ht₁, hp₁⟩ := allocpid_table h₁
    -- the slot is taken: the next pid, `USED`; the trapframe store keeps the node
    have ht₄ : k₄.table = k.table.bump.set np { k.table.node np with pid := k.nextpid, state := .USED } := by
      rw [modifyProc_sameTable np (by intro; rfl) h₄, liftVm_sameTable _ h₃, modifyProc_table h₂, ht₁, hp₁]
      rfl
    split at hr₄
    · -- no page for the trapframe
      obtain ⟨_, k₅, h₅, hr₅⟩ := run_bind_eq_ok.mp hr₄
      obtain ⟨rfl, rfl⟩ := Prod.mk.inj (run_pure_eq_ok.mp hr₅)
      exact .inl ⟨rfl, by rw [freeproc_table h₅, ht₄, Table.set_set]⟩
    · obtain ⟨pt, k₅, h₅, hr₅⟩ := run_bind_eq_ok.mp hr₄
      obtain ⟨_, k₆, h₆, hr₆⟩ := run_bind_eq_ok.mp hr₅
      have ht₆ : k₆.table = k₄.table := by
        rw [modifyProc_sameTable np (by intro; rfl) h₆, liftVm_sameTable _ h₅]
      split at hr₆
      · -- no page table
        obtain ⟨_, k₇, h₇, hr₇⟩ := run_bind_eq_ok.mp hr₆
        obtain ⟨rfl, rfl⟩ := Prod.mk.inj (run_pure_eq_ok.mp hr₇)
        exact .inl ⟨rfl, by rw [freeproc_table h₇, ht₆, ht₄, Table.set_set]⟩
      · obtain ⟨rfl, rfl⟩ := Prod.mk.inj (run_pure_eq_ok.mp hr₆)
        exact .inr ⟨rfl, ht₆.trans ht₄⟩

/-- What `fork` does to the table: it returns `-1` after `allocproc` found no slot or gave up,
or after the copy of the memory failed and the child's slot was cleared; otherwise the first
`UNUSED` slot holds a `RUNNABLE` child of `p` with the next pid, which `fork` returns. -/
lemma fork_table {p : Fin NPROC} {k k' : KState} {r : Int} (h : (Proc.fork p).run k = .ok (r, k')) :
    (r = -1 ∧ (k'.table = k.table ∨
      ∃ np, k.table.firstUnused = some np ∧ k'.table = k.table.bump.set np .free)) ∨
    ∃ np, k.table.firstUnused = some np ∧ r = k.nextpid.toInt ∧
      k'.table = k.table.bump.set np
        { k.table.node np with pid := k.nextpid, parent := some p, state := .RUNNABLE } := by
  obtain ⟨a, k₁, h₁, hr₁⟩ := run_bind_eq_ok.mp h
  rcases allocproc_table h₁ with ⟨-, rfl, rfl⟩ | ⟨np, hnp, ⟨rfl, ht₁⟩ | ⟨rfl, ht₁⟩⟩
  · -- no `UNUSED` slot
    obtain ⟨rfl, rfl⟩ := Prod.mk.inj (run_pure_eq_ok.mp hr₁)
    exact .inl ⟨rfl, .inl rfl⟩
  · -- `allocproc` gave up
    obtain ⟨rfl, rfl⟩ := Prod.mk.inj (run_pure_eq_ok.mp hr₁)
    exact .inl ⟨rfl, .inr ⟨np, hnp, ht₁⟩⟩
  dsimp only at hr₁
  rw [run_get_bind, run_get_bind] at hr₁
  obtain ⟨c, k₂, h₂, hr₂⟩ := run_bind_eq_ok.mp hr₁
  have ht₂ : k₂.table = k₁.table := liftVm_sameTable _ h₂
  split at hr₂
  · -- `uvmcopy` failed: the child's slot is cleared
    obtain ⟨_, k₃, h₃, hr₃⟩ := run_bind_eq_ok.mp hr₂
    obtain ⟨rfl, rfl⟩ := Prod.mk.inj (run_pure_eq_ok.mp hr₃)
    refine .inl ⟨rfl, .inr ⟨np, hnp, ?_⟩⟩
    rw [freeproc_table h₃, ht₂, ht₁, Table.set_set]
  · obtain ⟨_, k₃, h₃, hr₃⟩ := run_bind_eq_ok.mp hr₂
    rw [run_get_bind] at hr₃
    obtain ⟨_, k₄, h₄, hr₄⟩ := run_bind_eq_ok.mp hr₃
    obtain ⟨_, k₅, h₅, hr₅⟩ := run_bind_eq_ok.mp hr₄
    obtain ⟨_, k₆, h₆, hr₆⟩ := run_bind_eq_ok.mp hr₅
    rw [run_get_bind] at hr₆
    obtain ⟨_, k₇, h₇, hr₇⟩ := run_bind_eq_ok.mp hr₆
    obtain ⟨_, k₈, h₈, hr₈⟩ := run_bind_eq_ok.mp hr₇
    obtain ⟨rfl, rfl⟩ := Prod.mk.inj (run_pure_eq_ok.mp hr₈)
    -- copying the memory and the files keeps the table: the child is as `allocproc` left it
    have ht₆ : k₆.table = k₁.table := by
      rw [Sysfile.fork_sameTable p np h₆, liftVm_sameTable _ h₅, liftVm_sameTable _ h₄,
        modifyProc_sameTable np (by intro; rfl) h₃, ht₂]
    have hn₆ : (k₆.proc np).node = { k.table.node np with pid := k.nextpid, state := .USED } := by
      rw [← KState.table_node, ht₆, ht₁, Table.set_node_self]
    have hn₇ : (k₇.proc np).node =
        { k.table.node np with pid := k.nextpid, parent := some p, state := .USED } := by
      rw [← KState.table_node, modifyProc_table h₇, Table.set_node_self]
      show { (k₆.proc np).node with parent := some p } = _
      rw [hn₆]
    refine .inr ⟨np, hnp, by rw [show (k₆.proc np).pid = k.nextpid from congrArg Slot.pid hn₆], ?_⟩
    rw [modifyProc_table h₈, modifyProc_table h₇, Table.set_set, ht₆, ht₁, Table.set_set]
    show k.table.bump.set np { (k₇.proc np).node with state := .RUNNABLE } = _
    rw [hn₇]

/-! ## `wakeup`, `reparent` and `exit` -/

/-- `t'` is `t` but that some children of `p` may have gone to `init` and some sleepers may have
become runnable: all that `reparent(p)` and `wakeup` do to the table. -/
structure Table.Adopt (p : Fin NPROC) (init : Option (Fin NPROC)) (t t' : Table) : Prop where
  nextpid : t'.nextpid = t.nextpid
  initproc : t'.initproc = t.initproc
  parent : ∀ x, (t'.node x).parent = (t.node x).parent ∨
    ((t.node x).parent = some p ∧ (t'.node x).parent = init)
  state : ∀ x, (t'.node x).state = (t.node x).state ∨
    ((t.node x).state = .SLEEPING ∧ (t'.node x).state = .RUNNABLE)
  chan : ∀ x, (t'.node x).chan = (t.node x).chan
  killed : ∀ x, (t'.node x).killed = (t.node x).killed
  xstate : ∀ x, (t'.node x).xstate = (t.node x).xstate
  pid : ∀ x, (t'.node x).pid = (t.node x).pid

lemma Table.Adopt.refl (p : Fin NPROC) (init : Option (Fin NPROC)) (t : Table) : t.Adopt p init t :=
  ⟨rfl, rfl, fun _ => .inl rfl, fun _ => .inl rfl, fun _ => rfl, fun _ => rfl, fun _ => rfl, fun _ => rfl⟩

lemma Table.Adopt.trans {p : Fin NPROC} {init : Option (Fin NPROC)} {t₁ t₂ t₃ : Table}
    (h₁ : t₁.Adopt p init t₂) (h₂ : t₂.Adopt p init t₃) : t₁.Adopt p init t₃ where
  nextpid := h₂.nextpid.trans h₁.nextpid
  initproc := h₂.initproc.trans h₁.initproc
  parent x := by
    rcases h₁.parent x with e₁ | ⟨e₁, e₁'⟩ <;> rcases h₂.parent x with e₂ | ⟨e₂, e₂'⟩
    · exact .inl (e₂.trans e₁)
    · exact .inr ⟨e₁ ▸ e₂, e₂'⟩
    · exact .inr ⟨e₁, e₂.trans e₁'⟩
    · exact .inr ⟨e₁, e₂'⟩
  state x := by
    rcases h₁.state x with e₁ | ⟨e₁, e₁'⟩ <;> rcases h₂.state x with e₂ | ⟨e₂, e₂'⟩
    · exact .inl (e₂.trans e₁)
    · exact .inr ⟨e₁ ▸ e₂, e₂'⟩
    · exact .inr ⟨e₁, e₂.trans e₁'⟩
    · rw [e₁'] at e₂
      cases e₂
  chan x := (h₂.chan x).trans (h₁.chan x)
  killed x := (h₂.killed x).trans (h₁.killed x)
  xstate x := (h₂.xstate x).trans (h₁.xstate x)
  pid x := (h₂.pid x).trans (h₁.pid x)

/-- Waking a sleeper is an adoption step. -/
lemma Table.Adopt.wake {t : Table} {x : Fin NPROC} (p : Fin NPROC) (init : Option (Fin NPROC))
    (hx : (t.node x).state = .SLEEPING) : t.Adopt p init (t.set x { t.node x with state := .RUNNABLE }) where
  nextpid := rfl
  initproc := rfl
  parent y := .inl (by by_cases e : y = x <;> simp [e])
  state y := by
    by_cases e : y = x
    · subst e
      exact .inr ⟨hx, by simp⟩
    · exact .inl (by simp [e])
  chan y := by by_cases e : y = x <;> simp [e]
  killed y := by by_cases e : y = x <;> simp [e]
  xstate y := by by_cases e : y = x <;> simp [e]
  pid y := by by_cases e : y = x <;> simp [e]

/-- Handing a child of `p` to `init` is an adoption step. -/
lemma Table.Adopt.adopt {t : Table} {x p : Fin NPROC} (init : Option (Fin NPROC))
    (hx : (t.node x).parent = some p) : t.Adopt p init (t.set x { t.node x with parent := init }) where
  nextpid := rfl
  initproc := rfl
  parent y := by
    by_cases e : y = x
    · subst e
      exact .inr ⟨hx, by simp⟩
    · exact .inl (by simp [e])
  state y := .inl (by by_cases e : y = x <;> simp [e])
  chan y := by by_cases e : y = x <;> simp [e]
  killed y := by by_cases e : y = x <;> simp [e]
  xstate y := by by_cases e : y = x <;> simp [e]
  pid y := by by_cases e : y = x <;> simp [e]

/-- `k'` is `k` after `reparent(p)` or `wakeup` calls, with `k`'s `initproc` as the new parent. -/
def Reparents (p : Fin NPROC) (k k' : KState) : Prop := k.table.Adopt p k.initproc k'.table

instance (p : Fin NPROC) : IsPreorder KState (Reparents p) where
  refl k := Table.Adopt.refl p _ _
  trans k₁ k₂ k₃ h₁ h₂ := by
    have e : k₂.initproc = k₁.initproc := h₁.initproc
    unfold Reparents at *
    rw [e] at h₂
    exact h₁.trans h₂

lemma Reparents.of_sameTable {p : Fin NPROC} {k k' : KState} (h : SameTable k k') : Reparents p k k' := by
  unfold Reparents SameTable at *
  rw [h]
  exact Table.Adopt.refl _ _ _

/-- `wakeup` only makes sleepers runnable. -/
lemma wakeup_reparents (caller : Fin NPROC) (chan : Option (Fin NPROC)) (p : Fin NPROC) :
    Preserves (Reparents p) (wakeup caller chan) := by
  refine .forM fun x _ => ?_
  intro k u k' h
  split at h
  · rw [run_get_bind] at h
    dsimp only at h
    split at h
    · rename_i hc
      have hs : (k.table.node x).state = .SLEEPING := by
        simpa using (Bool.and_eq_true_iff.mp hc).1
      rw [run_modifyProc] at h
      obtain ⟨-, rfl⟩ := Prod.mk.inj (Except.ok.inj h)
      show k.table.Adopt p k.initproc ({ k with proc := _ } : KState).table
      rw [KState.table_update]
      exact Table.Adopt.wake p _ hs
    · obtain ⟨-, rfl⟩ := Prod.mk.inj (run_pure_eq_ok.mp h)
      exact Table.Adopt.refl _ _ _
  · obtain ⟨-, rfl⟩ := Prod.mk.inj (run_pure_eq_ok.mp h)
    exact Table.Adopt.refl _ _ _

/-- One round of `reparent(p)`: if `pp` is a child of `p` it goes to `initproc`, which is not
`p`, and sleepers on `initproc` wake. -/
lemma reparent_round {p pp : Fin NPROC} {k k' : KState} {u : PUnit}
    (h : (do
      if ((← get).proc pp).parent == some p then do
        let init := (← get).initproc
        modifyProc pp fun q => { q with parent := init }
        wakeup p init : KM Unit).run k = .ok (u, k'))
    (hinit : k.initproc ≠ some p) : Reparents p k k' ∧ (k'.proc pp).parent ≠ some p := by
  rw [run_get_bind] at h
  split at h
  · rename_i hc
    rw [run_get_bind] at h
    obtain ⟨_, k₁, h₁, h₂⟩ := run_bind_eq_ok.mp h
    have ht₁ : k₁.table = k.table.set pp { k.table.node pp with parent := k.initproc } :=
      modifyProc_table h₁
    have hr₁ : Reparents p k k₁ := by
      unfold Reparents
      rw [ht₁]
      exact Table.Adopt.adopt _ (by simpa using hc)
    have hi₁ : k₁.initproc = k.initproc := congrArg Table.initproc ht₁
    have hr₂ := wakeup_reparents p k.initproc p h₂
    refine ⟨IsTrans.trans _ _ _ hr₁ hr₂, ?_⟩
    -- the wakeup keeps the parent `initproc` gave the child
    have hpar : (k₁.proc pp).parent = k.initproc := by
      rw [← Proc.node_parent, ← KState.table_node, ht₁, Table.set_node_self]
    rcases hr₂.parent pp with e | ⟨e, -⟩
    · rw [← Proc.node_parent, ← KState.table_node, e, KState.table_node, Proc.node_parent, hpar]
      exact hinit
    · rw [KState.table_node, Proc.node_parent, hpar] at e
      exact absurd e hinit
  · rename_i hc
    obtain ⟨-, rfl⟩ := Prod.mk.inj (run_pure_eq_ok.mp h)
    exact ⟨Std.Refl.refl _, by simpa using hc⟩

/-- `reparent(p)` hands every child of `p` to `initproc`. -/
lemma reparent_table {p : Fin NPROC} {k k' : KState} (h : (reparent p).run k = .ok ((), k'))
    (hinit : k.initproc ≠ some p) : Reparents p k k' ∧ ∀ x, (k'.proc x).parent ≠ some p := by
  have := forM_inv (fun ys s => Reparents p k s ∧ ∀ x ∈ ys, (s.proc x).parent ≠ some p)
    (fun ys pp zs _ s s' ⟨hs, hys⟩ hround => by
      have hi : s.initproc = k.initproc := hs.initproc
      obtain ⟨hr, hpp⟩ := reparent_round hround (hi ▸ hinit)
      refine ⟨IsTrans.trans _ _ _ hs hr, fun x hx => ?_⟩
      rcases List.mem_append.mp hx with hx | hx
      · rcases hr.parent x with e | ⟨e, -⟩
        · have e' : (s'.proc x).parent = (s.proc x).parent := by simpa using e
          rw [e']
          exact hys x hx
        · exact absurd (by simpa using e) (hys x hx)
      · rw [List.mem_singleton.mp hx]
        exact hpp)
    ⟨Std.Refl.refl _, fun _ h => absurd h List.not_mem_nil⟩ h
  exact ⟨this.1, fun x => this.2 x (List.mem_finRange x)⟩

/-- What `exit(status)` in `p` does to the table: `p` is not `initproc`; the children of `p` go to
`initproc`, some sleepers wake, and `p` becomes a zombie with its status. -/
lemma exit_table {p : Fin NPROC} {status : Int32} {k k' : KState}
    (h : (Proc.exit p status).run k = .ok ((), k')) :
    k.initproc ≠ some p ∧ ∃ t, k.table.Adopt p k.initproc t ∧ (∀ x, (t.node x).parent ≠ some p) ∧
      k'.table = t.set p { t.node p with xstate := status, state := .ZOMBIE } := by
  rw [Proc.exit, run_get_bind] at h
  dsimp only at h
  split at h
  · obtain ⟨_, _, ht, -⟩ := run_bind_eq_ok.mp h
    exact absurd ht run_throw_ne_ok
  rename_i hne
  have hinit : k.initproc ≠ some p := by simpa using hne
  obtain ⟨_, k₁, h₁, hr₁⟩ := run_bind_eq_ok.mp h
  obtain ⟨_, k₂, h₂, hr₂⟩ := run_bind_eq_ok.mp hr₁
  rw [run_get_bind] at hr₂
  obtain ⟨_, k₃, h₃, h₄⟩ := run_bind_eq_ok.mp hr₂
  -- closing the files keeps the table; `reparent` and the wakeup of the parent adopt
  have ht₁ : k₁.table = k.table := Sysfile.exit_sameTable p h₁
  have hi₁ : k₁.initproc = k.initproc := congrArg Table.initproc ht₁
  obtain ⟨hr₂, hpar₂⟩ := reparent_table h₂ (hi₁ ▸ hinit)
  have hr₃ := wakeup_reparents p _ p h₃
  refine ⟨hinit, k₃.table, ?_, fun x => ?_, modifyProc_table h₄⟩
  · have h₁₃ : Reparents p k₁ k₃ := IsTrans.trans _ _ _ hr₂ hr₃
    unfold Reparents at h₁₃
    rwa [ht₁, hi₁] at h₁₃
  · rcases hr₃.parent x with e | ⟨e, -⟩
    · rw [e]
      simpa using hpar₂ x
    · exact absurd (by simpa using e) (hpar₂ x)

/-! ## `wait`, `kill` and `userinit` -/

/-- What one round of `wait(addr)` in `p` does: it reaps the first zombie child, after copying its
status out to a non-null `addr`, and returns its pid; or that copy fails and it returns `-1`;
or, with no zombie child, it returns `-1` and changes nothing, or puts `p` to sleep on itself. -/
lemma wait_table {p : Fin NPROC} {addr : UInt64} {k k' : KState} {r : Option Int}
    (h : (wait p addr).run k = .ok (r, k')) :
    (∃ pp, k.table.zombieChild p = some pp ∧
      ((r = some (k.proc pp).pid.toInt ∧ k'.table = k.table.set pp .free ∧
          (addr ≠ 0 → ∃ vm₁, (Vm.copyout (k.proc p).pagetable addr (intBytes (k.proc pp).xstate) 4).run k.vm =
            .ok (0, vm₁))) ∨
        (r = some (-1) ∧ k'.table = k.table))) ∨
    (k.table.zombieChild p = none ∧
      ((r = some (-1) ∧ k' = k) ∨
        (r = none ∧ k'.table = k.table.set p { k.table.node p with chan := some p, state := .SLEEPING }))) := by
  rw [wait, run_get_bind] at h
  split at h
  · rename_i pp hpp
    refine .inl ⟨pp, hpp, ?_⟩
    extract_lets pid jp at h
    -- after the copy: `-1` if it failed, or the child is freed and its pid returned
    have hjp : ∀ c k₁, k₁.table = k.table → (jp c).run k₁ = .ok (r, k') →
        (r = some pid.toInt ∧ k'.table = k.table.set pp .free ∧ ¬c < 0) ∨
          (r = some (-1) ∧ k'.table = k.table) := by
      intro c k₁ ht₁ hr₁
      simp only [jp] at hr₁
      split at hr₁
      · obtain ⟨rfl, rfl⟩ := Prod.mk.inj (run_pure_eq_ok.mp hr₁)
        exact .inr ⟨rfl, ht₁⟩
      · rename_i hnonneg
        obtain ⟨_, k₂, h₂, hr₂⟩ := run_bind_eq_ok.mp hr₁
        obtain ⟨rfl, rfl⟩ := Prod.mk.inj (run_pure_eq_ok.mp hr₂)
        exact .inl ⟨rfl, by rw [freeproc_table h₂, ht₁], hnonneg⟩
    split at h
    · -- the copy of the status to `addr`
      rename_i ha
      obtain ⟨c, k₁, h₁, hr₁⟩ := run_bind_eq_ok.mp h
      obtain ⟨vm₁, hv, rfl⟩ := liftVm_eq_ok.mp h₁
      rcases hjp c _ (KState.table_vm k vm₁) hr₁ with ⟨hr, ht, hc⟩ | hfail
      · -- a copy that did not fail returned `0`
        refine .inl ⟨hr, ht, fun _ => ⟨vm₁, ?_⟩⟩
        rcases Vm.copyoutLoop_result hv with rfl | rfl
        · exact hv
        · exact absurd (by decide) hc
      · exact .inr hfail
    · rename_i ha
      obtain ⟨c, k₁, h₁, hr₁⟩ := run_bind_eq_ok.mp h
      obtain ⟨rfl, hk⟩ := Prod.mk.inj (run_pure_eq_ok.mp h₁)
      rw [hk] at hr₁
      rcases hjp 0 k rfl hr₁ with ⟨hr, ht, -⟩ | hfail
      · exact .inl ⟨hr, ht, fun ha' => absurd (by simpa using ha) ha'⟩
      · exact .inr hfail
  · rename_i hnone
    refine .inr ⟨hnone, ?_⟩
    dsimp only at h
    split at h
    · obtain ⟨rfl, rfl⟩ := Prod.mk.inj (run_pure_eq_ok.mp h)
      exact .inl ⟨rfl, rfl⟩
    · obtain ⟨_, k₁, h₁, hr₁⟩ := run_bind_eq_ok.mp h
      obtain ⟨rfl, rfl⟩ := Prod.mk.inj (run_pure_eq_ok.mp hr₁)
      exact .inr ⟨rfl, modifyProc_table h₁⟩

/-- The slot `kill` leaves: marked killed, and woken if it slept. -/
def Proc.mark (q : Proc) : Proc :=
  { q with killed := 1, state := if q.state == .SLEEPING then .RUNNABLE else q.state }

/-- The table slot `kill` leaves. -/
def Slot.mark (n : Slot) : Slot :=
  { n with killed := 1, state := if n.state = .SLEEPING then .RUNNABLE else n.state }

@[simp] lemma Proc.mark_node (q : Proc) : q.mark.node = q.node.mark := by
  unfold Proc.mark Slot.mark Proc.node
  by_cases h : q.state = .SLEEPING <;> simp [h]

/-- `kill(pid)` marks the first slot whose pid matches, in whatever state it is; with none it
returns `-1` and changes nothing. -/
lemma kill_run (pid : Int32) (k : KState) :
    (kill pid).run k = match k.table.findPid pid with
      | some x => .ok (0, { k with proc := Function.update k.proc x (k.proc x).mark })
      | none => .ok (-1, k) := by
  rw [kill, run_get_bind]
  show (match k.table.findPid pid with
    | some p => (modifyProc p Proc.mark) >>= fun _ => pure 0
    | none => pure (-1)).run k = _
  split <;> rfl

lemma kill_table {pid : Int32} {k k' : KState} {r : Int} (h : (kill pid).run k = .ok (r, k')) :
    (∃ x, k.table.findPid pid = some x ∧ r = 0 ∧ k'.table = k.table.set x (k.table.node x).mark) ∨
      (k.table.findPid pid = none ∧ r = -1 ∧ k' = k) := by
  rw [kill_run] at h
  split at h
  · rename_i x hx
    obtain ⟨rfl, rfl⟩ := Prod.mk.inj (Except.ok.inj h).symm
    refine .inl ⟨x, hx, rfl, ?_⟩
    rw [KState.table_update, Proc.mark_node, KState.table_node]
  · rename_i hx
    obtain ⟨rfl, rfl⟩ := Prod.mk.inj (Except.ok.inj h).symm
    exact .inr ⟨hx, rfl, rfl⟩

/-- What `userinit` does to the table: the first `UNUSED` slot becomes `initproc`, runnable,
with the next pid. -/
lemma userinit_table {k k' : KState} (h : userinit.run k = .ok ((), k')) :
    ∃ p, k.table.firstUnused = some p ∧
      k'.table = { k.table.bump.set p { k.table.node p with pid := k.nextpid, state := .RUNNABLE } with
        initproc := some p } := by
  obtain ⟨a, k₁, h₁, hr₁⟩ := run_bind_eq_ok.mp h
  rcases allocproc_table h₁ with ⟨-, rfl, rfl⟩ | ⟨np, hnp, ⟨rfl, -⟩ | ⟨rfl, ht₁⟩⟩
  · exact absurd hr₁ run_throw_ne_ok
  · exact absurd hr₁ run_throw_ne_ok
  refine ⟨np, hnp, ?_⟩
  dsimp only at hr₁
  obtain ⟨_, k₂, h₂, hr₂⟩ := run_bind_eq_ok.mp hr₁
  obtain ⟨-, rfl⟩ := Prod.mk.inj (run_modify_eq_ok.mp h₂)
  rw [run_get_bind] at hr₂
  obtain ⟨_, k₃, h₃, hr₃⟩ := run_bind_eq_ok.mp hr₂
  obtain ⟨_, k₄, h₄, hr₄⟩ := run_bind_eq_ok.mp hr₃
  obtain ⟨_, k₅, h₅, hr₅⟩ := run_bind_eq_ok.mp hr₄
  obtain ⟨_, k₆, h₆, hr₆⟩ := run_bind_eq_ok.mp hr₅
  obtain ⟨_, k₇, h₇, h₈⟩ := run_bind_eq_ok.mp hr₆
  -- the first process's memory and working directory keep the table
  have ht₇ : k₇.table = { k₁.table with initproc := some np } := by
    rw [liftFs_sameTable _ h₇, liftVm_sameTable _ h₆, liftVm_sameTable _ h₅,
      modifyProc_sameTable np (by intro; rfl) h₄, liftVm_sameTable _ h₃]
    rfl
  have hn : (k₇.proc np).node = { k.table.node np with pid := k.nextpid, state := .USED } := by
    rw [← KState.table_node, ht₇]
    show k₁.table.node np = _
    rw [ht₁, Table.set_node_self]
  rw [modifyProc_table h₈, ht₇, ht₁]
  refine Table.ext ?_ rfl rfl
  show Function.update (Function.update k.table.node np _) np _ = Function.update k.table.node np _
  rw [Function.update_idem]
  congr 1
  show { (k₇.proc np).node with state := .RUNNABLE } = _
  rw [hn]

/-- The kernel before `userinit`: the zeroed process table, `nextpid = 1` and no `initproc`. -/
structure Boot (k : KState) : Prop where
  proc : ∀ x, (k.proc x).node = .free
  nextpid : k.nextpid = 1
  initproc : k.initproc = none

/-- Slot 0 of the table, where `userinit` puts the first process. -/
def slot0 : Fin NPROC := ⟨0, NPROC_pos⟩

/-- The table `userinit` leaves: the first process in slot 0, runnable, with pid 1. -/
def Table.boot : Table :=
  ⟨Function.update (fun _ => .free) slot0 { Slot.free with pid := 1, state := .RUNNABLE }, 2, some slot0⟩

lemma Boot.firstUnused {k : KState} (hk : Boot k) : k.table.firstUnused = some slot0 := by
  have hrange : List.finRange NPROC = slot0 :: (List.finRange 63).map Fin.succ := List.finRange_succ
  rw [Table.firstUnused, hrange, List.find?_cons_of_pos]
  simp [hk.proc, Slot.free]

/-- From the zeroed table, `userinit` leaves `Table.boot`. -/
lemma Boot.userinit_eq_boot {k k' : KState} (hk : Boot k) (h : userinit.run k = .ok ((), k')) :
    k'.table = Table.boot := by
  obtain ⟨p, hp, ht⟩ := userinit_table h
  rw [hk.firstUnused, Option.some.injEq] at hp
  subst hp
  rw [ht]
  refine Table.ext (funext fun x => ?_) (by simp [hk.nextpid]; rfl) rfl
  by_cases e : x = slot0
  · subst e
    simp [Table.boot, hk.proc, hk.nextpid]
  · simp [Table.boot, e, hk.proc]

end Xv6
