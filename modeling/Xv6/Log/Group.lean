import Xv6.Log.Basic

/-!
# Group commit

Model of the admission protocol of `begin_op` and `end_op` in `kernel/log.c`. Every file-system
system call is a thread with a `Phase`; each step is one critical section under `log.lock`:
one pass through `begin_op`'s loop (admit, or sleep), a `log_write`, the first half of `end_op`
(which may elect the caller to commit), the `commit()` that the elected caller runs without the
lock, and the second half of `end_op` that clears `log.committing`. A sleeping `begin_op` may
retry at any time, so the model allows every wakeup order, spurious ones included.

Two fields are ghost: `epoch` counts the commits begun so far, and an admitted call remembers
the epoch of its admission and the blocks it has passed to `log_write`. They let the isolation
theorem say that a call's updates all land in one transaction.

The invariant `Isolated` ties `log.outstanding` to the number of admitted calls and
`log.committing` to the presence of the one committer, and says that while a commit runs no
call is admitted. `Isolated.step` proves it preserved by each kind of step, from the step
lemmas `begin_op_ok`, `log_write_ok`, `end_op_ok`, `commit_ok`, `end_commit_ok`.
-/

namespace Xv6

/-- Where one FS system call stands in the log protocol. An `active` call carries, as ghost
data, the number of commits begun before its admission and the blocks it has logged. -/
inductive Phase where
  | idle
  | waiting
  | active (epoch : Nat) (logged : List Nat)
  | committing
  | finishing
  deriving DecidableEq, Repr

namespace Phase

/-- Between `begin_op` and `end_op`. -/
def isActive : Phase → Bool
  | .active _ _ => true
  | _ => false

/-- Elected by `end_op` to commit and not yet done clearing `log.committing`. -/
def isCommitter : Phase → Bool
  | .committing | .finishing => true
  | _ => false

end Phase

/-- The next thing a thread does. -/
inductive Act where
  | begin_op
  | log_write (b : UInt32)
  | end_op
  | commit
  | end_commit
  deriving DecidableEq, Repr

/-- The log's lock-protected state, the phase of every thread, and the ghost commit counter. -/
structure Sys (Tid : Type) where
  log : Log
  phase : Tid → Phase
  epoch : Nat

namespace Sys

variable {Tid : Type} [DecidableEq Tid]

/-- The state after `initlog`: nothing outstanding, no commit, an empty header. -/
def boot (l : Log) : Sys Tid :=
  ⟨{ l with outstanding := 0, committing := false, lh := [] }, fun _ => .idle, 0⟩

/-- Move thread `t` to phase `p`. -/
def setPhase (s : Sys Tid) (t : Tid) (p : Phase) : Sys Tid :=
  { s with phase := Function.update s.phase t p }

/-- One pass through `begin_op`'s loop: sleep while a commit runs or the log might overflow,
otherwise count the call as outstanding. -/
def begin_op (s : Sys Tid) (t : Tid) : Option (Sys Tid) :=
  match s.phase t with
  | .idle | .waiting =>
    if s.log.committing then some (s.setPhase t .waiting)
    else if (LOGSIZE : Int) < s.log.lh.length + (s.log.outstanding + 1) * MAXOPBLOCKS then
      some (s.setPhase t .waiting)
    else
      some { s with log := { s.log with outstanding := s.log.outstanding + 1 }
                    phase := Function.update s.phase t (.active s.epoch []) }
  | _ => none

/-- A `log_write` by an admitted call. -/
def log_write (s : Sys Tid) (t : Tid) (b : UInt32) : Option (Except String (Sys Tid)) :=
  match s.phase t with
  | .active e bs =>
    some ((Log.log_write s.log b).map fun l =>
      { s with log := l, phase := Function.update s.phase t (.active e (bs ++ [b.toNat])) })
  | _ => none

/-- The first half of `end_op`: the call is no longer outstanding; the last one out commits. -/
def end_op (s : Sys Tid) (t : Tid) : Option (Except String (Sys Tid)) :=
  match s.phase t with
  | .active _ _ =>
    let l := { s.log with outstanding := s.log.outstanding - 1 }
    if l.committing then some (.error "log.committing")
    else if l.outstanding = 0 then
      some (.ok ⟨{ l with committing := true }, Function.update s.phase t .committing, s.epoch + 1⟩)
    else some (.ok { s with log := l, phase := Function.update s.phase t .idle })
  | _ => none

/-- The elected caller runs `commit()`, outside the lock; it empties the in-memory header. -/
def commit (s : Sys Tid) (t : Tid) : Option (Sys Tid) :=
  match s.phase t with
  | .committing => some { s with log := { s.log with lh := [] }
                                 phase := Function.update s.phase t .finishing }
  | _ => none

/-- The second half of `end_op` after a commit: clear `log.committing` and wake the sleepers. -/
def end_commit (s : Sys Tid) (t : Tid) : Option (Sys Tid) :=
  match s.phase t with
  | .finishing => some { s with log := { s.log with committing := false }
                                phase := Function.update s.phase t .idle }
  | _ => none

/-- Thread `t` takes its next step: `none` when the step is not the thread's next one,
`.error` when the kernel panics. -/
def step (s : Sys Tid) (t : Tid) : Act → Option (Except String (Sys Tid))
  | .begin_op => (s.begin_op t).map .ok
  | .log_write b => s.log_write t b
  | .end_op => s.end_op t
  | .commit => (s.commit t).map .ok
  | .end_commit => (s.end_commit t).map .ok

/-- The states reachable from a boot by any interleaving of steps that do not panic. -/
inductive Reachable (l : Log) : Sys Tid → Prop
  | boot : Reachable l (boot l)
  | step {s s' : Sys Tid} (t : Tid) (a : Act) : Reachable l s → s.step t a = some (.ok s') →
      Reachable l s'

/-- Run a schedule: `none` if some step is not its thread's next one, the first panic, or the
final state. -/
def exec (s : Sys Tid) : List (Tid × Act) → Option (Except String (Sys Tid))
  | [] => some (.ok s)
  | (t, a) :: as =>
    match s.step t a with
    | some (.ok s') => exec s' as
    | r => r

/-- Every successful schedule from a reachable state ends in a reachable state. -/
lemma Reachable.exec {l : Log} {s s' : Sys Tid} (hs : Reachable l s) :
    ∀ {as : List (Tid × Act)}, Sys.exec s as = some (.ok s') → Reachable l s'
  | [], h => by cases h; exact hs
  | (t, a) :: as, h => by
    simp only [Sys.exec] at h
    cases hstep : s.step t a with
    | none => rw [hstep] at h; cases h
    | some r =>
      cases r with
      | error e => rw [hstep] at h; cases h
      | ok s₁ =>
        rw [hstep] at h
        exact (Reachable.step t a hs hstep).exec h

/-! ## What each step does -/

lemma begin_op_ok {s s' : Sys Tid} {t : Tid} (h : s.begin_op t = some s') :
    (s.phase t = .idle ∨ s.phase t = .waiting) ∧
      (s' = s.setPhase t .waiting ∨
        (s.log.committing = false ∧
          s.log.lh.length + (s.log.outstanding + 1) * MAXOPBLOCKS ≤ (LOGSIZE : Int) ∧
          s' = { s with log := { s.log with outstanding := s.log.outstanding + 1 }
                        phase := Function.update s.phase t (.active s.epoch []) })) := by
  cases hp : s.phase t <;> simp only [begin_op, hp, reduceCtorEq] at h
  all_goals
    refine ⟨by simp, ?_⟩
    split at h
    · exact .inl (Option.some.inj h).symm
    · split at h
      · exact .inl (Option.some.inj h).symm
      · exact .inr ⟨by simpa using ‹¬s.log.committing = true›, by omega, (Option.some.inj h).symm⟩

lemma log_write_ok {s s' : Sys Tid} {t : Tid} {b : UInt32}
    (h : s.log_write t b = some (.ok s')) :
    ∃ e bs l', s.phase t = .active e bs ∧ Log.log_write s.log b = .ok l' ∧
      s' = { s with log := l', phase := Function.update s.phase t (.active e (bs ++ [b.toNat])) } := by
  cases hp : s.phase t <;> simp only [log_write, hp, reduceCtorEq, Option.some.injEq] at h
  rename_i e bs
  cases hl : Log.log_write s.log b with
  | error msg => rw [hl] at h; cases h
  | ok l' =>
    rw [hl] at h
    exact ⟨e, bs, l', rfl, rfl, (Except.ok.inj h).symm⟩

lemma end_op_ok {s s' : Sys Tid} {t : Tid} (h : s.end_op t = some (.ok s')) :
    ∃ e bs, s.phase t = .active e bs ∧ s.log.committing = false ∧
      ((s.log.outstanding - 1 = 0 ∧
          s' = ⟨{ s.log with outstanding := s.log.outstanding - 1, committing := true },
            Function.update s.phase t .committing, s.epoch + 1⟩) ∨
        (s.log.outstanding - 1 ≠ 0 ∧
          s' = { s with log := { s.log with outstanding := s.log.outstanding - 1 }
                        phase := Function.update s.phase t .idle })) := by
  cases hp : s.phase t <;> simp only [end_op, hp, reduceCtorEq] at h
  rename_i e bs
  refine ⟨e, bs, rfl, ?_⟩
  split at h
  · cases h
  · rename_i hc
    refine ⟨by simpa using hc, ?_⟩
    split at h
    · exact .inl ⟨‹_›, (Except.ok.inj (Option.some.inj h)).symm⟩
    · exact .inr ⟨‹_›, (Except.ok.inj (Option.some.inj h)).symm⟩

lemma end_op_error {s : Sys Tid} {t : Tid} {msg : String} (h : s.end_op t = some (.error msg)) :
    ∃ e bs, s.phase t = .active e bs ∧ s.log.committing = true ∧ msg = "log.committing" := by
  cases hp : s.phase t <;> simp only [end_op, hp, reduceCtorEq] at h
  rename_i e bs
  refine ⟨e, bs, rfl, ?_⟩
  split at h
  · exact ⟨by simpa using ‹_›, (Except.error.inj (Option.some.inj h)).symm⟩
  · split at h <;> cases h

lemma commit_ok {s s' : Sys Tid} {t : Tid} (h : s.commit t = some s') :
    s.phase t = .committing ∧
      s' = { s with log := { s.log with lh := [] }, phase := Function.update s.phase t .finishing } := by
  cases hp : s.phase t <;> simp only [commit, hp, reduceCtorEq, Option.some.injEq] at h
  exact ⟨rfl, h.symm⟩

lemma end_commit_ok {s s' : Sys Tid} {t : Tid} (h : s.end_commit t = some s') :
    s.phase t = .finishing ∧
      s' = { s with log := { s.log with committing := false }
                    phase := Function.update s.phase t .idle } := by
  cases hp : s.phase t <;> simp only [end_commit, hp, reduceCtorEq, Option.some.injEq] at h
  exact ⟨rfl, h.symm⟩

omit [DecidableEq Tid] in
/-- The steps that cannot panic succeed exactly when their function does. -/
lemma ok_of_map_ok {o : Option (Sys Tid)} {s' : Sys Tid}
    (h : o.map (Except.ok : Sys Tid → Except String (Sys Tid)) = some (.ok s')) : o = some s' := by
  obtain ⟨s₁, h₁, e⟩ := Option.map_eq_some_iff.1 h
  cases e
  exact h₁

/-- No step moves the log or changes its size. -/
lemma step_log_size {s s' : Sys Tid} {t : Tid} {a : Act} (h : s.step t a = some (.ok s')) :
    s'.log.start = s.log.start ∧ s'.log.size = s.log.size := by
  cases a with
  | begin_op =>
    obtain ⟨-, rfl | ⟨-, -, rfl⟩⟩ := begin_op_ok (ok_of_map_ok h) <;> exact ⟨rfl, rfl⟩
  | log_write b =>
    obtain ⟨-, -, l', -, hl, rfl⟩ := log_write_ok h
    obtain ⟨hstart, hsize, -⟩ := Log.log_write_ok hl
    exact ⟨hstart, hsize⟩
  | end_op =>
    obtain ⟨-, -, -, -, ⟨-, rfl⟩ | ⟨-, rfl⟩⟩ := end_op_ok h <;> exact ⟨rfl, rfl⟩
  | commit =>
    obtain ⟨-, rfl⟩ := commit_ok (ok_of_map_ok h)
    exact ⟨rfl, rfl⟩
  | end_commit =>
    obtain ⟨-, rfl⟩ := end_commit_ok (ok_of_map_ok h)
    exact ⟨rfl, rfl⟩

/-- The log keeps the place and size that `initlog` gave it. -/
lemma Reachable.log_size {l : Log} {s : Sys Tid} (hs : Reachable l s) :
    s.log.start = l.start ∧ s.log.size = l.size := by
  induction hs with
  | boot => exact ⟨rfl, rfl⟩
  | step t a _ hstep ih =>
    obtain ⟨hstart, hsize⟩ := step_log_size hstep
    exact ⟨hstart.trans ih.1, hsize.trans ih.2⟩

/-! ## The isolation invariant -/

/-- The calls between `begin_op` and `end_op`. -/
def activeSet [Fintype Tid] (f : Tid → Phase) : Finset Tid :=
  Finset.univ.filter fun t => (f t).isActive

omit [DecidableEq Tid] in
lemma mem_activeSet [Fintype Tid] {f : Tid → Phase} {t : Tid} :
    t ∈ activeSet f ↔ (f t).isActive := by
  simp [activeSet]

/-- Moving one thread changes the set of active calls by that thread alone. -/
lemma activeSet_update [Fintype Tid] (f : Tid → Phase) (t : Tid) (p : Phase) :
    activeSet (Function.update f t p) =
      if p.isActive then insert t ((activeSet f).erase t) else (activeSet f).erase t := by
  ext u
  by_cases hu : u = t
  · subst hu
    split <;> simp_all [mem_activeSet]
  · split <;> simp [mem_activeSet, hu]

/-- A thread that is not active stays out of the active set when it moves to a phase that is
not active either. -/
lemma activeSet_update_of_not [Fintype Tid] {f : Tid → Phase} {t : Tid} {p : Phase}
    (hold : (f t).isActive = false) (hnew : p.isActive = false) :
    activeSet (Function.update f t p) = activeSet f := by
  rw [activeSet_update, if_neg (by simp [hnew])]
  exact Finset.erase_eq_of_notMem (by simp [mem_activeSet, hold])

lemma exists_committer_update {f : Tid → Phase} {t : Tid} {p : Phase} :
    (∃ u, (Function.update f t p u).isCommitter) ↔ p.isCommitter ∨ ∃ u ≠ t, (f u).isCommitter := by
  constructor
  · rintro ⟨u, hu⟩
    by_cases e : u = t
    · subst e
      exact .inl (by simpa using hu)
    · exact .inr ⟨u, e, by simpa [Function.update_of_ne e] using hu⟩
  · rintro (hp | ⟨u, e, hu⟩)
    · exact ⟨t, by simpa using hp⟩
    · exact ⟨u, by simpa [Function.update_of_ne e] using hu⟩

/-- Moving a thread that is no committer to a phase that is none keeps the committers. -/
lemma exists_committer_update_of_not {f : Tid → Phase} {t : Tid} (p : Phase)
    (hold : (f t).isCommitter = false) (hnew : p.isCommitter = false) :
    (∃ u, (Function.update f t p u).isCommitter) ↔ ∃ u, (f u).isCommitter := by
  rw [exists_committer_update]
  constructor
  · rintro (h | ⟨u, -, hu⟩)
    · simp [hnew] at h
    · exact ⟨u, hu⟩
  · rintro ⟨u, hu⟩
    have : u ≠ t := fun e => by subst e; simp [hold] at hu
    exact .inr ⟨u, this, hu⟩

/-- Committers stay unique when a thread moves to a phase that is no committer. -/
lemma one_committer_update_of_not {f : Tid → Phase} {t : Tid} {p : Phase}
    (hone : ∀ u v, (f u).isCommitter → (f v).isCommitter → u = v) (hnew : p.isCommitter = false) :
    ∀ u v, (Function.update f t p u).isCommitter → (Function.update f t p v).isCommitter → u = v := by
  intro u v hu hv
  have hu' : u ≠ t := fun e => by subst e; simp [hnew] at hu
  have hv' : v ≠ t := fun e => by subst e; simp [hnew] at hv
  rw [Function.update_of_ne hu'] at hu
  rw [Function.update_of_ne hv'] at hv
  exact hone u v hu hv

/-- The invariant of the protocol: `log.outstanding` counts the admitted calls, `log.committing`
is set exactly while the one elected caller commits, no call is admitted meanwhile, and every
admitted call was admitted after the last commit began and finds all its blocks in the
in-memory header. -/
structure Isolated [Fintype Tid] (s : Sys Tid) : Prop where
  outstanding : s.log.outstanding = (activeSet s.phase).card
  committing : s.log.committing = true ↔ ∃ t, (s.phase t).isCommitter
  one_committer : ∀ t u, (s.phase t).isCommitter → (s.phase u).isCommitter → t = u
  quiet : s.log.committing = true → activeSet s.phase = ∅
  current : ∀ t e bs, s.phase t = .active e bs → e = s.epoch ∧ ∀ b ∈ bs, b ∈ s.log.lh

variable [Fintype Tid]

omit [DecidableEq Tid] in
lemma Isolated.boot (l : Log) : Isolated (boot l : Sys Tid) := by
  refine ⟨?_, ?_, fun _ _ h => ?_, fun h => ?_, fun _ _ _ h => ?_⟩
  · simp [Sys.boot, activeSet, Phase.isActive]
  · simp [Sys.boot, Phase.isCommitter]
  · simp [Sys.boot, Phase.isCommitter] at h
  · simp [Sys.boot] at h
  · simp [Sys.boot] at h

omit [DecidableEq Tid] in
lemma Isolated.not_committing_of_active {s : Sys Tid} (hi : Isolated s) {t : Tid}
    (ht : (s.phase t).isActive) : s.log.committing = false := by
  by_contra hc
  have := hi.quiet (by simpa using hc)
  rw [Finset.eq_empty_iff_forall_notMem] at this
  exact this t (mem_activeSet.2 ht)

lemma Isolated.begin_op {s s' : Sys Tid} {t : Tid} (hi : Isolated s) (h : s.begin_op t = some s') :
    Isolated s' := by
  obtain ⟨hp, hs'⟩ := begin_op_ok h
  -- the thread is neither active nor a committer before the step
  have hact : (s.phase t).isActive = false := by rcases hp with hp | hp <;> simp [hp, Phase.isActive]
  have hcom : (s.phase t).isCommitter = false := by
    rcases hp with hp | hp <;> simp [hp, Phase.isCommitter]
  rcases hs' with rfl | ⟨hc, -, rfl⟩
  · -- the call sleeps
    have hset : activeSet (Function.update s.phase t .waiting) = activeSet s.phase :=
      activeSet_update_of_not hact rfl
    refine ⟨?_, ?_, one_committer_update_of_not hi.one_committer rfl, fun h => ?_,
      fun u e bs hu => ?_⟩
    · simpa [setPhase, hset] using hi.outstanding
    · simpa [setPhase, exists_committer_update_of_not .waiting hcom rfl] using hi.committing
    · simpa [setPhase, hset] using hi.quiet h
    · have hne : u ≠ t := fun e' => by subst e'; simp [setPhase] at hu
      simp only [setPhase, Function.update_of_ne hne] at hu
      exact hi.current u e bs hu
  · -- the call is admitted
    have hnot : t ∉ activeSet s.phase := by simp [mem_activeSet, hact]
    have hset : activeSet (Function.update s.phase t (.active s.epoch [])) =
        insert t (activeSet s.phase) := by
      simp [activeSet_update, Phase.isActive, Finset.erase_eq_of_notMem hnot]
    refine ⟨?_, ?_, one_committer_update_of_not hi.one_committer rfl, fun h => ?_,
      fun u e bs hu => ?_⟩
    · simp [hset, Finset.card_insert_of_notMem hnot, hi.outstanding]
    · simpa [exists_committer_update_of_not (.active s.epoch []) hcom rfl] using hi.committing
    · simp [hc] at h
    · by_cases hne : u = t
      · subst hne
        simp at hu
        obtain ⟨rfl, rfl⟩ := hu
        simp
      · simp only [Function.update_of_ne hne] at hu
        exact hi.current u e bs hu

lemma Isolated.log_write {s s' : Sys Tid} {t : Tid} {b : UInt32} (hi : Isolated s)
    (h : s.log_write t b = some (.ok s')) : Isolated s' := by
  obtain ⟨e, bs, l', hp, hl, rfl⟩ := log_write_ok h
  obtain ⟨-, -, hout, hcomm, -, habs⟩ := Log.log_write_ok hl
  -- the header only grows, and now holds `b`
  have hkeep : ∀ x ∈ s.log.lh, x ∈ l'.lh := by
    rcases habs with ⟨-, he⟩ | ⟨-, he, -⟩ <;> rw [he] <;> simp_all
  have hnew : b.toNat ∈ l'.lh := by
    rcases habs with ⟨hm, he⟩ | ⟨-, he, -⟩ <;> rw [he] <;> simp_all
  have hcom : (s.phase t).isCommitter = false := by simp [hp, Phase.isCommitter]
  have hset : activeSet (Function.update s.phase t (.active e (bs ++ [b.toNat]))) = activeSet s.phase := by
    have ht : t ∈ activeSet s.phase := mem_activeSet.2 (by simp [hp, Phase.isActive])
    simp [activeSet_update, Phase.isActive, Finset.insert_erase ht]
  have hact : (s.phase t).isActive := by simp [hp, Phase.isActive]
  have hnc := hi.not_committing_of_active hact
  refine ⟨?_, ?_, one_committer_update_of_not hi.one_committer rfl, fun h => ?_,
    fun u e' bs' hu => ?_⟩
  · simpa [hset, hout] using hi.outstanding
  · simpa [hcomm, exists_committer_update_of_not (.active e (bs ++ [b.toNat])) hcom rfl] using hi.committing
  · simp [hcomm, hnc] at h
  · by_cases hne : u = t
    · subst hne
      simp at hu
      obtain ⟨rfl, rfl⟩ := hu
      obtain ⟨he, hbs⟩ := hi.current u e bs hp
      refine ⟨he, fun x hx => ?_⟩
      rcases List.mem_append.1 hx with hx | hx
      · exact hkeep x (hbs x hx)
      · rw [List.mem_singleton.1 hx]
        exact hnew
    · simp only [Function.update_of_ne hne] at hu
      obtain ⟨he, hbs⟩ := hi.current u e' bs' hu
      exact ⟨he, fun x hx => hkeep x (hbs x hx)⟩

lemma Isolated.end_op {s s' : Sys Tid} {t : Tid} (hi : Isolated s)
    (h : s.end_op t = some (.ok s')) : Isolated s' := by
  obtain ⟨e, bs, hp, hc, hs'⟩ := end_op_ok h
  have ht : t ∈ activeSet s.phase := mem_activeSet.2 (by simp [hp, Phase.isActive])
  have hpos := Finset.card_pos.2 ⟨t, ht⟩
  have hcom : (s.phase t).isCommitter = false := by simp [hp, Phase.isCommitter]
  have hnone : ∀ u, (s.phase u).isCommitter = false := fun u => by
    by_contra hu
    have := hi.committing.2 ⟨u, by simpa using hu⟩
    simp [hc] at this
  rcases hs' with ⟨hz, rfl⟩ | ⟨hnz, rfl⟩
  · -- the last call out is elected to commit
    have hset : activeSet (Function.update s.phase t .committing) = (activeSet s.phase).erase t := by
      simp [activeSet_update, Phase.isActive]
    have hcard : ((activeSet s.phase).erase t).card = 0 := by
      rw [Finset.card_erase_of_mem ht]
      have := hi.outstanding
      omega
    have hempty : activeSet (Function.update s.phase t .committing) = ∅ := by
      rw [hset]
      exact Finset.card_eq_zero.1 hcard
    refine ⟨?_, ?_, fun u v hu hv => ?_, fun _ => hempty, fun u e' bs' hu => ?_⟩
    · simp only [hempty, Finset.card_empty, Nat.cast_zero]
      exact hz
    · simp only [true_iff]
      exact ⟨t, by simp [Phase.isCommitter]⟩
    · have key : ∀ w, (Function.update s.phase t .committing w).isCommitter → w = t := by
        intro w hw
        by_contra hne
        rw [Function.update_of_ne hne, hnone w] at hw
        cases hw
      rw [key u hu, key v hv]
    · have : u ∈ activeSet (Function.update s.phase t .committing) :=
        mem_activeSet.2 (by simp only at hu; simp [hu, Phase.isActive])
      simp [hempty] at this
  · -- other calls are still outstanding
    have hset : activeSet (Function.update s.phase t .idle) = (activeSet s.phase).erase t := by
      simp [activeSet_update, Phase.isActive]
    refine ⟨?_, ?_, one_committer_update_of_not hi.one_committer rfl, fun h => ?_,
      fun u e' bs' hu => ?_⟩
    · simp only [hset, Finset.card_erase_of_mem ht]
      have := hi.outstanding
      omega
    · simpa [exists_committer_update_of_not .idle hcom rfl] using hi.committing
    · simp [hc] at h
    · have hne : u ≠ t := fun e' => by subst e'; simp at hu
      simp only [Function.update_of_ne hne] at hu
      exact hi.current u e' bs' hu

lemma Isolated.commit {s s' : Sys Tid} {t : Tid} (hi : Isolated s) (h : s.commit t = some s') :
    Isolated s' := by
  obtain ⟨hp, rfl⟩ := commit_ok h
  have hcomm : s.log.committing = true := hi.committing.2 ⟨t, by simp [hp, Phase.isCommitter]⟩
  have hset : activeSet (Function.update s.phase t .finishing) = activeSet s.phase :=
    activeSet_update_of_not (by simp [hp, Phase.isActive]) rfl
  have hempty := hi.quiet hcomm
  have key : ∀ w, (Function.update s.phase t .finishing w).isCommitter → w = t := by
    intro w hw
    by_contra hne
    rw [Function.update_of_ne hne] at hw
    exact hne (hi.one_committer w t hw (by simp [hp, Phase.isCommitter]))
  refine ⟨?_, ?_, fun u v hu hv => by rw [key u hu, key v hv], fun _ => hset ▸ hempty,
    fun u e bs hu => ?_⟩
  · simpa [hset] using hi.outstanding
  · simp only [hcomm, true_iff]
    exact ⟨t, by simp [Phase.isCommitter]⟩
  · have : u ∈ activeSet (Function.update s.phase t .finishing) :=
      mem_activeSet.2 (by simp only at hu; simp [hu, Phase.isActive])
    simp [hset, hempty] at this

lemma Isolated.end_commit {s s' : Sys Tid} {t : Tid} (hi : Isolated s)
    (h : s.end_commit t = some s') : Isolated s' := by
  obtain ⟨hp, rfl⟩ := end_commit_ok h
  have hcomm : s.log.committing = true := hi.committing.2 ⟨t, by simp [hp, Phase.isCommitter]⟩
  have hset : activeSet (Function.update s.phase t .idle) = activeSet s.phase :=
    activeSet_update_of_not (by simp [hp, Phase.isActive]) rfl
  have hempty := hi.quiet hcomm
  -- the finishing thread was the only committer
  have hnone : ∀ w, (Function.update s.phase t .idle w).isCommitter = false := by
    intro w
    by_cases hne : w = t
    · subst hne
      simp [Phase.isCommitter]
    · rw [Function.update_of_ne hne]
      by_contra hw
      exact hne (hi.one_committer w t (by simpa using hw) (by simp [hp, Phase.isCommitter]))
  refine ⟨?_, ?_, fun u v hu hv => ?_, fun h => ?_, fun u e bs hu => ?_⟩
  · simpa [hset] using hi.outstanding
  · simp [hnone]
  · rw [hnone u] at hu
    cases hu
  · simp at h
  · have : u ∈ activeSet (Function.update s.phase t .idle) :=
      mem_activeSet.2 (by simp only at hu; simp [hu, Phase.isActive])
    simp [hset, hempty] at this

lemma Isolated.step {s s' : Sys Tid} {t : Tid} {a : Act} (hi : Isolated s)
    (h : s.step t a = some (.ok s')) : Isolated s' := by
  cases a with
  | begin_op => exact hi.begin_op (ok_of_map_ok h)
  | log_write b => exact hi.log_write h
  | end_op => exact hi.end_op h
  | commit => exact hi.commit (ok_of_map_ok h)
  | end_commit => exact hi.end_commit (ok_of_map_ok h)

/-- Every reachable state satisfies the isolation invariant. -/
lemma Reachable.isolated {l : Log} {s : Sys Tid} (hs : Reachable l s) : Isolated s := by
  induction hs with
  | boot => exact Isolated.boot l
  | step t a _ hstep ih => exact ih.step hstep

/-- **Group commit isolation.** In every state reachable by any interleaving of `begin_op`,
`log_write`, `end_op` and commits of any number of calls: `log.outstanding` is never negative;
a commit starts only with nothing outstanding and no call admitted; while `log.committing` is
set no call is admitted, so no `log_write` can be issued, and `begin_op` admits none; `end_op`
never panics; and every admitted call was admitted after the last commit began and finds all
the blocks it logged in the in-memory header, so they all go to disk in the next commit. -/
theorem group_commit_isolation {l : Log} {s : Sys Tid} (hs : Reachable l s) :
    0 ≤ s.log.outstanding ∧
    (∀ t, s.phase t = .committing → s.log.outstanding = 0 ∧ ∀ u, (s.phase u).isActive = false) ∧
    (s.log.committing = true →
      (∀ t, (s.phase t).isActive = false) ∧
        ∀ t s', s.begin_op t = some s' → (s'.phase t).isActive = false) ∧
    (∀ t msg, s.end_op t ≠ some (.error msg)) ∧
    (∀ t e bs, s.phase t = .active e bs → e = s.epoch ∧ ∀ b ∈ bs, b ∈ s.log.lh) := by
  have hi := hs.isolated
  -- while a commit runs, nothing is active
  have hquiet : s.log.committing = true → ∀ u, (s.phase u).isActive = false := by
    intro hc u
    have hempty := hi.quiet hc
    by_contra hu
    have : u ∈ activeSet s.phase := mem_activeSet.2 (by simpa using hu)
    simp [hempty] at this
  refine ⟨by rw [hi.outstanding]; omega, fun t ht => ?_, fun hc => ⟨hquiet hc, ?_⟩,
    fun t msg h => ?_, hi.current⟩
  · have hc : s.log.committing = true := hi.committing.2 ⟨t, by simp [ht, Phase.isCommitter]⟩
    refine ⟨?_, hquiet hc⟩
    rw [hi.outstanding, hi.quiet hc]
    rfl
  · intro t s' h
    obtain ⟨-, rfl | ⟨hnc, -⟩⟩ := begin_op_ok h
    · simp [setPhase, Phase.isActive]
    · simp [hc] at hnc
  · obtain ⟨e, bs, hp, hc, -⟩ := end_op_error h
    have := hquiet hc t
    simp [hp, Phase.isActive] at this

/-- The isolation properties after two admitted calls, a block logged by the first, and the end
of the first call while the second is still outstanding. -/
theorem group_commit_isolation_two :
    ∃ s : Sys (Fin 2), Sys.exec (boot ⟨2, 30, 0, false, []⟩)
        [(0, .begin_op), (1, .begin_op), (0, .log_write 40), (0, .end_op)] = some (.ok s) ∧
    0 ≤ s.log.outstanding ∧
    (∀ t, s.phase t = .committing → s.log.outstanding = 0 ∧ ∀ u, (s.phase u).isActive = false) ∧
    (s.log.committing = true →
      (∀ t, (s.phase t).isActive = false) ∧
        ∀ t s', s.begin_op t = some s' → (s'.phase t).isActive = false) ∧
    (∀ t msg, s.end_op t ≠ some (.error msg)) ∧
    (∀ t e bs, s.phase t = .active e bs → e = s.epoch ∧ ∀ b ∈ bs, b ∈ s.log.lh) := by
  obtain ⟨s, h⟩ : ∃ s : Sys (Fin 2), Sys.exec (boot ⟨2, 30, 0, false, []⟩)
      [(0, .begin_op), (1, .begin_op), (0, .log_write 40), (0, .end_op)] = some (.ok s) :=
    ⟨_, rfl⟩
  exact ⟨s, h, group_commit_isolation (Reachable.boot.exec h)⟩

end Sys

end Xv6
