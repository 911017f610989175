import Xv6.Log.Group

/-!
# Log-space admission

`begin_op` admits a call only when `lh.n + (outstanding + 1) * MAXOPBLOCKS ≤ LOGSIZE`: it
reserves `MAXOPBLOCKS` header slots for every admitted call, on the promise that no call logs
more distinct blocks than that. `Reserved` states the reservation as an invariant of the runs
that keep the promise (`ReachableWithin`): the header plus the unused budget of every admitted
call fits in `LOGSIZE`. So a block that is not yet in the header always finds
`lh.n < LOGSIZE`, and when the log has room for `LOGSIZE` data blocks its `log_write` succeeds.

The reservation does not cover `log_write`'s own check, which also bounds `lh.n` by the
`size - 1` data blocks of the log, and makes both tests before the search for a repeated
block. Three calls of ten blocks each reach the panic `too big a transaction` when
`nlog = LOGSIZE`, and also when `nlog = LOGSIZE + 1` if the last call logs one of its blocks
a second time.
-/

namespace Xv6

namespace Phase

/-- The header slots an admitted call may still claim: `MAXOPBLOCKS` less the distinct blocks
it has logged. -/
def budget : Phase → Nat
  | .active _ bs => MAXOPBLOCKS - bs.toFinset.card
  | _ => 0

/-- Logging `b` keeps the call within `MAXOPBLOCKS` distinct blocks. -/
def logsWithin (p : Phase) (b : Nat) : Bool :=
  match p with
  | .active _ bs => decide ((bs ++ [b]).toFinset.card ≤ MAXOPBLOCKS)
  | _ => true

@[simp] lemma budget_active (e : Nat) (bs : List Nat) :
    (active e bs).budget = MAXOPBLOCKS - bs.toFinset.card := rfl

lemma budget_le (p : Phase) : p.budget ≤ MAXOPBLOCKS := by
  cases p <;> simp [budget]

lemma budget_of_not_active {p : Phase} (h : p.isActive = false) : p.budget = 0 := by
  cases p <;> simp_all [budget, isActive]

end Phase

/-- The step keeps its call within `MAXOPBLOCKS` distinct blocks. -/
def Act.within (p : Phase) : Act → Bool
  | .log_write b => p.logsWithin b.toNat
  | _ => true

namespace Sys

variable {Tid : Type} [DecidableEq Tid]

/-- The states reachable by runs in which every call passes at most `MAXOPBLOCKS` distinct
blocks to `log_write`. -/
inductive ReachableWithin (l : Log) : Sys Tid → Prop
  | boot : ReachableWithin l (boot l)
  | step {s s' : Sys Tid} (t : Tid) (a : Act) : ReachableWithin l s → a.within (s.phase t) →
      s.step t a = some (.ok s') → ReachableWithin l s'

/-- Run a schedule as `exec` does, and stop with `none` at a step that would take its call past
`MAXOPBLOCKS` distinct blocks. -/
def execWithin (s : Sys Tid) : List (Tid × Act) → Option (Except String (Sys Tid))
  | [] => some (.ok s)
  | (t, a) :: as =>
    if a.within (s.phase t) then
      match s.step t a with
      | some (.ok s') => execWithin s' as
      | r => r
    else none

lemma ReachableWithin.reachable {l : Log} {s : Sys Tid} (hs : ReachableWithin l s) :
    Reachable l s := by
  induction hs with
  | boot => exact .boot
  | step t a _ _ hstep ih => exact .step t a ih hstep

/-! ## The budget of the admitted calls -/

/-- A block the call has not logged before adds one to its distinct blocks. -/
lemma card_toFinset_append_of_notMem {bs : List Nat} {b : Nat} (h : b ∉ bs) :
    (bs ++ [b]).toFinset.card = bs.toFinset.card + 1 := by
  rw [List.toFinset_append, List.toFinset_cons, List.toFinset_nil, Finset.union_insert,
    Finset.union_empty, Finset.card_insert_of_notMem (by simpa using h)]

/-- Moving one thread changes the total budget by the difference of its own. -/
lemma sum_budget_update [Fintype Tid] (f : Tid → Phase) (t : Tid) (p : Phase) :
    ∑ u, (Function.update f t p u).budget + (f t).budget = ∑ u, (f u).budget + p.budget := by
  have hupd : (fun u => (Function.update f t p u).budget) =
      Function.update (fun u => (f u).budget) t p.budget := by
    funext u
    exact Function.apply_update (fun _ q => Phase.budget q) f t p u
  have hnew := Finset.sum_update_of_mem (Finset.mem_univ t) (fun u => (f u).budget) p.budget
  have hold := Finset.add_sum_erase Finset.univ (fun u => (f u).budget) (Finset.mem_univ t)
  rw [Finset.sdiff_singleton_eq_erase] at hnew
  rw [hupd, hnew, ← hold]
  omega

omit [DecidableEq Tid] in
/-- Only admitted calls have a budget, each of at most `MAXOPBLOCKS`. -/
lemma sum_budget_le [Fintype Tid] (f : Tid → Phase) :
    ∑ u, (f u).budget ≤ (activeSet f).card * MAXOPBLOCKS := by
  have hfilter : ∑ u ∈ activeSet f, (f u).budget = ∑ u, (f u).budget := by
    refine Finset.sum_filter_of_ne fun u _ hu => ?_
    by_contra hna
    exact hu (Phase.budget_of_not_active (by simpa using hna))
  rw [← hfilter]
  exact Finset.sum_le_card_nsmul _ _ _ fun u _ => Phase.budget_le _

/-- The reservation `begin_op` makes: the header and the unused budget of every admitted call
fit in `LOGSIZE` slots. -/
def Reserved [Fintype Tid] (s : Sys Tid) : Prop :=
  s.log.lh.length + ∑ t, (s.phase t).budget ≤ LOGSIZE

variable [Fintype Tid]

omit [DecidableEq Tid] in
lemma Reserved.boot (l : Log) : Reserved (boot l : Sys Tid) := by
  simp [Reserved, Sys.boot, Phase.budget]

/-- A step that does not grow the header, and moves one thread to a phase with no more budget
than it had, keeps the reservation. -/
lemma Reserved.of_update {s s' : Sys Tid} {t : Tid} {p : Phase} (hr : Reserved s)
    (hl : s'.log.lh.length ≤ s.log.lh.length) (hphase : s'.phase = Function.update s.phase t p)
    (hp : p.budget ≤ (s.phase t).budget) : Reserved s' := by
  have hsum := sum_budget_update s.phase t p
  unfold Reserved at hr ⊢
  rw [hphase]
  omega

lemma Reserved.begin_op {s s' : Sys Tid} {t : Tid} (hr : Reserved s) (hi : Isolated s)
    (h : s.begin_op t = some s') : Reserved s' := by
  obtain ⟨hp, hs'⟩ := begin_op_ok h
  have hact : (s.phase t).isActive = false := by
    rcases hp with hp | hp <;> simp [hp, Phase.isActive]
  rcases hs' with rfl | ⟨-, hroom, rfl⟩
  · exact hr.of_update le_rfl rfl (by simp [Phase.budget])
  · -- the admitted call brings a full budget, paid for by the admission test
    have hsum := sum_budget_update s.phase t (.active s.epoch [])
    have hle := sum_budget_le s.phase
    rw [Phase.budget_of_not_active hact, Phase.budget_active, List.toFinset_nil,
      Finset.card_empty, Nat.sub_zero] at hsum
    have hfit : (s.log.lh.length : Int) + ((activeSet s.phase).card + 1) * MAXOPBLOCKS ≤ LOGSIZE := by
      rw [← hi.outstanding]
      exact hroom
    dsimp only [Reserved] at hr ⊢
    have : s.log.lh.length + ((activeSet s.phase).card + 1) * MAXOPBLOCKS ≤ LOGSIZE := by
      exact_mod_cast hfit
    nlinarith

lemma Reserved.log_write {s s' : Sys Tid} {t : Tid} {b : UInt32} (hr : Reserved s)
    (hi : Isolated s) (hw : (s.phase t).logsWithin b.toNat)
    (h : s.log_write t b = some (.ok s')) : Reserved s' := by
  obtain ⟨e, bs, l', hp, hl, rfl⟩ := log_write_ok h
  obtain ⟨-, -, -, -, -, habs⟩ := Log.log_write_ok hl
  simp only [hp, Phase.logsWithin, decide_eq_true_eq] at hw
  by_cases hmem : b.toNat ∈ bs
  · -- a block the call logged before: the header and the budget stay
    have hin : b.toNat ∈ s.log.lh := (hi.current t e bs hp).2 _ hmem
    have hsame : (bs ++ [b.toNat]).toFinset = bs.toFinset := by
      ext x
      simp only [List.mem_toFinset, List.mem_append, List.mem_singleton]
      constructor
      · rintro (hx | rfl) <;> assumption
      · exact .inl
    rcases habs with ⟨-, hlh⟩ | ⟨hnot, -⟩
    · exact hr.of_update (by rw [hlh]) rfl (by rw [hp, Phase.budget_active, Phase.budget_active, hsame])
    · exact absurd hin hnot
  · -- a new block for the call: its budget pays for the slot the header may gain
    have hsum := sum_budget_update s.phase t (.active e (bs ++ [b.toNat]))
    rw [hp, Phase.budget_active, Phase.budget_active] at hsum
    rw [card_toFinset_append_of_notMem hmem] at hsum hw
    have hlen : l'.lh.length ≤ s.log.lh.length + 1 := by
      rcases habs with ⟨-, hlh⟩ | ⟨-, hlh, -⟩ <;> simp [hlh]
    unfold Reserved at hr ⊢
    dsimp only
    omega

lemma Reserved.end_op {s s' : Sys Tid} {t : Tid} (hr : Reserved s)
    (h : s.end_op t = some (.ok s')) : Reserved s' := by
  obtain ⟨e, bs, hp, -, hs'⟩ := end_op_ok h
  -- the call's budget is released
  rcases hs' with ⟨-, rfl⟩ | ⟨-, rfl⟩
  · exact hr.of_update le_rfl rfl (by simp [Phase.budget])
  · exact hr.of_update le_rfl rfl (by simp [Phase.budget])

lemma Reserved.commit {s s' : Sys Tid} {t : Tid} (hr : Reserved s) (h : s.commit t = some s') :
    Reserved s' := by
  obtain ⟨-, rfl⟩ := commit_ok h
  exact hr.of_update (by simp) rfl (by simp [Phase.budget])

lemma Reserved.end_commit {s s' : Sys Tid} {t : Tid} (hr : Reserved s)
    (h : s.end_commit t = some s') : Reserved s' := by
  obtain ⟨-, rfl⟩ := end_commit_ok h
  exact hr.of_update le_rfl rfl (by simp [Phase.budget])

lemma Reserved.step {s s' : Sys Tid} {t : Tid} {a : Act} (hr : Reserved s) (hi : Isolated s)
    (hw : a.within (s.phase t)) (h : s.step t a = some (.ok s')) : Reserved s' := by
  cases a with
  | begin_op => exact hr.begin_op hi (ok_of_map_ok h)
  | log_write b => exact hr.log_write hi hw h
  | end_op => exact hr.end_op h
  | commit => exact hr.commit (ok_of_map_ok h)
  | end_commit => exact hr.end_commit (ok_of_map_ok h)

/-- Every state of a run that keeps the promise keeps the reservation. -/
lemma ReachableWithin.reserved {l : Log} {s : Sys Tid} (hs : ReachableWithin l s) :
    Reserved s := by
  induction hs with
  | boot => exact Reserved.boot l
  | step t a hs hw hstep ih => exact ih.step hs.reachable.isolated hw hstep

/-! ## What the reservation gives -/

/-- A call within its budget that logs a block not yet in the header finds the header below
`LOGSIZE`: the first test of the panic never fires on it. -/
theorem lh_length_lt_of_new_block {l : Log} {s : Sys Tid} {t : Tid} {e : Nat} {bs : List Nat}
    {b : Nat} (hs : ReachableWithin l s) (hp : s.phase t = .active e bs)
    (hw : (s.phase t).logsWithin b) (hb : b ∉ s.log.lh) : s.log.lh.length < LOGSIZE := by
  have hr := hs.reserved
  have hnew : b ∉ bs := fun hmem => hb ((hs.reachable.isolated.current t e bs hp).2 b hmem)
  simp only [hp, Phase.logsWithin, decide_eq_true_eq, card_toFinset_append_of_notMem hnew] at hw
  -- the call still has a slot of its own to spend
  have hown : 1 ≤ (s.phase t).budget := by
    rw [hp, Phase.budget_active]
    omega
  have hle : (s.phase t).budget ≤ ∑ u, (s.phase u).budget :=
    Finset.single_le_sum (fun u _ => Nat.zero_le (s.phase u).budget) (Finset.mem_univ t)
  unfold Reserved at hr
  omega

/-- When the log has room for `LOGSIZE` data blocks after its header, a call within its budget
logs a block not yet in the header without a panic, and the block joins the header. -/
theorem log_write_new_block_ok {l : Log} {s : Sys Tid} {t : Tid} {e : Nat} {bs : List Nat}
    {b : UInt32} (hs : ReachableWithin l s) (hsize : LOGSIZE < l.size)
    (hp : s.phase t = .active e bs) (hw : (s.phase t).logsWithin b.toNat)
    (hb : b.toNat ∉ s.log.lh) :
    s.log_write t b = some (.ok
      { s with log := { s.log with lh := s.log.lh ++ [b.toNat] }
               phase := Function.update s.phase t (.active e (bs ++ [b.toNat])) }) := by
  have hi := hs.reachable.isolated
  have hlt := lh_length_lt_of_new_block hs hp hw hb
  have hsz : s.log.size = l.size := hs.reachable.log_size.2
  have hpos : 0 < (activeSet s.phase).card :=
    Finset.card_pos.2 ⟨t, mem_activeSet.2 (by simp [hp, Phase.isActive])⟩
  have hroom : ¬(LOGSIZE ≤ s.log.lh.length ∨ s.log.size - 1 ≤ s.log.lh.length) := by omega
  have hin : ¬s.log.outstanding < 1 := by
    rw [hi.outstanding]
    omega
  simp only [Sys.log_write, hp, Log.log_write, if_neg hroom, if_neg hin, if_neg hb]
  rfl

/-! ## Where the reservation falls short -/

/-- Three calls admitted together, call `i` logging the ten blocks `10 i + 1` to `10 i + 10`. -/
def threeFullCalls : List (Fin 3 × Act) :=
  [(0, .begin_op), (1, .begin_op), (2, .begin_op)] ++
    (List.finRange 3).flatMap fun i =>
      (List.range 10).map fun j => (i, .log_write (UInt32.ofNat (10 * i + j + 1)))

/-- `begin_op` admits all three calls at once, but a log of `nlog = LOGSIZE` blocks has only
`LOGSIZE - 1` data blocks after its header, and the thirtieth distinct block panics. With one
more log block the header takes all thirty, yet a second write of a block the last call has
already logged panics too, since the size test comes before the search for the block. -/
theorem log_write_too_big_of_admitted :
    execWithin (boot (Log.initlog ⟨0x10203040, 2000, 1954, 200, 30, 2, 32, 45⟩
        (Bufs.init fun _ _ => 0)).1 : Sys (Fin 3)) threeFullCalls =
      some (.error "too big a transaction") ∧
    execWithin (boot (Log.initlog ⟨0x10203040, 2000, 1953, 200, 31, 2, 33, 46⟩
        (Bufs.init fun _ _ => 0)).1 : Sys (Fin 3)) (threeFullCalls ++ [(2, .log_write 21)]) =
      some (.error "too big a transaction") :=
  ⟨rfl, rfl⟩

end Sys

end Xv6
