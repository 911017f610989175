import Xv6.Log.Basic

/-!
# Crash atomicity of the log

A transaction built by `log_write` and written out by `commit` survives every crash. A crash
keeps a prefix of the `bwrite`s issued so far; the reboot runs `recover_from_log`, which may
crash in turn, any number of times. Once one recovery runs to its end, the blocks outside the
log hold either exactly the image before the transaction or exactly that image with every
logged block replaced by its cached contents (`commit_crash_atomic`).

The proof follows the disk through three stages. Until the header write of `commit` the
on-disk log is empty and the home blocks are untouched (`Quiet` with the old image). From the
header write on, the header names the transaction and every slot holds its block's new
contents (`Committed`). Once the header is cleared, the log is empty and the home blocks hold
the new image (`Quiet` with the new image). What `commit` writes after its header write is
exactly what a recovery on the committed disk writes (`commit_writes`,
`recoverWrites_of_committed`), so one pair of lemmas about a recovery cut short
(`Committed.recoverCrash_of_le`, `Committed.recoverCrash_of_lt`) covers crashes inside the
commit and inside every recovery. A recovery on a `Quiet` disk writes back the header block it
read and changes nothing.
-/

namespace Xv6.Log

/-- The home blocks: those outside the log region `[start, start + size)`. -/
def Home (l : Log) (x : Nat) : Prop :=
  x < l.start ∨ l.start + l.size ≤ x

/-- The `bwrite`s of one run of `recover_from_log` after a boot on the disk `e`. -/
def recoverWrites (l : Log) (e : Disk) : List (Nat × Block) :=
  (recover_from_log l (Bufs.init e)).2.writes

/-- The disk after a run of `recover_from_log` on `e` that crashes after `k` of its writes. -/
def recoverCrash (l : Log) (e : Disk) (k : Nat) : Disk :=
  Store.apply e ((recoverWrites l e).take k)

/-- Reboots that each crash during recovery, after the given numbers of writes. -/
def recoverRuns (l : Log) (e : Disk) : List Nat → Disk
  | [] => e
  | k :: ks => recoverRuns l (recoverCrash l e k) ks

/-- The image a transaction leaves: the logged blocks with their cached contents `D`, every
other block as in `pre`. -/
def afterImage (lh : List Nat) (D : Nat → Block) (pre : Disk) : Disk :=
  fun x => if x ∈ lh then D x else pre x

/-- A disk whose on-disk log is empty (`n = 0`) and whose home blocks hold the image `img`. -/
def Quiet (l : Log) (img e : Disk) : Prop :=
  (e l.start).getLE 0 4 = 0 ∧ ∀ x, Home l x → e x = img x

/-- A disk on which the nonempty transaction `lh` has committed: the header names it, slot `i`
holds the new contents of `lh[i]`, and the home blocks outside the transaction hold the new
image. The logged home blocks may hold anything. -/
structure Committed (l : Log) (lh : List Nat) (post e : Disk) : Prop where
  nonempty : lh ≠ []
  head : decodeHeader (e l.start) = lh
  slots : ∀ i (h : i < lh.length), e (l.start + i + 1) = post lh[i]
  rest : ∀ x, Home l x → x ∉ lh → e x = post x

/-- The three stages a disk goes through while the transaction `lh` is written out. -/
def Stage (l : Log) (lh : List Nat) (pre post e : Disk) : Prop :=
  Quiet l pre e ∨ Committed l lh post e ∨ Quiet l post e

/-- The layout of a committed transaction: it fits the log region and the header block, it
holds block numbers, and it names home blocks only. -/
structure Layout (l : Log) (lh : List Nat) : Prop where
  fits : lh.length ≤ l.size - 1
  small : lh.length ≤ LOGSIZE
  word : ∀ b ∈ lh, b < 2 ^ 32
  home : ∀ b ∈ lh, Home l b

variable {l : Log} {lh : List Nat}

namespace Layout

lemma ne_start (hl : Layout l lh) {b : Nat} (hb : b ∈ lh) : b ≠ l.start := by
  have := List.length_pos_of_mem hb
  have := hl.fits
  have := hl.home b hb
  unfold Home at *
  omega

lemma ne_slot (hl : Layout l lh) {b i : Nat} (hb : b ∈ lh) (hi : i < lh.length) :
    b ≠ l.start + i + 1 := by
  have := hl.fits
  have := hl.home b hb
  unfold Home at *
  omega

lemma slot_not_home (hl : Layout l lh) {i : Nat} (hi : i < lh.length) :
    ¬ Home l (l.start + i + 1) := by
  have := hl.fits
  unfold Home
  omega

lemma start_not_home (hl : Layout l lh) (hne : lh ≠ []) : ¬ Home l l.start := by
  have := List.length_pos_iff.2 hne
  have := hl.fits
  unfold Home
  omega

lemma noSlot (hl : Layout l lh) : NoSlot { l with lh := lh } lh :=
  fun _ hb _ hi => hl.ne_slot hb hi

end Layout

/-! ## What the loops leave on disk -/

lemma mem_logCopies {data : Nat → Block} {w : Nat × Block} (hw : w ∈ logCopies l data 0 lh) :
    ∃ i, ∃ h : i < lh.length, w = (l.start + i + 1, data lh[i]) := by
  obtain ⟨⟨b, i⟩, hp, rfl⟩ := List.mem_map.1 hw
  obtain ⟨-, hi, hb⟩ := List.mem_zipIdx hp
  refine ⟨i, by simpa using hi, ?_⟩
  simp [hb]

/-- After `write_log`'s writes, slot `i` holds the cached contents of `lh[i]`. -/
lemma apply_logCopies_slot (data : Nat → Block) (base : Disk) {i : Nat} (hi : i < lh.length) :
    Store.apply base (logCopies l data 0 lh) (l.start + i + 1) = data lh[i] := by
  refine Store.apply_of_mem base (fun w hw e => ?_) ⟨(l.start + i + 1, data lh[i]), ?_, rfl⟩
  · obtain ⟨j, hj, rfl⟩ := mem_logCopies hw
    have : j = i := by simp at e; omega
    subst this
    rfl
  · refine List.mem_map.2 ⟨(lh[i], i), ?_, rfl⟩
    exact List.mk_mem_zipIdx_iff_getElem?.2 (List.getElem?_eq_getElem hi)

/-- `write_log`'s writes, up to any crash point, touch nothing but slots. -/
lemma apply_logCopies_take_of_not_slot (data : Nat → Block) (base : Disk) {x : Nat}
    (hx : ∀ i < lh.length, x ≠ l.start + i + 1) (k : Nat) :
    Store.apply base ((logCopies l data 0 lh).take k) x = base x := by
  refine Store.apply_of_forall_ne base fun w hw e => ?_
  obtain ⟨i, hi, rfl⟩ := mem_logCopies (List.mem_of_mem_take hw)
  exact hx i hi e.symm

lemma apply_logCopies_of_not_slot (data : Nat → Block) (base : Disk) {x : Nat}
    (hx : ∀ i < lh.length, x ≠ l.start + i + 1) :
    Store.apply base (logCopies l data 0 lh) x = base x := by
  simpa using apply_logCopies_take_of_not_slot data base hx (logCopies l data 0 lh).length

/-- `install_trans` reading slots that hold `f` of their blocks writes `f` to the blocks. -/
lemma homeCopies_eq_map {data f : Nat → Block} :
    ∀ {tail : Nat} {bs : List Nat},
      (∀ i (h : i < bs.length), data (l.start + (tail + i) + 1) = f bs[i]) →
        homeCopies l data tail bs = bs.map fun b => (b, f b)
  | _, [], _ => rfl
  | tail, b :: bs, h => by
    rw [homeCopies_cons, List.map_cons, homeCopies_eq_map fun i hi => ?_]
    · have h0 := h 0 (by simp)
      simp only [Nat.add_zero, List.getElem_cons_zero] at h0
      rw [h0]
    · have := h (i + 1) (by simp; omega)
      simp only [List.getElem_cons_succ] at this
      rw [← this]
      congr 2
      omega

/-! ## One recovery -/

/-- A recovery that finds `n = 0` only writes the header block back as it read it. -/
lemma recoverWrites_of_zero {e : Disk} (h : (e l.start).getLE 0 4 = 0) :
    recoverWrites l e = [(l.start, e l.start)] := by
  simp [recoverWrites, recover_from_log, read_head, Bufs.init, decodeHeader_of_zero h,
    install_trans, install_trans.go, write_head_eq, encodeHeader_nil_of_zero h]

/-- A recovery on a committed disk installs the new contents and then clears the header. -/
lemma recoverWrites_of_committed {post e : Disk} (hl : Layout l lh) (hc : Committed l lh post e) :
    recoverWrites l e = lh.map (fun b => (b, post b)) ++ [(l.start, encodeHeader [] (e l.start))] := by
  have hs : NoSlot { l with lh := lh } lh := hl.noSlot
  have hmap : homeCopies l e 0 lh = lh.map fun b => (b, post b) :=
    homeCopies_eq_map fun i hi => by simpa using hc.slots i hi
  have hstart : Store.apply e (lh.map fun b => (b, post b)) l.start = e l.start := by
    rw [Store.apply_map, if_neg fun hm => hl.ne_start hm rfl]
  simp only [recoverWrites, recover_from_log, read_head, Bufs.init, hc.head]
  rw [write_head_eq, install_trans_eq hs]
  simp [hmap, hstart]

/-- Recovery on a quiet disk changes nothing, wherever it stops. -/
lemma Quiet.recoverCrash_eq {img e : Disk} (hq : Quiet l img e) (k : Nat) :
    recoverCrash l e k = e := by
  unfold recoverCrash
  rw [recoverWrites_of_zero hq.1]
  refine Store.apply_of_agree e fun w hw => ?_
  rw [List.mem_singleton.1 (List.mem_of_mem_take hw)]

/-- A recovery on a committed disk that stops before clearing the header leaves it committed. -/
lemma Committed.recoverCrash_of_le {post e : Disk} (hl : Layout l lh) (hc : Committed l lh post e)
    {k : Nat} (hk : k ≤ lh.length) : Committed l lh post (recoverCrash l e k) := by
  -- only logged blocks are written, and those are neither the header nor a slot
  have hwritten : ∀ x, x ∉ lh → recoverCrash l e k x = e x := by
    intro x hx
    unfold recoverCrash
    rw [recoverWrites_of_committed hl hc, List.take_append_of_le_length (by simpa using hk)]
    refine Store.apply_of_forall_ne e fun w hw e' => hx ?_
    obtain ⟨b, hb, rfl⟩ := List.mem_map.1 (List.mem_of_mem_take hw)
    exact e' ▸ hb
  refine ⟨hc.nonempty, ?_, fun i hi => ?_, fun x hx hxl => ?_⟩
  · rw [hwritten _ fun hm => hl.ne_start hm rfl]
    exact hc.head
  · rw [hwritten _ fun hm => hl.ne_slot hm hi rfl]
    exact hc.slots i hi
  · rw [hwritten x hxl]
    exact hc.rest x hx hxl

/-- A recovery on a committed disk that gets past its last install leaves it quiet with the
new image. -/
lemma Committed.quiet_recoverCrash_of_lt {post e : Disk} (hl : Layout l lh) (hc : Committed l lh post e)
    {k : Nat} (hk : lh.length < k) : Quiet l post (recoverCrash l e k) := by
  unfold recoverCrash
  rw [recoverWrites_of_committed hl hc, List.take_of_length_le (by simp; omega),
    Store.apply_append]
  refine ⟨by simp, fun x hx => ?_⟩
  have hne : x ≠ l.start := fun e' => hl.start_not_home hc.nonempty (e' ▸ hx)
  rw [Store.apply_cons, Store.apply_nil, Function.update_of_ne hne, Store.apply_map]
  split
  · rfl
  · exact hc.rest x hx ‹_›

/-! ## Stages across recoveries -/

lemma Stage.stage_recoverCrash {pre post e : Disk} (hl : Layout l lh) (hs : Stage l lh pre post e)
    (k : Nat) : Stage l lh pre post (recoverCrash l e k) := by
  rcases hs with hq | hc | hq
  · exact .inl ((hq.recoverCrash_eq k).symm ▸ hq)
  · by_cases hk : k ≤ lh.length
    · exact .inr (.inl (hc.recoverCrash_of_le hl hk))
    · exact .inr (.inr (hc.quiet_recoverCrash_of_lt hl (by omega)))
  · exact .inr (.inr ((hq.recoverCrash_eq k).symm ▸ hq))

lemma Stage.stage_recoverRuns {pre post : Disk} (hl : Layout l lh) :
    ∀ {e : Disk} (ks : List Nat), Stage l lh pre post e → Stage l lh pre post (recoverRuns l e ks)
  | _, [], hs => hs
  | _, k :: ks, hs => Stage.stage_recoverRuns hl ks (hs.stage_recoverCrash hl k)

/-- One complete recovery ends every stage with an empty log and one of the two images. -/
lemma Stage.quiet_recover {pre post e : Disk} (hl : Layout l lh) (hs : Stage l lh pre post e) :
    Quiet l pre (Store.apply e (recoverWrites l e)) ∨ Quiet l post (Store.apply e (recoverWrites l e)) := by
  have hfull : Store.apply e (recoverWrites l e) = recoverCrash l e (recoverWrites l e).length := by
    rw [recoverCrash, List.take_length]
  rw [hfull]
  rcases hs with hq | hc | hq
  · exact .inl ((hq.recoverCrash_eq _).symm ▸ hq)
  · refine .inr (hc.quiet_recoverCrash_of_lt hl ?_)
    rw [recoverWrites_of_committed hl hc]
    simp
  · exact .inr ((hq.recoverCrash_eq _).symm ▸ hq)

/-! ## The commit -/

/-- `commit`'s writes: the slots, the header naming the transaction, the home blocks, and the
cleared header. -/
lemma commit_writes (hl : Layout l lh) (hne : lh ≠ []) (D : Nat → Block) :
    (commit { l with lh := lh } (Bufs.init D)).2.writes =
      logCopies l D 0 lh ++ (l.start, encodeHeader lh (D l.start)) ::
        ((lh.map fun b => (b, D b)) ++ [(l.start, encodeHeader [] (encodeHeader lh (D l.start)))]) := by
  have hs : NoSlot { l with lh := lh } lh := hl.noSlot
  -- the header block is no slot, and no logged block is the header block
  have hhead : Store.apply D (logCopies l D 0 lh) l.start = D l.start :=
    apply_logCopies_of_not_slot D D fun i _ e => by omega
  have hslots : ∀ i (h : i < lh.length),
      Function.update (Store.apply D (logCopies l D 0 lh)) l.start (encodeHeader lh (D l.start))
        (l.start + (0 + i) + 1) = D lh[i] := by
    intro i hi
    rw [Nat.zero_add, Function.update_of_ne (by omega), apply_logCopies_slot D D hi]
  have hmap : homeCopies l (Function.update (Store.apply D (logCopies l D 0 lh)) l.start
      (encodeHeader lh (D l.start))) 0 lh = lh.map fun b => (b, D b) :=
    homeCopies_eq_map hslots
  have hinstalled : Store.apply (Function.update (Store.apply D (logCopies l D 0 lh)) l.start
      (encodeHeader lh (D l.start))) (lh.map fun b => (b, D b)) l.start = encodeHeader lh (D l.start) := by
    rw [Store.apply_map, if_neg fun hm => hl.ne_start hm rfl, Function.update_self]
  have hpos : 0 < ({ l with lh := lh } : Log).lh.length := List.length_pos_iff.2 hne
  rw [commit, if_pos hpos]
  simp only [Bufs.init]
  rw [write_head_eq, install_trans_eq hs, write_head_eq, write_log_eq hs]
  simp [hhead, hmap, hinstalled]

/-- Right after the header write of `commit`, the disk is committed. -/
lemma committed_of_commit_head (hl : Layout l lh) (hne : lh ≠ []) (D : Nat → Block) (pre : Disk) :
    Committed l lh (afterImage lh D pre)
      (Store.apply pre (logCopies l D 0 lh ++ [(l.start, encodeHeader lh (D l.start))])) := by
  rw [Store.apply_append, Store.apply_cons, Store.apply_nil]
  refine ⟨hne, ?_, fun i hi => ?_, fun x hx hxl => ?_⟩
  · rw [Function.update_self]
    exact decodeHeader_encodeHeader hl.small hl.word _
  · rw [Function.update_of_ne (by omega), apply_logCopies_slot D pre hi, afterImage,
      if_pos (List.getElem_mem hi)]
  · have hstart : x ≠ l.start := fun e => hl.start_not_home hne (e ▸ hx)
    have hslot : ∀ i < lh.length, x ≠ l.start + i + 1 :=
      fun i hi e => hl.slot_not_home hi (e ▸ hx)
    rw [Function.update_of_ne hstart, apply_logCopies_of_not_slot D pre hslot, afterImage, if_neg hxl]

/-- A crash anywhere in `commit` leaves the disk in one of the three stages. -/
lemma commit_crash_stage (hl : Layout l lh) (D : Nat → Block) {pre : Disk}
    (hq : Quiet l pre pre) (k : Nat) :
    Stage l lh pre (afterImage lh D pre)
      (Store.apply pre ((commit { l with lh := lh } (Bufs.init D)).2.writes.take k)) := by
  by_cases hne : lh = []
  · subst hne
    left
    simpa [commit, Bufs.init] using hq
  have hc := committed_of_commit_head hl hne D pre
  -- everything after the header write is a recovery on the committed disk
  have hrec := recoverWrites_of_committed hl hc
  have hpost : (lh.map fun b => (b, afterImage lh D pre b)) = lh.map fun b => (b, D b) :=
    List.map_congr_left fun b hb => by simp [afterImage, hb]
  have hE : Store.apply pre (logCopies l D 0 lh ++ [(l.start, encodeHeader lh (D l.start))]) l.start =
      encodeHeader lh (D l.start) := by
    rw [Store.apply_append, Store.apply_cons, Store.apply_nil, Function.update_self]
  rw [hpost, hE] at hrec
  have hw : (commit { l with lh := lh } (Bufs.init D)).2.writes =
      (logCopies l D 0 lh ++ [(l.start, encodeHeader lh (D l.start))]) ++
        recoverWrites l (Store.apply pre (logCopies l D 0 lh ++ [(l.start, encodeHeader lh (D l.start))])) := by
    rw [commit_writes hl hne, hrec]
    simp
  have hlen : (logCopies l D 0 lh).length = lh.length := by simp [logCopies]
  rw [hw]
  by_cases hk : k ≤ lh.length
  · -- the crash came while the slots were being written: the header still says `n = 0`
    left
    rw [List.take_append_of_le_length (by simp; omega), List.take_append_of_le_length (by omega)]
    refine ⟨?_, fun x hx => ?_⟩
    · rw [apply_logCopies_take_of_not_slot D pre (fun i _ e => by omega)]
      exact hq.1
    · rw [apply_logCopies_take_of_not_slot D pre (fun i hi e => hl.slot_not_home hi (e ▸ hx))]
  · -- the crash came after the commit point: a recovery on the committed disk cut short
    rw [List.take_append, List.take_of_length_le (by simp; omega), Store.apply_append]
    exact Stage.stage_recoverCrash hl (.inr (.inl hc)) _

/-- **Crash atomicity of the redo log.** Take a log whose on-disk header says `n = 0` and whose
in-memory header is empty, any transaction that `log_write` builds on it from home blocks, and
any buffer-cache contents `D` at commit time. Crash `commit` after any number `k` of its
writes, then crash recovery after each number in `ks`, then recover completely: the home blocks
hold exactly the old image or exactly the old image with every logged block replaced by its
cached contents. -/
theorem commit_crash_atomic {l l' : Log} {bs : List UInt32} (hempty : l.lh = [])
    (htxn : log_writes l bs = .ok l') (hhome : ∀ b ∈ l'.lh, Home l b)
    (D : Nat → Block) (pre : Disk) (hhead : (pre l.start).getLE 0 4 = 0) (k : Nat) (ks : List Nat) :
    let e := recoverRuns l (Store.apply pre ((commit l' (Bufs.init D)).2.writes.take k)) ks
    (∀ x, Home l x → Store.apply e (recoverWrites l e) x = pre x) ∨
      (∀ x, Home l x → Store.apply e (recoverWrites l e) x = afterImage l'.lh D pre x) := by
  intro e
  obtain ⟨htx, -, hsize⟩ := (TxnOk.empty hempty).log_writes htxn
  have hl : Layout l l'.lh := ⟨hsize ▸ htx.fits, htx.small, htx.word, hhome⟩
  have hl' : l' = { l with lh := l'.lh } := log_writes_eq htxn
  have hstage := commit_crash_stage hl D ⟨hhead, fun _ _ => rfl⟩ k
  rw [← hl'] at hstage
  rcases (hstage.stage_recoverRuns hl ks).quiet_recover hl with hq | hq
  · exact .inl hq.2
  · exact .inr hq.2

/-- `commit_crash_atomic` for a two-block transaction on a log at blocks `2 ..< 32`: `commit`
writes log slots 3 and 4, the header, then homes 40 and 41, and crashes between the two installs;
recovery crashes once more after one write. -/
theorem commit_crash_atomic_two_blocks :
    (⟨2, 30, 1, false, []⟩ : Log).lh = [] ∧
    log_writes ⟨2, 30, 1, false, []⟩ [40, 41] = .ok ⟨2, 30, 1, false, [40, 41]⟩ ∧
    (∀ b ∈ (⟨2, 30, 1, false, [40, 41]⟩ : Log).lh, Home ⟨2, 30, 1, false, []⟩ b) ∧
    Bytes.getLE ((fun _ _ => 0 : Disk) 2) 0 4 = 0 ∧
    let e := recoverRuns ⟨2, 30, 1, false, []⟩
      (Store.apply (fun _ _ => 0)
        ((commit ⟨2, 30, 1, false, [40, 41]⟩ (Bufs.init fun _ _ => 7)).2.writes.take 4)) [1]
    ((∀ x, Home ⟨2, 30, 1, false, []⟩ x →
        Store.apply e (recoverWrites ⟨2, 30, 1, false, []⟩ e) x = (fun _ _ => 0 : Disk) x) ∨
      (∀ x, Home ⟨2, 30, 1, false, []⟩ x →
        Store.apply e (recoverWrites ⟨2, 30, 1, false, []⟩ e) x =
          afterImage [40, 41] (fun _ _ => 7) (fun _ _ => 0) x)) :=
  ⟨rfl, rfl, by simp [Home], rfl,
    @commit_crash_atomic ⟨2, 30, 1, false, []⟩ ⟨2, 30, 1, false, [40, 41]⟩ [40, 41] rfl rfl
      (by simp [Home]) (fun _ _ => 7) (fun _ _ => 0) rfl 4 [1]⟩

end Xv6.Log
