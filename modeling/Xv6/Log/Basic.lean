import Xv6.Param
import Xv6.Lib.Store

/-!
# The redo log

Model of `kernel/log.c`: the in-memory `struct log`, the header codec of `read_head` and
`write_head`, `log_write`, and the write sequences `write_log`, `install_trans`, `commit` and
`recover_from_log`.

The log reaches the disk only through the buffer cache. `Bufs` is what the log code observes of
it: for every block the bytes that `bread` returns (the cached copy where the cache holds one,
the disk's contents otherwise), the `bwrite` calls issued so far, each one atomic write of a
whole block, and the `bunpin` calls issued so far. A crash after some of the `bwrite`s leaves
the disk with a prefix of `writes` applied (`Store.apply`) and the cache empty; the crash
theorem of `Xv6/Log/Crash.lean` is stated that way.

The spec lemmas at the end compute the writes of each loop when no logged block is one of the
log slots, which is the layout assumption of the commit protocol.
-/

namespace Xv6

/-- The buffer cache as the log code sees it: `bread`'s result for every block, the `bwrite`s
issued so far (oldest first), and the blocks whose buffers were `bunpin`ned so far. -/
structure Bufs where
  data : Nat → Block
  writes : List (Nat × Block)
  unpins : List Nat

namespace Bufs

/-- A cache whose reads return `data`, before any write: the state after a boot, where `data`
is the disk, or at the start of a commit. -/
def init (data : Nat → Block) : Bufs := ⟨data, [], []⟩

/-- Replace the cached bytes of block `x` (a change made through `buf->data`). -/
def set (s : Bufs) (x : Nat) (b : Block) : Bufs :=
  { s with data := Function.update s.data x b }

/-- `memmove(dst->data, src->data, BSIZE)` between the buffers of two blocks. -/
def memmove (s : Bufs) (dst src : Nat) : Bufs :=
  s.set dst (s.data src)

/-- `bwrite`: one atomic disk write of the buffer's current contents. -/
def bwrite (s : Bufs) (x : Nat) : Bufs :=
  { s with writes := s.writes ++ [(x, s.data x)] }

/-- `bunpin`: drop the pin that `log_write` put on the buffer of block `x`. -/
def bunpin (s : Bufs) (x : Nat) : Bufs :=
  { s with unpins := s.unpins ++ [x] }

end Bufs

/-- `struct log` without its lock and device: where the log lives (`start`, `size`), the
number of FS system calls in progress, whether a commit is running, and the in-memory header
`lh`, kept as the list `lh.block[0 .. lh.n)`. -/
structure Log where
  start : Nat
  size : Nat
  outstanding : Int
  committing : Bool
  lh : List Nat
  deriving Repr, DecidableEq

namespace Log

/-- `write_head`'s image of `struct logheader` on the header block `b`: `n` at offset 0, then
`block[i]` at offset `4 + 4 * i`, each a 4-byte little-endian `int`. -/
def encodeHeader (lh : List Nat) (b : Block) : Block :=
  (b.setLE 0 4 lh.length).setLEs 4 4 lh

/-- `read_head`'s view of a header block: the signed `n`, then `n` entries of `block[]`
(none when `n` is negative). -/
def decodeHeader (b : Block) : List Nat :=
  b.getLEs 4 4 (Int.bmod (b.getLE 0 4) (2 ^ 32)).toNat

/-- `read_head`: load the on-disk header into the in-memory one. -/
def read_head (l : Log) (s : Bufs) : Log :=
  { l with lh := decodeHeader (s.data l.start) }

/-- `write_head`: store the in-memory header into the header block and write it. This write is
the point at which a transaction commits. -/
def write_head (l : Log) (s : Bufs) : Bufs :=
  (s.set l.start (encodeHeader l.lh (s.data l.start))).bwrite l.start

/-- `write_log`: copy every logged block from the cache into its log slot and write the slot. -/
def write_log (l : Log) (s : Bufs) : Bufs :=
  go 0 l.lh s
where
  go (tail : Nat) : List Nat → Bufs → Bufs
    | [], s => s
    | b :: bs, s =>
      go (tail + 1) bs ((s.memmove (l.start + tail + 1) b).bwrite (l.start + tail + 1))

/-- `install_trans`: copy every log slot to its home block and write it; outside recovery the
home block's buffer is also unpinned. -/
def install_trans (l : Log) (recovering : Bool) (s : Bufs) : Bufs :=
  go 0 l.lh s
where
  go (tail : Nat) : List Nat → Bufs → Bufs
    | [], s => s
    | b :: bs, s =>
      let s := (s.memmove b (l.start + tail + 1)).bwrite b
      go (tail + 1) bs (if recovering then s else s.bunpin b)

/-- `recover_from_log`: install whatever the on-disk header names, then clear the header. -/
def recover_from_log (l : Log) (s : Bufs) : Log × Bufs :=
  let l := read_head l s
  let s := install_trans l true s
  let l := { l with lh := [] }
  (l, write_head l s)

/-- `commit`: log the blocks, commit the header, install, and erase the transaction. -/
def commit (l : Log) (s : Bufs) : Log × Bufs :=
  if 0 < l.lh.length then
    let s := write_log l s
    let s := write_head l s
    let s := install_trans l false s
    let l := { l with lh := [] }
    (l, write_head l s)
  else (l, s)

/-- `initlog`: take the log's place from the superblock and recover. -/
def initlog (sb : Superblock) (s : Bufs) : Log × Bufs :=
  recover_from_log ⟨sb.logstart, sb.nlog, 0, false, []⟩ s

/-- `log_write`: record block `blockno` in the current transaction, absorbing repeats. The size
check comes before the search for the block. -/
def log_write (l : Log) (blockno : UInt32) : Except String Log :=
  if LOGSIZE ≤ l.lh.length ∨ l.size - 1 ≤ l.lh.length then .error "too big a transaction"
  else if l.outstanding < 1 then .error "log_write outside of trans"
  else if blockno.toNat ∈ l.lh then .ok l
  else .ok { l with lh := l.lh ++ [blockno.toNat] }

/-- `log_write` for each block of `bs` in turn, stopping at the first panic. -/
def log_writes (l : Log) : List UInt32 → Except String Log
  | [] => .ok l
  | b :: bs => (log_write l b).bind fun l => log_writes l bs

/-- `initlog`'s check that `struct logheader` fits in the header block never fires. -/
lemma logheader_fits : 4 + 4 * LOGSIZE < BSIZE := by decide

/-! ## The header codec -/

/-- `read_head` gives back the header that `write_head` stored, for a header of at most
`LOGSIZE` entries that are all block numbers (`uint`). -/
lemma decodeHeader_encodeHeader {lh : List Nat} (hn : lh.length ≤ LOGSIZE)
    (hw : ∀ b ∈ lh, b < 2 ^ 32) (b : Block) : decodeHeader (encodeHeader lh b) = lh := by
  rw [LOGSIZE_eq] at hn
  have hfit : 4 + 4 * lh.length ≤ BSIZE := by rw [BSIZE_eq]; omega
  have hcount : (encodeHeader lh b).getLE 0 4 = lh.length := by
    rw [encodeHeader, Bytes.getLE_setLEs_of_le _ _ (show 0 + 4 ≤ 4 by omega),
      Bytes.getLE_setLE_self _ _ (by rw [BSIZE_eq]; omega)]
    exact Nat.mod_eq_of_lt (by omega)
  have hbmod : (Int.bmod (lh.length : Int) (2 ^ 32)).toNat = lh.length := by
    rw [Int.bmod_eq_of_le (by omega) (by omega)]
    simp
  rw [decodeHeader, hcount, hbmod, encodeHeader, Bytes.getLEs_setLEs_self _ _ hfit]
  conv_rhs => rw [← List.map_id lh]
  exact List.map_congr_left fun x hx => Nat.mod_eq_of_lt (by simpa using hw x hx)

/-- An empty header reads back as empty. -/
@[simp] lemma getLE_encodeHeader_nil (b : Block) : (encodeHeader [] b).getLE 0 4 = 0 := by
  rw [encodeHeader, List.length_nil, Bytes.setLEs, Bytes.getLE_setLE_self _ _ (by rw [BSIZE_eq]; omega),
    Nat.zero_mod]

/-- A header block whose `n` is already `0` is left as it is by storing the empty header. -/
lemma encodeHeader_nil_of_zero {b : Block} (h : b.getLE 0 4 = 0) : encodeHeader [] b = b := by
  have hback := Bytes.setLE_getLE_self b 0 4
  rw [h] at hback
  rw [encodeHeader, List.length_nil, Bytes.setLEs, hback]

lemma decodeHeader_of_zero {b : Block} (h : b.getLE 0 4 = 0) : decodeHeader b = [] := by
  simp [decodeHeader, h, Bytes.getLEs]

/-! ## What `log_write` can do -/

/-- A successful `log_write` keeps the log's place and either absorbs the block or appends it
to a header that had room for it. -/
lemma log_write_ok {l l' : Log} {b : UInt32} (h : log_write l b = .ok l') :
    l'.start = l.start ∧ l'.size = l.size ∧ l'.outstanding = l.outstanding ∧
      l'.committing = l.committing ∧ 1 ≤ l.outstanding ∧
      ((b.toNat ∈ l.lh ∧ l'.lh = l.lh) ∨
        (b.toNat ∉ l.lh ∧ l'.lh = l.lh ++ [b.toNat] ∧ l.lh.length < LOGSIZE ∧
          l.lh.length < l.size - 1)) := by
  unfold log_write at h
  split at h
  · cases h
  · split at h
    · cases h
    · split at h
      · cases h
        exact ⟨rfl, rfl, rfl, rfl, by omega, .inl ⟨by assumption, rfl⟩⟩
      · cases h
        exact ⟨rfl, rfl, rfl, rfl, by omega, .inr ⟨by assumption, rfl, by omega, by omega⟩⟩

/-- The shape of every transaction that `log_write` builds: it fits the header block and the
log, and holds block numbers. -/
structure TxnOk (l : Log) : Prop where
  fits : l.lh.length ≤ l.size - 1
  small : l.lh.length ≤ LOGSIZE
  word : ∀ b ∈ l.lh, b < 2 ^ 32

lemma TxnOk.log_write {l l' : Log} {b : UInt32} (hl : TxnOk l) (h : log_write l b = .ok l') :
    TxnOk l' := by
  obtain ⟨-, hsize, -, -, -, ⟨-, he⟩ | ⟨-, he, hlog, hfit⟩⟩ := log_write_ok h
  · exact ⟨by rw [he, hsize]; exact hl.fits, by rw [he]; exact hl.small, by rw [he]; exact hl.word⟩
  · refine ⟨?_, ?_, ?_⟩
    · rw [he, hsize, List.length_append]; simp; omega
    · rw [he, List.length_append]; simp; omega
    · rw [he]
      intro x hx
      rcases List.mem_append.1 hx with hx | hx
      · exact hl.word x hx
      · rw [List.mem_singleton.1 hx]; exact b.toNat_lt

/-- A run of `log_write`s keeps the log's place and builds a well-shaped transaction. -/
lemma TxnOk.log_writes {l l' : Log} {bs : List UInt32} (hl : TxnOk l) (h : log_writes l bs = .ok l') :
    TxnOk l' ∧ l'.start = l.start ∧ l'.size = l.size := by
  induction bs generalizing l with
  | nil => cases h; exact ⟨hl, rfl, rfl⟩
  | cons b bs ih =>
    simp only [Log.log_writes] at h
    cases hw : Log.log_write l b with
    | error e => rw [hw] at h; cases h
    | ok l₁ =>
      rw [hw] at h
      obtain ⟨hs, hz, -⟩ := log_write_ok hw
      obtain ⟨h', hs', hz'⟩ := ih (hl.log_write hw) h
      exact ⟨h', hs'.trans hs, hz'.trans hz⟩

/-- A run of `log_write`s changes nothing of the log but its header. -/
lemma log_writes_eq {l l' : Log} {bs : List UInt32} (h : log_writes l bs = .ok l') :
    l' = { l with lh := l'.lh } := by
  induction bs generalizing l with
  | nil => cases h; rfl
  | cons b bs ih =>
    simp only [Log.log_writes] at h
    cases hw : Log.log_write l b with
    | error e => rw [hw] at h; cases h
    | ok l₁ =>
      rw [hw] at h
      obtain ⟨hs, hz, ho, hc, -⟩ := log_write_ok hw
      rw [ih h]
      cases l; cases l₁
      simp_all

/-- The empty transaction after a commit is well shaped. -/
lemma TxnOk.empty {l : Log} (h : l.lh = []) : TxnOk l :=
  ⟨by simp [h], by simp [h], by simp [h]⟩

/-! ## The writes of each loop -/

/-- No block of `bs` is one of the slots that the header `l.lh` occupies: a loop that reads these
blocks while writing slots (or the other way round) never reads its own writes. -/
def NoSlot (l : Log) (bs : List Nat) : Prop :=
  ∀ b ∈ bs, ∀ i < l.lh.length, b ≠ l.start + i + 1

/-- The writes of `write_log` from slot `tail` on: slot `i` gets the logged block's bytes. -/
def logCopies (l : Log) (data : Nat → Block) (tail : Nat) (bs : List Nat) : List (Nat × Block) :=
  (bs.zipIdx tail).map fun p => (l.start + p.2 + 1, data p.1)

/-- The writes of `install_trans` from slot `tail` on: the home block gets slot `i`'s bytes. -/
def homeCopies (l : Log) (data : Nat → Block) (tail : Nat) (bs : List Nat) : List (Nat × Block) :=
  (bs.zipIdx tail).map fun p => (p.1, data (l.start + p.2 + 1))

@[simp] lemma logCopies_nil (l : Log) (data : Nat → Block) (tail : Nat) :
    logCopies l data tail [] = [] := rfl

@[simp] lemma logCopies_cons (l : Log) (data : Nat → Block) (tail b : Nat) (bs : List Nat) :
    logCopies l data tail (b :: bs) = (l.start + tail + 1, data b) :: logCopies l data (tail + 1) bs :=
  rfl

@[simp] lemma homeCopies_nil (l : Log) (data : Nat → Block) (tail : Nat) :
    homeCopies l data tail [] = [] := rfl

@[simp] lemma homeCopies_cons (l : Log) (data : Nat → Block) (tail b : Nat) (bs : List Nat) :
    homeCopies l data tail (b :: bs) = (b, data (l.start + tail + 1)) :: homeCopies l data (tail + 1) bs :=
  rfl

/-- The copy lists read only where the log lives, not its header. -/
@[simp] lemma logCopies_setLh (l : Log) (lh : List Nat) : logCopies { l with lh := lh } = logCopies l :=
  rfl

@[simp] lemma homeCopies_setLh (l : Log) (lh : List Nat) :
    homeCopies { l with lh := lh } = homeCopies l :=
  rfl

lemma write_log_go {l : Log} {bs : List Nat} (hs : NoSlot l bs) (tail : Nat)
    (htail : tail + bs.length ≤ l.lh.length) (s : Bufs) :
    write_log.go l tail bs s =
      { s with data := Store.apply s.data (logCopies l s.data tail bs)
               writes := s.writes ++ logCopies l s.data tail bs } := by
  induction bs generalizing tail s with
  | nil => simp [write_log.go]
  | cons b bs ih =>
    rw [List.length_cons] at htail
    have hrest : NoSlot l bs := fun b' hb' => hs b' (List.mem_cons_of_mem _ hb')
    -- the slot just written is not one of the blocks read later
    have hcopies : logCopies l (Function.update s.data (l.start + tail + 1) (s.data b)) (tail + 1) bs =
        logCopies l s.data (tail + 1) bs := by
      simp only [logCopies, List.map_inj_left, Prod.mk.injEq, true_and]
      intro p hp
      exact Function.update_of_ne
        (hs p.1 (List.mem_cons_of_mem _ (List.fst_mem_of_mem_zipIdx hp)) tail (by omega)) _ _
    simp only [write_log.go, ih hrest (tail + 1) (by omega), Bufs.bwrite, Bufs.memmove, Bufs.set, hcopies, logCopies_cons,
      Store.apply_cons, Function.update_self, List.append_assoc, List.singleton_append]

lemma write_log_eq {l : Log} (hs : NoSlot l l.lh) (s : Bufs) :
    write_log l s =
      { s with data := Store.apply s.data (logCopies l s.data 0 l.lh)
               writes := s.writes ++ logCopies l s.data 0 l.lh } :=
  write_log_go hs 0 (by simp) s

lemma install_trans_go {l : Log} {bs : List Nat} (hs : NoSlot l bs) (r : Bool) (tail : Nat)
    (htail : tail + bs.length ≤ l.lh.length) (s : Bufs) :
    install_trans.go l r tail bs s =
      { data := Store.apply s.data (homeCopies l s.data tail bs)
        writes := s.writes ++ homeCopies l s.data tail bs
        unpins := if r then s.unpins else s.unpins ++ bs } := by
  induction bs generalizing tail s with
  | nil => cases r <;> simp [install_trans.go]
  | cons b bs ih =>
    rw [List.length_cons] at htail
    have hrest : NoSlot l bs := fun b' hb' => hs b' (List.mem_cons_of_mem _ hb')
    -- the home block just written is not one of the slots read later
    have hcopies : homeCopies l (Function.update s.data b (s.data (l.start + tail + 1))) (tail + 1) bs =
        homeCopies l s.data (tail + 1) bs := by
      simp only [homeCopies, List.map_inj_left, Prod.mk.injEq, true_and]
      intro p hp
      have := List.snd_lt_add_of_mem_zipIdx hp
      exact Function.update_of_ne (hs b List.mem_cons_self p.2 (by omega)).symm _ _
    cases r <;> simp only [install_trans.go, ih hrest (tail + 1) (by omega), Bufs.bwrite, Bufs.memmove, Bufs.set,
      Bufs.bunpin, hcopies, homeCopies_cons, Store.apply_cons, Function.update_self,
      List.append_assoc, List.singleton_append, if_true, Bool.false_eq_true, if_false]

lemma install_trans_eq {l : Log} (hs : NoSlot l l.lh) (r : Bool) (s : Bufs) :
    install_trans l r s =
      { data := Store.apply s.data (homeCopies l s.data 0 l.lh)
        writes := s.writes ++ homeCopies l s.data 0 l.lh
        unpins := if r then s.unpins else s.unpins ++ l.lh } :=
  install_trans_go hs r 0 (by simp) s

lemma write_head_eq (l : Log) (s : Bufs) :
    write_head l s =
      { s with data := Function.update s.data l.start (encodeHeader l.lh (s.data l.start))
               writes := s.writes ++ [(l.start, encodeHeader l.lh (s.data l.start))] } := by
  simp [write_head, Bufs.bwrite, Bufs.set]

end Log

end Xv6
