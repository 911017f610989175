import Xv6.Log.Basic
import Xv6.Bio.Invariant
import Xv6.Lib.StateExcept

/-!
# The log's pins on the buffer cache

`log_write` keeps a block of the running transaction in the buffer cache: it calls `bpin` on the
buffer when the block first enters the header, and `install_trans(0)` in `commit` calls `bunpin`
on it. This module runs the header of `Xv6/Log/Basic.lean` and the cache of `Xv6/Bio/` together
(`LogCache`): between two commits the file-system code calls `bread` and `brelse` and passes held
buffers to `log_write` (`TRun`), and `commitBufs` makes the buffer calls of `commit()` (its reads
and writes of block contents are the subject of `Xv6/Log/Crash.lean`).

Over one transaction the header is the blocks passed to `log_write`, each once, in the order they
were first passed (`List.eraseDups`), and each buffer holding one of them carries exactly one pin
(`Pinned`). Every round of a commit that does not panic keeps the holders of every buffer and
takes the pin off the block it installs, so after the commit no buffer is pinned and every
`refcnt` is back to its value at the last commit, moved only by the `bread`s and `brelse`s of the
file-system code (`log_absorption_pins`).
-/

namespace Xv6

namespace BSys

/-- `bread`, with the caller counted as a holder of the buffer returned. -/
def bread (d : Disk) (dev blockno : Nat) (s : BSys) : Except String (BSys × Fin NBUF) :=
  (s.cache.bread d dev blockno).map fun r =>
    (⟨r.1, Function.update s.holds r.2 (s.holds r.2 + 1), s.pins⟩, r.2)

/-- `brelse`, with one holder less. -/
def brelse (s : BSys) (b : Fin NBUF) : BSys :=
  ⟨s.cache.brelse b, Function.update s.holds b (s.holds b - 1), s.pins⟩

/-- `bpin`, with one pin more. -/
def bpin (s : BSys) (b : Fin NBUF) : BSys :=
  ⟨s.cache.bpin b, s.holds, Function.update s.pins b (s.pins b + 1)⟩

/-- `bunpin`, with one pin less. -/
def bunpin (s : BSys) (b : Fin NBUF) : BSys :=
  ⟨s.cache.bunpin b, s.holds, Function.update s.pins b (s.pins b - 1)⟩

end BSys

/-- The log and the buffer cache, with the cache's ghost counts of holders and pins. -/
structure LogCache where
  log : Log
  sys : BSys

namespace LogCache

/-- `log_write(b)` for the buffer `b`, which the caller holds: the header as `Log.log_write` builds
it, and `bpin(b)` when the block was not in the header (`i == log.lh.n`). -/
def log_write (s : LogCache) (b : Fin NBUF) : Except String LogCache := do
  let blockno := UInt32.ofNat (s.sys.cache.buf b).blockno
  let l ← s.log.log_write blockno
  pure ⟨l, if blockno.toNat ∈ s.log.lh then s.sys else s.sys.bpin b⟩

end LogCache

/-- A run of the file-system code on device `dev` between two commits, with the blocks it passed
to `log_write`: `bread` of a `uint` block of a nonzero device, `brelse` of a held buffer, and
`log_write` of a held buffer of the log's device. -/
inductive TRun (dev : Nat) (s₀ : LogCache) : List Nat → LogCache → Prop
  | refl : TRun dev s₀ [] s₀
  | bread {passed : List Nat} {s : LogCache} {sys' : BSys} {b : Fin NBUF} (d : Disk)
      (dev' blockno : Nat) :
      TRun dev s₀ passed s → dev' ≠ 0 → blockno < 2 ^ 32 → s.sys.bread d dev' blockno = .ok (sys', b) →
      TRun dev s₀ passed ⟨s.log, sys'⟩
  | brelse {passed : List Nat} {s : LogCache} (b : Fin NBUF) :
      TRun dev s₀ passed s → s.sys.holds b ≠ 0 → TRun dev s₀ passed ⟨s.log, s.sys.brelse b⟩
  | log_write {passed : List Nat} {s s' : LogCache} (b : Fin NBUF) :
      TRun dev s₀ passed s → s.sys.holds b ≠ 0 → (s.sys.cache.buf b).dev = dev →
      s.log_write b = .ok s' → TRun dev s₀ (passed ++ [(s.sys.cache.buf b).blockno]) s'

/-! ## The buffer calls of `commit` -/

section Commit

variable (d : Disk) (dev : Nat)

/-- One round of `write_log`: `to = bread(log slot)`, `from = bread(home)`, then `brelse(from)`
and `brelse(to)`. -/
def writeLogRound (slot home : Nat) (s : BSys) : Except String BSys := do
  let (s, tobuf) ← s.bread d dev slot
  let (s, frombuf) ← s.bread d dev home
  pure ((s.brelse frombuf).brelse tobuf)

/-- One round of `install_trans(0)`: `lbuf = bread(log slot)`, `dbuf = bread(home)`, then
`bunpin(dbuf)`, `brelse(lbuf)` and `brelse(dbuf)`. -/
def installRound (slot home : Nat) (s : BSys) : Except String BSys := do
  let (s, lbuf) ← s.bread d dev slot
  let (s, dbuf) ← s.bread d dev home
  pure (((s.bunpin dbuf).brelse lbuf).brelse dbuf)

/-- `write_head`: `bread` of the header block, then its `brelse`. -/
def headRound (start : Nat) (s : BSys) : Except String BSys := do
  let (s, buf) ← s.bread d dev start
  pure (s.brelse buf)

/-- A loop of `write_log` or `install_trans` from slot `tail` on over the header blocks `bs`. -/
def logRounds (round : Nat → Nat → BSys → Except String BSys) (l : Log) :
    Nat → List Nat → BSys → Except String BSys
  | _, [], s => .ok s
  | tail, b :: bs, s => do
    let s ← round (l.start + tail + 1) b s
    logRounds round l (tail + 1) bs s

/-- The buffer calls of `commit()` on the header `l`. -/
def commitBufs (l : Log) (s : BSys) : Except String BSys :=
  if 0 < l.lh.length then do
    let s ← logRounds (writeLogRound d dev) l 0 l.lh s
    let s ← headRound d dev l.start s
    let s ← logRounds (installRound d dev) l 0 l.lh s
    headRound d dev l.start s
  else .ok s

end Commit

/-! ## The header over a transaction -/

/-- The header after one more block: a block already in it is absorbed, a new one goes last. -/
lemma eraseDups_concat {passed : List Nat} (x : Nat) :
    (passed ++ [x]).eraseDups = if x ∈ passed then passed.eraseDups else passed.eraseDups ++ [x] := by
  rw [List.eraseDups_append]
  by_cases hx : x ∈ passed
  · simp [hx, List.removeAll]
  · simp [hx, List.removeAll, List.eraseDups_cons]

/-- `log_write` extends a header of the distinct blocks passed so far by the block it is given. -/
lemma log_write_eraseDups {l l' : Log} {passed : List Nat} {x : Nat} (hx : x < 2 ^ 32)
    (hlh : l.lh = passed.eraseDups) (h : l.log_write (UInt32.ofNat x) = .ok l') :
    l'.lh = (passed ++ [x]).eraseDups := by
  have hnat : (UInt32.ofNat x).toNat = x := by
    rw [UInt32.toNat_ofNat', Nat.mod_eq_of_lt hx]
  have hmem : x ∈ l.lh ↔ x ∈ passed := by
    rw [hlh, List.mem_eraseDups]
  rw [eraseDups_concat]
  obtain ⟨-, -, -, -, -, ⟨hin, he⟩ | ⟨hnot, he, -, -⟩⟩ := Log.log_write_ok h
  · rw [hnat] at hin
    rw [he, hlh, if_pos (hmem.mp hin)]
  · rw [hnat] at hnot he
    rw [he, hlh, if_neg (fun h => hnot (hmem.mpr h))]

/-! ## What the buffer calls do -/

namespace BSys

open BCache

variable {s s' : BSys}

lemma bread_eq_ok {d : Disk} {dev x : Nat} {b : Fin NBUF} :
    s.bread d dev x = .ok (s', b) ↔
      ∃ c', s.cache.bread d dev x = .ok (c', b) ∧
        s' = ⟨c', Function.update s.holds b (s.holds b + 1), s.pins⟩ := by
  unfold bread
  cases h : s.cache.bread d dev x with
  | error e => simp [Except.map]
  | ok r =>
    obtain ⟨c', b'⟩ := r
    simp only [Except.map, Except.ok.injEq, Prod.mk.injEq]
    constructor
    · rintro ⟨rfl, rfl⟩
      exact ⟨c', ⟨rfl, rfl⟩, rfl⟩
    · rintro ⟨c'', ⟨rfl, rfl⟩, rfl⟩
      exact ⟨rfl, rfl⟩

/-- Everything a successful `bread` does to the cache: one more holder of the buffer `b` it
returns, which caches the block afterwards and either cached it before or was a buffer without
references while no buffer cached the block; the other buffers are untouched. -/
lemma bread_spec (hi : s.Inv) {d : Disk} {dev x : Nat} {b : Fin NBUF}
    (h : s.bread d dev x = .ok (s', b)) :
    s'.Inv ∧ s'.holds = Function.update s.holds b (s.holds b + 1) ∧ s'.pins = s.pins ∧
      (s'.cache.buf b).dev = dev ∧ (s'.cache.buf b).blockno = x ∧
      (∀ b', b' ≠ b → s'.cache.buf b' = s.cache.buf b') ∧
      (((s.cache.buf b).dev = dev ∧ (s.cache.buf b).blockno = x) ∨
        ((∀ b', ¬((s.cache.buf b').dev = dev ∧ (s.cache.buf b').blockno = x)) ∧
          (s.cache.buf b).refcnt = 0)) := by
  obtain ⟨c', hc, rfl⟩ := bread_eq_ok.mp h
  obtain ⟨L, hall, hr⟩ := hi.listed
  obtain ⟨c₁, hg, hc'⟩ := bread_ok hc
  -- filling the buffer from disk changes neither its block nor the other buffers
  have hfill : ∀ b', (c'.buf b').dev = (c₁.buf b').dev ∧ (c'.buf b').blockno = (c₁.buf b').blockno ∧
      (b' ≠ b → c'.buf b' = c₁.buf b') := by
    intro b'
    rcases hc' with rfl | rfl
    · exact ⟨rfl, rfl, fun _ => rfl⟩
    · by_cases hb : b' = b
      · subst hb
        simp
      · simp [hb]
  refine ⟨hi.bread hc, rfl, rfl, ?_⟩
  rcases bget_ok hr hall (length_le_of_ring hr) hg with ⟨hdev, hblk, rfl⟩ | ⟨hnone, hz, rfl⟩
  · refine ⟨by rw [(hfill b).1]; simpa using hdev, by rw [(hfill b).2.1]; simpa using hblk,
      fun b' hb' => by rw [(hfill b').2.2 hb']; simp [hb'], .inl ⟨hdev, hblk⟩⟩
  · refine ⟨by rw [(hfill b).1]; simp, by rw [(hfill b).2.1]; simp,
      fun b' hb' => by rw [(hfill b').2.2 hb']; simp [hb'], .inr ⟨hnone, hz⟩⟩

@[simp] lemma brelse_holds (b : Fin NBUF) : (s.brelse b).holds = Function.update s.holds b (s.holds b - 1) :=
  rfl

@[simp] lemma brelse_pins (b : Fin NBUF) : (s.brelse b).pins = s.pins := rfl

@[simp] lemma bunpin_holds (b : Fin NBUF) : (s.bunpin b).holds = s.holds := rfl

@[simp] lemma bunpin_pins (b : Fin NBUF) :
    (s.bunpin b).pins = Function.update s.pins b (s.pins b - 1) := rfl

/-- `brelse` keeps the block every buffer caches. -/
lemma brelse_buf (b b' : Fin NBUF) :
    ((s.brelse b).cache.buf b').dev = (s.cache.buf b').dev ∧
      ((s.brelse b).cache.buf b').blockno = (s.cache.buf b').blockno := by
  simp only [brelse, BCache.brelse]
  split <;> by_cases hb : b' = b <;> simp [hb]

/-- `bpin` and `bunpin` keep the block every buffer caches. -/
lemma bpin_buf (b b' : Fin NBUF) :
    ((s.bpin b).cache.buf b').dev = (s.cache.buf b').dev ∧
      ((s.bpin b).cache.buf b').blockno = (s.cache.buf b').blockno := by
  by_cases hb : b' = b <;> simp [bpin, BCache.bpin, hb]

lemma bunpin_buf (b b' : Fin NBUF) :
    ((s.bunpin b).cache.buf b').dev = (s.cache.buf b').dev ∧
      ((s.bunpin b).cache.buf b').blockno = (s.cache.buf b').blockno := by
  by_cases hb : b' = b <;> simp [bunpin, BCache.bunpin, hb]

end BSys

/-! ## The log's pins -/

/-- The pins of `s` are the log's for the header `lh` on device `dev`: a buffer caching a block of
`lh` carries one pin, any other none, and every block of `lh` is cached. -/
structure Pinned (dev : Nat) (lh : List Nat) (s : BSys) : Prop where
  pins : ∀ b, s.pins b = if (s.cache.buf b).dev = dev ∧ (s.cache.buf b).blockno ∈ lh then 1 else 0
  cached : ∀ x ∈ lh, ∃ b, (s.cache.buf b).dev = dev ∧ (s.cache.buf b).blockno = x

namespace Pinned

variable {dev : Nat} {lh : List Nat} {s s' : BSys}

/-- `Pinned` reads only the pins and the block each buffer caches. -/
lemma congr (hp : Pinned dev lh s) (hpins : s'.pins = s.pins)
    (hbuf : ∀ b, (s'.cache.buf b).dev = (s.cache.buf b).dev ∧
      (s'.cache.buf b).blockno = (s.cache.buf b).blockno) :
    Pinned dev lh s' := by
  refine ⟨fun b => ?_, fun x hx => ?_⟩
  · rw [hpins, hp.pins b, (hbuf b).1, (hbuf b).2]
  · obtain ⟨b, hdev, hblk⟩ := hp.cached x hx
    exact ⟨b, (hbuf b).1.trans hdev, (hbuf b).2.trans hblk⟩

/-- A buffer caching a block of the header is pinned. -/
lemma pins_of_caches (hp : Pinned dev lh s) {b : Fin NBUF} {x : Nat} (hx : x ∈ lh)
    (hdev : (s.cache.buf b).dev = dev) (hblk : (s.cache.buf b).blockno = x) : s.pins b = 1 := by
  rw [hp.pins b, if_pos ⟨hdev, hblk ▸ hx⟩]

/-- `bread` keeps the log's pins: a recycled buffer had no pin, so it cached no block of the
header, and the block it takes is cached nowhere, so it is not one of the header's. -/
lemma bread (hp : Pinned dev lh s) (hi : s.Inv) {d : Disk} {dev' x : Nat} {b : Fin NBUF}
    (h : s.bread d dev' x = .ok (s', b)) : Pinned dev lh s' := by
  obtain ⟨-, -, hpins, hdev, hblk, hother, hcase⟩ := BSys.bread_spec hi h
  refine ⟨fun b' => ?_, fun y hy => ?_⟩
  · rw [hpins]
    by_cases hb : b' = b
    · subst hb
      rcases hcase with ⟨hdev₀, hblk₀⟩ | ⟨hnone, hz⟩
      · rw [hp.pins b', hdev, hblk, hdev₀, hblk₀]
      · -- no pin before, and the block taken is not in the header
        have hpin : s.pins b' = 0 := by
          have := hi.counted b'
          omega
        rw [hpin, hdev, hblk, if_neg]
        rintro ⟨rfl, hx⟩
        obtain ⟨b₁, hdev₁, hblk₁⟩ := hp.cached x hx
        exact hnone b₁ ⟨hdev₁, hblk₁⟩
    · rw [hp.pins b', hother b' hb]
  · obtain ⟨b₁, hdev₁, hblk₁⟩ := hp.cached y hy
    by_cases hb : b₁ = b
    · subst hb
      rcases hcase with ⟨hdev₀, hblk₀⟩ | ⟨-, hz⟩
      · exact ⟨b₁, hdev.trans hdev₀.symm ▸ hdev₁, hblk.trans hblk₀.symm ▸ hblk₁⟩
      · -- a recycled buffer held no block of the header
        have := hi.counted b₁
        have := hp.pins_of_caches hy hdev₁ hblk₁
        omega
    · exact ⟨b₁, by rw [hother b₁ hb]; exact hdev₁, by rw [hother b₁ hb]; exact hblk₁⟩

lemma brelse (hp : Pinned dev lh s) (b : Fin NBUF) : Pinned dev lh (s.brelse b) :=
  hp.congr rfl (BSys.brelse_buf b)

/-- `log_write`'s `bpin` of a held buffer caching a block new to the header. -/
lemma bpin (hp : Pinned dev lh s) (hu : s.cache.Unique) (hdev0 : dev ≠ 0) {b : Fin NBUF} {x : Nat}
    (hdev : (s.cache.buf b).dev = dev) (hblk : (s.cache.buf b).blockno = x) (hx : x ∉ lh) :
    Pinned dev (lh ++ [x]) (s.bpin b) := by
  have hbuf := BSys.bpin_buf (s := s) b
  refine ⟨fun b' => ?_, fun y hy => ?_⟩
  · rw [(hbuf b').1, (hbuf b').2]
    by_cases hb : b' = b
    · subst hb
      simp only [BSys.bpin, Function.update_self]
      rw [hp.pins b', if_neg (fun h => hx (hblk ▸ h.2)), if_pos ⟨hdev, by simp [hblk]⟩]
    · -- only `b` caches `x` on the log's device
      have hne : ¬((s.cache.buf b').dev = dev ∧ (s.cache.buf b').blockno = x) := by
        rintro ⟨hdev', hblk'⟩
        exact hb (hu b' b (hdev' ▸ hdev0) (hdev'.trans hdev.symm) (hblk'.trans hblk.symm))
      simp only [BSys.bpin, Function.update_of_ne hb, hp.pins b', List.mem_append,
        List.mem_singleton]
      by_cases hd : (s.cache.buf b').dev = dev
      · by_cases hy : (s.cache.buf b').blockno = x
        · exact absurd ⟨hd, hy⟩ hne
        · simp [hd, hy]
      · simp [hd]
  · rcases List.mem_append.mp hy with hy | hy
    · obtain ⟨b₁, hdev₁, hblk₁⟩ := hp.cached y hy
      exact ⟨b₁, (hbuf b₁).1.trans hdev₁, (hbuf b₁).2.trans hblk₁⟩
    · rw [List.mem_singleton.mp hy]
      exact ⟨b, (hbuf b).1.trans hdev, (hbuf b).2.trans hblk⟩

/-- `install_trans`'s `bunpin` of the buffer caching the first block of the header left to
install. -/
lemma bunpin (hp : Pinned dev (x :: rest) s) (hnd : (x :: rest).Nodup) (hu : s.cache.Unique)
    (hdev0 : dev ≠ 0) {b : Fin NBUF} (hdev : (s.cache.buf b).dev = dev)
    (hblk : (s.cache.buf b).blockno = x) : Pinned dev rest (s.bunpin b) := by
  have hbuf := BSys.bunpin_buf (s := s) b
  have hx : x ∉ rest := (List.nodup_cons.mp hnd).1
  refine ⟨fun b' => ?_, fun y hy => ?_⟩
  · rw [(hbuf b').1, (hbuf b').2, BSys.bunpin_pins]
    by_cases hb : b' = b
    · subst hb
      rw [Function.update_self, hp.pins b', if_pos ⟨hdev, by simp [hblk]⟩,
        if_neg (fun h => hx (hblk ▸ h.2))]
    · rw [Function.update_of_ne hb, hp.pins b']
      by_cases hd : (s.cache.buf b').dev = dev
      · -- another buffer of the log's device caches a block other than `x`
        have hy : (s.cache.buf b').blockno ≠ x := fun hy =>
          hb (hu b' b (hd ▸ hdev0) (hd.trans hdev.symm) (hy.trans hblk.symm))
        simp [hd, hy]
      · simp [hd]
  · obtain ⟨b₁, hdev₁, hblk₁⟩ := hp.cached y (List.mem_cons_of_mem x hy)
    exact ⟨b₁, (hbuf b₁).1.trans hdev₁, (hbuf b₁).2.trans hblk₁⟩

end Pinned

lemma Pinned.pins_nil {dev : Nat} {s : BSys} (hp : Pinned dev [] s) (b : Fin NBUF) : s.pins b = 0 := by
  simpa using hp.pins b

/-! ## The rounds of a commit -/

section Rounds

variable {d : Disk} {dev : Nat} {lh : List Nat} {s s' : BSys}

/-- A read and a release of each of two buffers leave every holder count as it was. -/
lemma holds_read_release (h : Fin NBUF → Nat) (a b : Fin NBUF) :
    (Function.update (Function.update (Function.update (Function.update h a (h a + 1)) b
      (Function.update h a (h a + 1) b + 1)) b
      (Function.update (Function.update h a (h a + 1)) b (Function.update h a (h a + 1) b + 1) b - 1))
      a (Function.update (Function.update (Function.update h a (h a + 1)) b
        (Function.update h a (h a + 1) b + 1)) b
        (Function.update (Function.update h a (h a + 1)) b
          (Function.update h a (h a + 1) b + 1) b - 1) a - 1)) = h := by
  funext j
  by_cases hja : j = a <;> by_cases hjb : j = b <;> by_cases hab : a = b <;>
    simp [Function.update_apply, hja, hjb, hab]
  -- `j = b ≠ a`, where the updates test `b = a`
  simp [Ne.symm hab]

/-- A round of `write_log` keeps the invariant, the log's pins and every holder count. -/
lemma writeLogRound_spec (hi : s.Inv) (hp : Pinned dev lh s) {slot home : Nat}
    (h : writeLogRound d dev slot home s = .ok s') :
    s'.Inv ∧ Pinned dev lh s' ∧ s'.holds = s.holds := by
  unfold writeLogRound at h
  obtain ⟨⟨s₁, tobuf⟩, h₁, h⟩ := StateExcept.bind_eq_ok.mp h
  obtain ⟨⟨s₂, frombuf⟩, h₂, h⟩ := StateExcept.bind_eq_ok.mp h
  cases h
  obtain ⟨hi₁, hh₁, -⟩ := BSys.bread_spec hi h₁
  obtain ⟨hi₂, hh₂, -⟩ := BSys.bread_spec hi₁ h₂
  have hp₂ := (hp.bread hi h₁).bread hi₁ h₂
  -- `from` is released first, then `to`
  have hfrom : s₂.holds frombuf ≠ 0 := by
    rw [hh₂]
    simp
  have hi₃ : (s₂.brelse frombuf).Inv := hi₂.brelse hfrom
  have hto : (s₂.brelse frombuf).holds tobuf ≠ 0 := by
    rw [BSys.brelse_holds, hh₂, hh₁]
    by_cases hb : tobuf = frombuf
    · subst hb
      simp
    · simp [Function.update_apply, hb]
  refine ⟨hi₃.brelse hto, (hp₂.brelse frombuf).brelse tobuf, ?_⟩
  simp only [BSys.brelse_holds, hh₂, hh₁]
  exact holds_read_release s.holds tobuf frombuf

/-- A round of `install_trans(0)` keeps the invariant and every holder count, and takes the pin
off the block it installs. -/
lemma installRound_spec (hi : s.Inv) {home : Nat} {rest : List Nat}
    (hp : Pinned dev (home :: rest) s) (hnd : (home :: rest).Nodup) (hdev0 : dev ≠ 0) {slot : Nat}
    (h : installRound d dev slot home s = .ok s') :
    s'.Inv ∧ Pinned dev rest s' ∧ s'.holds = s.holds := by
  unfold installRound at h
  obtain ⟨⟨s₁, lbuf⟩, h₁, h⟩ := StateExcept.bind_eq_ok.mp h
  obtain ⟨⟨s₂, dbuf⟩, h₂, h⟩ := StateExcept.bind_eq_ok.mp h
  cases h
  obtain ⟨hi₁, hh₁, -⟩ := BSys.bread_spec hi h₁
  obtain ⟨hi₂, hh₂, -, hdev, hblk, -⟩ := BSys.bread_spec hi₁ h₂
  have hp₂ := (hp.bread hi h₁).bread hi₁ h₂
  -- `dbuf` caches the block installed, so it carries the log's pin on it
  have hpin : s₂.pins dbuf ≠ 0 := by
    rw [hp₂.pins_of_caches List.mem_cons_self hdev hblk]
    decide
  have hi₃ : (s₂.bunpin dbuf).Inv := hi₂.bunpin hpin
  have hp₃ := hp₂.bunpin hnd hi₂.unique hdev0 hdev hblk
  have hl : (s₂.bunpin dbuf).holds lbuf ≠ 0 := by
    rw [BSys.bunpin_holds, hh₂, hh₁]
    by_cases hb : lbuf = dbuf
    · subst hb
      simp
    · simp [Function.update_apply, hb]
  have hi₄ : ((s₂.bunpin dbuf).brelse lbuf).Inv := hi₃.brelse hl
  have hd : ((s₂.bunpin dbuf).brelse lbuf).holds dbuf ≠ 0 := by
    rw [BSys.brelse_holds, BSys.bunpin_holds, hh₂, hh₁]
    by_cases hb : dbuf = lbuf
    · subst hb
      simp
    · simp [Function.update_apply, hb]
  refine ⟨hi₄.brelse hd, (hp₃.brelse lbuf).brelse dbuf, ?_⟩
  simp only [BSys.brelse_holds, BSys.bunpin_holds, hh₂, hh₁]
  -- `lbuf` is released before `dbuf`: the same counts with the two names swapped
  funext j
  by_cases hja : j = lbuf <;> by_cases hjb : j = dbuf <;> by_cases hab : lbuf = dbuf <;>
    simp [Function.update_apply, hja, hjb, hab]
  simp [Ne.symm hab]

/-- `write_head` keeps the invariant, the log's pins and every holder count. -/
lemma headRound_spec (hi : s.Inv) (hp : Pinned dev lh s) {start : Nat}
    (h : headRound d dev start s = .ok s') :
    s'.Inv ∧ Pinned dev lh s' ∧ s'.holds = s.holds := by
  unfold headRound at h
  obtain ⟨⟨s₁, buf⟩, h₁, h⟩ := StateExcept.bind_eq_ok.mp h
  cases h
  obtain ⟨hi₁, hh₁, -⟩ := BSys.bread_spec hi h₁
  have hb : s₁.holds buf ≠ 0 := by
    rw [hh₁]
    simp
  refine ⟨hi₁.brelse hb, (hp.bread hi h₁).brelse buf, ?_⟩
  rw [BSys.brelse_holds, hh₁]
  simp

/-- A loop of rounds keeps what each round keeps of the blocks still to go. -/
lemma logRounds_inv {round : Nat → Nat → BSys → Except String BSys} {l : Log}
    (P : List Nat → BSys → Prop)
    (hstep : ∀ slot b bs s s', P (b :: bs) s → round slot b s = .ok s' → P bs s') :
    ∀ (tail : Nat) (bs : List Nat) (s s' : BSys), P bs s →
      logRounds round l tail bs s = .ok s' → P [] s'
  | _, [], _, _, hs, h => by
    rw [logRounds] at h
    cases h
    exact hs
  | tail, b :: bs, s, s', hs, h => by
    rw [logRounds] at h
    obtain ⟨s₁, h₁, h⟩ := StateExcept.bind_eq_ok.mp h
    exact logRounds_inv P hstep (tail + 1) bs s₁ s' (hstep _ b bs s s₁ hs h₁) h

/-- The buffer calls of a commit that does not panic keep the invariant and every holder count,
and leave no buffer pinned. -/
lemma commitBufs_spec {l : Log} (hi : s.Inv) (hp : Pinned dev l.lh s) (hnd : l.lh.Nodup)
    (hdev0 : dev ≠ 0) (h : commitBufs d dev l s = .ok s') :
    s'.Inv ∧ (∀ b, s'.pins b = 0) ∧ s'.holds = s.holds := by
  unfold commitBufs at h
  split at h
  · obtain ⟨s₁, h₁, h⟩ := StateExcept.bind_eq_ok.mp h
    obtain ⟨s₂, h₂, h⟩ := StateExcept.bind_eq_ok.mp h
    obtain ⟨s₃, h₃, h⟩ := StateExcept.bind_eq_ok.mp h
    -- `write_log` and the first `write_head` keep the pins of the whole header
    obtain ⟨hi₁, hp₁, hh₁⟩ := logRounds_inv (fun _ t => t.Inv ∧ Pinned dev l.lh t ∧ t.holds = s.holds)
      (fun _ _ _ _ _ ⟨hi, hp, hh⟩ hr => by
        obtain ⟨hi', hp', hh'⟩ := writeLogRound_spec hi hp hr
        exact ⟨hi', hp', hh'.trans hh⟩) 0 l.lh s s₁ ⟨hi, hp, rfl⟩ h₁
    obtain ⟨hi₂, hp₂, hh₂⟩ := headRound_spec hi₁ hp₁ h₂
    -- `install_trans(0)` takes the pins off block by block
    obtain ⟨hi₃, hp₃, -, hh₃⟩ := logRounds_inv
      (fun bs t => t.Inv ∧ Pinned dev bs t ∧ bs.Nodup ∧ t.holds = s.holds)
      (fun _ _ _ _ _ ⟨hi, hp, hnd, hh⟩ hr => by
        obtain ⟨hi', hp', hh'⟩ := installRound_spec hi hp hnd hdev0 hr
        exact ⟨hi', hp', (List.nodup_cons.mp hnd).2, hh'.trans hh⟩)
      0 l.lh s₂ s₃ ⟨hi₂, hp₂, hnd, hh₂.trans hh₁⟩ h₃
    obtain ⟨hi₄, hp₄, hh₄⟩ := headRound_spec hi₃ hp₃ h
    exact ⟨hi₄, hp₄.pins_nil, hh₄.trans hh₃⟩
  · cases h
    have hnil : l.lh = [] := List.eq_nil_of_length_eq_zero (by omega)
    rw [hnil] at hp
    exact ⟨hi, hp.pins_nil, rfl⟩

end Rounds

/-! ## One transaction -/

/-- A commit leaves the header empty. -/
lemma Log.commit_lh (l : Log) (s : Bufs) : (Log.commit l s).1.lh = [] := by
  unfold Log.commit
  split
  · rfl
  · rename_i hn
    show l.lh = []
    exact List.eq_nil_of_length_eq_zero (by omega)

/-- What holds along a transaction on the log's device `dev`, after the blocks `passed` were given
to `log_write`: the cache invariant, the log's pins, the header of the distinct blocks passed in
the order first passed, and `uint` block numbers on the log's device. -/
structure TxnInv (dev : Nat) (passed : List Nat) (s : LogCache) : Prop where
  inv : s.sys.Inv
  pinned : Pinned dev s.log.lh s.sys
  header : s.log.lh = passed.eraseDups
  nodup : s.log.lh.Nodup
  small : ∀ b, (s.sys.cache.buf b).dev = dev → (s.sys.cache.buf b).blockno < 2 ^ 32

namespace TxnInv

variable {dev : Nat} {passed : List Nat} {s s' : LogCache}

lemma bread (ht : TxnInv dev passed s) {d : Disk} {dev' x : Nat} {sys' : BSys} {b : Fin NBUF}
    (hx : x < 2 ^ 32) (h : s.sys.bread d dev' x = .ok (sys', b)) : TxnInv dev passed ⟨s.log, sys'⟩ := by
  obtain ⟨hi', -, -, -, hblk, hother, -⟩ := BSys.bread_spec ht.inv h
  refine ⟨hi', ht.pinned.bread ht.inv h, ht.header, ht.nodup, fun b' hb' => ?_⟩
  by_cases hb : b' = b
  · subst hb
    rw [hblk]
    exact hx
  · rw [hother b' hb] at hb' ⊢
    exact ht.small b' hb'

lemma brelse (ht : TxnInv dev passed s) {b : Fin NBUF} (hb : s.sys.holds b ≠ 0) :
    TxnInv dev passed ⟨s.log, s.sys.brelse b⟩ :=
  ⟨ht.inv.brelse hb, ht.pinned.brelse b, ht.header, ht.nodup, fun b' hb' => by
    rw [(BSys.brelse_buf b b').1] at hb'
    rw [(BSys.brelse_buf b b').2]
    exact ht.small b' hb'⟩

/-- `log_write` of a held buffer of the log's device: the block is absorbed and nothing changes,
or it goes last in the header and its buffer gets the log's pin. -/
lemma log_write (ht : TxnInv dev passed s) (hdev0 : dev ≠ 0) {b : Fin NBUF}
    (hdev : (s.sys.cache.buf b).dev = dev) (h : s.log_write b = .ok s') :
    TxnInv dev (passed ++ [(s.sys.cache.buf b).blockno]) s' := by
  unfold LogCache.log_write at h
  obtain ⟨l, hl, h⟩ := StateExcept.bind_eq_ok.mp h
  cases h
  have hx := ht.small b hdev
  have hnat : (UInt32.ofNat (s.sys.cache.buf b).blockno).toNat = (s.sys.cache.buf b).blockno := by
    rw [UInt32.toNat_ofNat', Nat.mod_eq_of_lt hx]
  have hheader := log_write_eraseDups hx ht.header hl
  rw [hnat]
  obtain ⟨-, -, -, -, -, ⟨hin, he⟩ | ⟨hnot, he, -, -⟩⟩ := Log.log_write_ok hl
  · -- absorbed: the header and the cache stay as they are
    rw [hnat] at hin
    rw [if_pos hin]
    refine ⟨ht.inv, ?_, hheader, ?_, ht.small⟩
    · show Pinned dev l.lh s.sys
      rw [he]
      exact ht.pinned
    · show l.lh.Nodup
      rw [he]
      exact ht.nodup
  · -- a new block: appended, and its buffer pinned
    rw [hnat] at hnot he
    rw [if_neg hnot]
    refine ⟨ht.inv.bpin b, ?_, hheader, ?_, fun b' hb' => ?_⟩
    · show Pinned dev l.lh (s.sys.bpin b)
      rw [he]
      exact ht.pinned.bpin ht.inv.unique hdev0 hdev rfl hnot
    · show l.lh.Nodup
      rw [he]
      exact List.nodup_append.mpr ⟨ht.nodup, List.nodup_singleton _, fun y hy z hz e => by
        rw [List.mem_singleton.mp hz] at e
        exact hnot (e ▸ hy)⟩
    · have hbuf := BSys.bpin_buf (s := s.sys) b b'
      rw [hbuf.1] at hb'
      rw [hbuf.2]
      exact ht.small b' hb'

end TxnInv

/-- `TxnInv` along every run from the state right after a commit. -/
lemma TRun.txnInv {dev : Nat} (hdev0 : dev ≠ 0) {s₀ s : LogCache} {passed : List Nat}
    (h₀ : TxnInv dev [] s₀) (hrun : TRun dev s₀ passed s) : TxnInv dev passed s := by
  induction hrun with
  | refl => exact h₀
  | bread d dev' blockno _ _ hx hb ih => exact ih.bread hx hb
  | brelse b _ hb ih => exact ih.brelse hb
  | log_write b _ _ hdev hw ih => exact ih.log_write hdev0 hdev hw

/-- Log absorption and the log's pins over one transaction on the log's device `dev`, from the
state right after a commit (empty header, no pins). The header holds the blocks passed to
`log_write`, each once, in the order first passed; each is cached by exactly one buffer, which
carries the transaction's only pin on it, and no other buffer is pinned. A commit whose buffer
calls do not panic empties the header, takes exactly those pins off, and leaves every `refcnt`
at its value after the last commit, moved only by the reads and releases of the file-system
code. -/
theorem log_absorption_pins {dev : Nat} (hdev0 : dev ≠ 0) {s₀ s : LogCache} {passed : List Nat}
    (h₀ : s₀.sys.Inv) (hlh₀ : s₀.log.lh = []) (hpins₀ : ∀ b, s₀.sys.pins b = 0)
    (hsmall₀ : ∀ b, (s₀.sys.cache.buf b).dev = dev → (s₀.sys.cache.buf b).blockno < 2 ^ 32)
    (hrun : TRun dev s₀ passed s) :
    s.log.lh = passed.eraseDups ∧
    (∀ x ∈ s.log.lh, ∃! b, (s.sys.cache.buf b).dev = dev ∧ (s.sys.cache.buf b).blockno = x) ∧
    (∀ b, s.sys.pins b =
      if (s.sys.cache.buf b).dev = dev ∧ (s.sys.cache.buf b).blockno ∈ s.log.lh then 1 else 0) ∧
    ∀ (d : Disk) (bufs : Bufs) (sys' : BSys), commitBufs d dev s.log s.sys = .ok sys' →
      (Log.commit s.log bufs).1.lh = [] ∧
      (∀ b, (sys'.cache.buf b).refcnt + s.sys.pins b = (s.sys.cache.buf b).refcnt) ∧
      ∀ b, ((sys'.cache.buf b).refcnt : Int) =
        (s₀.sys.cache.buf b).refcnt + ((s.sys.holds b : Int) - s₀.sys.holds b) := by
  have ht₀ : TxnInv dev [] s₀ :=
    ⟨h₀, by rw [hlh₀]; exact ⟨fun b => by simp [hpins₀ b], by simp⟩, by rw [hlh₀]; rfl,
      by rw [hlh₀]; exact List.nodup_nil, hsmall₀⟩
  have ht := hrun.txnInv hdev0 ht₀
  refine ⟨ht.header, fun x hx => ?_, ht.pinned.pins, fun d bufs sys' hc => ?_⟩
  · -- the buffer of a logged block is the only one caching it
    obtain ⟨b, hdev, hblk⟩ := ht.pinned.cached x hx
    exact ⟨b, ⟨hdev, hblk⟩, fun b' ⟨hdev', hblk'⟩ =>
      ht.inv.unique b' b (hdev' ▸ hdev0) (hdev'.trans hdev.symm) (hblk'.trans hblk.symm)⟩
  · obtain ⟨hi', hpins', hholds'⟩ := commitBufs_spec ht.inv ht.pinned ht.nodup hdev0 hc
    refine ⟨Log.commit_lh _ _, fun b => ?_, fun b => ?_⟩
    · rw [hi'.counted b, ht.inv.counted b, hpins' b, hholds']
      omega
    · have h₀b := h₀.counted b
      rw [hi'.counted b, hpins' b, hholds', h₀b, hpins₀ b]
      push_cast
      ring

/-! ## A transaction from boot -/

/-- A disk of zeros. -/
def zeroDisk : Disk := fun _ _ => 0

/-- The cache after `binit`, and a log of 30 blocks at block 2 with one call running. -/
def bootLog : LogCache := ⟨⟨2, 30, 1, false, []⟩, BSys.init⟩

/-- `bread(1, 5)` on the cache after `binit`: the cache and the buffer returned. -/
@[irreducible] def readFive : BSys × Fin NBUF :=
  StateExcept.okOr (BSys.init.bread zeroDisk 1 5) (BSys.init, ⟨0, by decide⟩)

/-- `log_write` of that buffer. -/
@[irreducible] def logFive : LogCache :=
  StateExcept.okOr (LogCache.log_write ⟨bootLog.log, readFive.1⟩ readFive.2) bootLog

/-- The call reads block 5 and passes its buffer to `log_write`. -/
lemma run_logFive : TRun 1 bootLog [5] logFive := by
  have hread : BSys.init.bread zeroDisk 1 5 = .ok readFive := by
    unfold readFive
    exact StateExcept.eq_ok_okOr _ (by decide +kernel)
  have hrun : TRun 1 bootLog [] ⟨bootLog.log, readFive.1⟩ :=
    TRun.bread zeroDisk 1 5 .refl (by decide) (by decide)
      (hread.trans (congrArg Except.ok Prod.mk.eta.symm))
  have hwrite : LogCache.log_write ⟨bootLog.log, readFive.1⟩ readFive.2 = .ok logFive := by
    unfold logFive
    exact StateExcept.eq_ok_okOr _ (by decide +kernel)
  have hblk : (readFive.1.cache.buf readFive.2).blockno = 5 := by decide +kernel
  have h : TRun 1 bootLog ([] ++ [(readFive.1.cache.buf readFive.2).blockno]) logFive :=
    TRun.log_write readFive.2 hrun (by decide +kernel) (by decide +kernel) hwrite
  rw [hblk, List.nil_append] at h
  exact h

/-- `brelse` of that buffer, then `bread(1, 5)` again, which finds block 5 still cached: the cache
and the buffer returned. -/
@[irreducible] def readFiveAgain : BSys × Fin NBUF :=
  StateExcept.okOr ((logFive.sys.brelse readFive.2).bread zeroDisk 1 5) (BSys.init, ⟨0, by decide⟩)

/-- A second `log_write` of block 5, through the buffer the second `bread` returned. -/
@[irreducible] def logFiveTwice : LogCache :=
  StateExcept.okOr (LogCache.log_write ⟨logFive.log, readFiveAgain.1⟩ readFiveAgain.2) bootLog

/-- The call goes on: it releases the buffer, reads block 5 again and passes it to `log_write`
a second time. -/
lemma run_logFiveTwice : TRun 1 bootLog [5, 5] logFiveTwice := by
  have hrel : TRun 1 bootLog [5] ⟨logFive.log, logFive.sys.brelse readFive.2⟩ :=
    TRun.brelse readFive.2 run_logFive (by decide +kernel)
  have hread : (logFive.sys.brelse readFive.2).bread zeroDisk 1 5 = .ok readFiveAgain := by
    unfold readFiveAgain
    exact StateExcept.eq_ok_okOr _ (by decide +kernel)
  have hrun : TRun 1 bootLog [5] ⟨logFive.log, readFiveAgain.1⟩ :=
    @TRun.bread 1 bootLog [5] ⟨logFive.log, logFive.sys.brelse readFive.2⟩ readFiveAgain.1
      readFiveAgain.2 zeroDisk 1 5 hrel (by decide) (by decide)
      (hread.trans (congrArg Except.ok Prod.mk.eta.symm))
  have hwrite : LogCache.log_write ⟨logFive.log, readFiveAgain.1⟩ readFiveAgain.2 = .ok logFiveTwice := by
    unfold logFiveTwice
    exact StateExcept.eq_ok_okOr _ (by decide +kernel)
  have hblk : (readFiveAgain.1.cache.buf readFiveAgain.2).blockno = 5 := by decide +kernel
  have h : TRun 1 bootLog ([5] ++ [(readFiveAgain.1.cache.buf readFiveAgain.2).blockno]) logFiveTwice :=
    TRun.log_write readFiveAgain.2 hrun (by decide +kernel) (by decide +kernel) hwrite
  rw [hblk] at h
  exact h

/-- The log's pins after the call has logged block 5 twice: the header lists it once, and its
buffer carries one pin. -/
theorem log_absorption_pins_twice :
    (1 : Nat) ≠ 0 ∧ bootLog.sys.Inv ∧ bootLog.log.lh = [] ∧ (∀ b, bootLog.sys.pins b = 0) ∧
    (∀ b, (bootLog.sys.cache.buf b).dev = 1 → (bootLog.sys.cache.buf b).blockno < 2 ^ 32) ∧
    TRun 1 bootLog [5, 5] logFiveTwice ∧
    (logFiveTwice.log.lh = [5, 5].eraseDups ∧
      (∀ x ∈ logFiveTwice.log.lh, ∃! b, (logFiveTwice.sys.cache.buf b).dev = 1 ∧
        (logFiveTwice.sys.cache.buf b).blockno = x) ∧
      (∀ b, logFiveTwice.sys.pins b =
        if (logFiveTwice.sys.cache.buf b).dev = 1 ∧
          (logFiveTwice.sys.cache.buf b).blockno ∈ logFiveTwice.log.lh
        then 1 else 0) ∧
      ∀ (d : Disk) (bufs : Bufs) (sys' : BSys), commitBufs d 1 logFiveTwice.log logFiveTwice.sys = .ok sys' →
        (Log.commit logFiveTwice.log bufs).1.lh = [] ∧
        (∀ b, (sys'.cache.buf b).refcnt + logFiveTwice.sys.pins b = (logFiveTwice.sys.cache.buf b).refcnt) ∧
        ∀ b, ((sys'.cache.buf b).refcnt : Int) =
          (bootLog.sys.cache.buf b).refcnt + ((logFiveTwice.sys.holds b : Int) - bootLog.sys.holds b)) := by
  have hsmall : ∀ b, (bootLog.sys.cache.buf b).dev = 1 →
      (bootLog.sys.cache.buf b).blockno < 2 ^ 32 := fun b h => by
    simp [bootLog, BSys.init, BCache.binit, BCache.zero] at h
  exact ⟨by decide, BSys.Inv.init, rfl, fun _ => rfl, hsmall, run_logFiveTwice,
    log_absorption_pins (by decide) BSys.Inv.init rfl (fun _ => rfl) hsmall run_logFiveTwice⟩

end Xv6
