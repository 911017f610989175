import Xv6.Bio.Basic

/-!
# The buffer cache invariant

The callers of `bio.c` run any sequence of `bread`, `brelse`, `bpin` and `bunpin`, each `brelse`
matching an earlier `bread` and each `bunpin` an earlier `bpin`, on nonzero devices. `BSys` adds
to the cache, as ghost counts per buffer, the `bread` results not yet released and the pins not
yet dropped, and `BSys.step` refuses a call that breaks those rules.

`Inv` is the representation invariant, in three parts that the calls touch separately: `Listed`
(the LRU list runs through every buffer once, linked both ways), `Unique` (no two buffers of a
nonzero device cache the same block) and `Counted` (`refcnt` is the number of holders and pins).
Each call keeps each part, from `bget_ok` and the `Ring` lemmas; `bcache_invariant` collects
what every reachable state then has.
-/

namespace Xv6

/-- A call into the buffer cache. -/
inductive BOp where
  | bread (dev blockno : Nat)
  | brelse (b : Fin NBUF)
  | bpin (b : Fin NBUF)
  | bunpin (b : Fin NBUF)

/-- The cache with its ghost counts: `holds b` results of `bread` not yet passed to `brelse`,
and `pins b` calls of `bpin` not yet undone by `bunpin`. -/
structure BSys where
  cache : BCache
  holds : Fin NBUF → Nat
  pins : Fin NBUF → Nat

namespace BSys

/-- The cache after `binit`, with nothing held or pinned. -/
def init : BSys :=
  ⟨BCache.binit, fun _ => 0, fun _ => 0⟩

/-- One call, on disk `d` if it reads one; `none` when it breaks the rules of the interface. -/
def step (d : Disk) (s : BSys) : BOp → Option (Except String BSys)
  | .bread dev blockno =>
    if dev = 0 then none
    else some ((s.cache.bread d dev blockno).map fun r =>
      ⟨r.1, Function.update s.holds r.2 (s.holds r.2 + 1), s.pins⟩)
  | .brelse b =>
    if s.holds b = 0 then none
    else some (.ok ⟨s.cache.brelse b, Function.update s.holds b (s.holds b - 1), s.pins⟩)
  | .bpin b => some (.ok ⟨s.cache.bpin b, s.holds, Function.update s.pins b (s.pins b + 1)⟩)
  | .bunpin b =>
    if s.pins b = 0 then none
    else some (.ok ⟨s.cache.bunpin b, s.holds, Function.update s.pins b (s.pins b - 1)⟩)

/-- The states reached from `binit` by calls that keep the rules and do not panic. -/
inductive Reachable : BSys → Prop
  | init : Reachable init
  | step {s s' : BSys} (d : Disk) (o : BOp) : Reachable s → s.step d o = some (.ok s') →
      Reachable s'

end BSys

namespace BCache

/-- The LRU list runs from the head through every buffer once and back, linked both ways. -/
def Listed (c : BCache) : Prop :=
  ∃ L : List (Fin NBUF), (∀ b, b ∈ L) ∧ DList.Ring c.links none (L.map some)

/-- No two buffers of a nonzero device cache the same block. -/
def Unique (c : BCache) : Prop :=
  ∀ b b', (c.buf b).dev ≠ 0 → (c.buf b).dev = (c.buf b').dev →
    (c.buf b).blockno = (c.buf b').blockno → b = b'

/-- Every buffer's `refcnt` counts its holders and its pins. -/
def Counted (c : BCache) (holds pins : Fin NBUF → Nat) : Prop :=
  ∀ b, (c.buf b).refcnt = holds b + pins b

variable {c : BCache}

/-- A list through every buffer once has one node per buffer. -/
lemma length_eq_of_ring {L : List (Fin NBUF)} (hall : ∀ b, b ∈ L)
    (hr : DList.Ring c.links none (L.map some)) : L.length = NBUF := by
  have hnd : L.Nodup := (List.nodup_cons.1 hr.nodup).2.of_map some
  have huniv : L.toFinset = Finset.univ := Finset.eq_univ_iff_forall.2 fun b => by simpa using hall b
  rw [← List.toFinset_card_of_nodup hnd, huniv, Finset.card_univ, Fintype.card_fin]

lemma length_le_of_ring {L : List (Fin NBUF)} (hr : DList.Ring c.links none (L.map some)) :
    L.length ≤ NBUF := by
  have hnd : L.Nodup := (List.nodup_cons.1 hr.nodup).2.of_map some
  simpa using hnd.length_le_card

lemma Listed.setBuf (hl : c.Listed) (b : Fin NBUF) (x : Buf) : (c.setBuf b x).Listed := hl

/-- Moving a buffer to the front keeps the list through every buffer. -/
lemma Listed.moveFront (hl : c.Listed) (b : Fin NBUF) :
    Listed { c with links := DList.pushFront none (some b) (DList.unlink (some b) c.links) } := by
  obtain ⟨L, hall, hr⟩ := hl
  obtain ⟨L₁, L₂, rfl⟩ := List.append_of_mem (hall b)
  have hnd : (L₁ ++ b :: L₂).Nodup := (List.nodup_cons.1 hr.nodup).2.of_map some
  rw [List.map_append, List.map_cons] at hr
  have hun := hr.unlink
  rw [← List.map_append] at hun
  have hout : some b ∉ none :: (L₁ ++ L₂).map some := by
    simp only [List.nodup_append, List.nodup_cons, List.mem_cons] at hnd
    simp only [List.mem_cons, reduceCtorEq, List.mem_map, Option.some.injEq, List.mem_append,
      false_or, not_exists, not_and]
    rintro y (hy | hy) rfl
    · exact hnd.2.2 y hy y (.inl rfl) rfl
    · exact hnd.2.1.1 hy
  refine ⟨b :: (L₁ ++ L₂), fun b' => ?_, hun.pushFront hout⟩
  have hb' := hall b'
  simp only [List.mem_append, List.mem_cons] at hb' ⊢
  tauto

/-- A change to a buffer that keeps its device and block number keeps them unique. -/
lemma Unique.setBuf (hu : c.Unique) {b : Fin NBUF} {x : Buf} (hdev : x.dev = (c.buf b).dev)
    (hblk : x.blockno = (c.buf b).blockno) : (c.setBuf b x).Unique := by
  have hsame : ∀ b', (c.setBuf b x).buf b' = c.buf b' ∨
      ((c.setBuf b x).buf b').dev = (c.buf b').dev ∧
        ((c.setBuf b x).buf b').blockno = (c.buf b').blockno := by
    intro b'
    by_cases e : b' = b
    · subst e
      exact .inr ⟨by simp [hdev], by simp [hblk]⟩
    · exact .inl (by simp [e])
  intro b₁ b₂ h₁ h₂ h₃
  refine hu b₁ b₂ ?_ ?_ ?_ <;>
    rcases hsame b₁ with e₁ | ⟨d₁, n₁⟩ <;> rcases hsame b₂ with e₂ | ⟨d₂, n₂⟩ <;>
    simp_all

/-- Recycling a buffer for a block that no buffer caches keeps the blocks unique. -/
lemma Unique.recycle (hu : c.Unique) {b : Fin NBUF} {dev blockno : Nat}
    (hnone : ∀ b', ¬((c.buf b').dev = dev ∧ (c.buf b').blockno = blockno)) :
    (c.setBuf b { c.buf b with dev := dev, blockno := blockno, valid := false, refcnt := 1 }).Unique := by
  intro b₁ b₂ h₁ h₂ h₃
  by_cases e₁ : b₁ = b <;> by_cases e₂ : b₂ = b
  · rw [e₁, e₂]
  · subst e₁
    simp only [setBuf_buf_self, setBuf_buf_of_ne _ _ e₂] at h₂ h₃
    exact absurd ⟨h₂.symm, h₃.symm⟩ (hnone b₂)
  · subst e₂
    simp only [setBuf_buf_self, setBuf_buf_of_ne _ _ e₁] at h₂ h₃
    exact absurd ⟨h₂, h₃⟩ (hnone b₁)
  · simp only [setBuf_buf_of_ne _ _ e₁, setBuf_buf_of_ne _ _ e₂] at h₁ h₂ h₃
    exact hu b₁ b₂ h₁ h₂ h₃

/-- A change to one buffer's count that matches the change of its holders and pins keeps the
counts. -/
lemma Counted.setBuf {holds pins holds' pins' : Fin NBUF → Nat} (hc : c.Counted holds pins)
    {b : Fin NBUF} {x : Buf} (hx : x.refcnt = holds' b + pins' b)
    (hh : ∀ b' ≠ b, holds' b' = holds b') (hp : ∀ b' ≠ b, pins' b' = pins b') :
    (c.setBuf b x).Counted holds' pins' := by
  intro b'
  by_cases e : b' = b
  · subst e
    simpa using hx
  · rw [setBuf_buf_of_ne _ _ e, hh b' e, hp b' e]
    exact hc b'

lemma Counted.links {holds pins : Fin NBUF → Nat} (hc : c.Counted holds pins) (p : DList.Links Node) :
    Counted { c with links := p } holds pins := hc

end BCache

namespace BSys

open BCache

/-- The representation invariant of `bcache`. -/
structure Inv (s : BSys) : Prop where
  listed : s.cache.Listed
  unique : s.cache.Unique
  counted : s.cache.Counted s.holds s.pins

lemma Inv.init : Inv init := by
  refine ⟨?_, fun b _ h => absurd rfl h, fun b => rfl⟩
  -- `binit` inserts the buffers in order, so the list runs from the last one to the first
  refine ⟨(List.finRange NBUF).reverse, by simp, ?_⟩
  have hnil : DList.Ring (⟨Function.update zero.links.next none none,
      Function.update zero.links.prev none none⟩ : DList.Links Node) none [] :=
    DList.Ring.nil (by simp) (by simp)
  have := DList.Ring.foldl_pushFront hnil
    ((List.nodup_finRange NBUF).map (Option.some_injective _)) (by simp)
  rw [List.foldl_map] at this
  show DList.Ring BCache.binit.links none _
  simpa [BCache.binit, List.map_reverse] using this

/-- A call that keeps the rules either reads, releases, pins or unpins one buffer. -/
lemma step_ok {d : Disk} {s s' : BSys} {o : BOp} (h : s.step d o = some (.ok s')) :
    (∃ dev blockno c' b, dev ≠ 0 ∧ s.cache.bread d dev blockno = .ok (c', b) ∧
        s' = ⟨c', Function.update s.holds b (s.holds b + 1), s.pins⟩) ∨
      (∃ b, s.holds b ≠ 0 ∧
        s' = ⟨s.cache.brelse b, Function.update s.holds b (s.holds b - 1), s.pins⟩) ∨
      (∃ b, s' = ⟨s.cache.bpin b, s.holds, Function.update s.pins b (s.pins b + 1)⟩) ∨
      (∃ b, s.pins b ≠ 0 ∧
        s' = ⟨s.cache.bunpin b, s.holds, Function.update s.pins b (s.pins b - 1)⟩) := by
  cases o with
  | bread dev blockno =>
    simp only [step] at h
    split at h
    · cases h
    · cases hr : s.cache.bread d dev blockno with
      | error e => rw [hr] at h; cases h
      | ok r =>
        rw [hr] at h
        cases h
        exact .inl ⟨dev, blockno, r.1, r.2, ‹_›, hr, rfl⟩
  | brelse b =>
    simp only [step] at h
    split at h
    · cases h
    · cases h
      exact .inr (.inl ⟨b, ‹_›, rfl⟩)
  | bpin b =>
    cases h
    exact .inr (.inr (.inl ⟨b, rfl⟩))
  | bunpin b =>
    simp only [step] at h
    split at h
    · cases h
    · cases h
      exact .inr (.inr (.inr ⟨b, ‹_›, rfl⟩))

/-- A change to a buffer's contents alone keeps the invariant. -/
lemma Inv.setBuf_same {c : BCache} {holds pins : Fin NBUF → Nat} (hi : Inv ⟨c, holds, pins⟩)
    {b : Fin NBUF} {x : Buf} (hdev : x.dev = (c.buf b).dev) (hblk : x.blockno = (c.buf b).blockno)
    (hrc : x.refcnt = (c.buf b).refcnt) : Inv ⟨c.setBuf b x, holds, pins⟩ :=
  ⟨hi.listed.setBuf _ _, hi.unique.setBuf hdev hblk,
    hi.counted.setBuf (hrc.trans (hi.counted b)) (fun _ _ => rfl) (fun _ _ => rfl)⟩

/-- `bget` keeps the invariant, with one more holder of the buffer it returns. -/
lemma Inv.bget {s : BSys} (hi : Inv s) {dev blockno : Nat} {c₁ : BCache} {b : Fin NBUF}
    (h : s.cache.bget dev blockno = .ok (c₁, b)) :
    Inv ⟨c₁, Function.update s.holds b (s.holds b + 1), s.pins⟩ := by
  obtain ⟨L, hall, hr⟩ := hi.listed
  have hh : ∀ b' ≠ b, Function.update s.holds b (s.holds b + 1) b' = s.holds b' :=
    fun b' hb' => Function.update_of_ne hb' _ _
  have hc := hi.counted b
  rcases bget_ok hr hall (length_le_of_ring hr) h with ⟨-, -, rfl⟩ | ⟨hnone, hz, rfl⟩
  · -- a cached copy gains a reference
    refine ⟨hi.listed.setBuf _ _, hi.unique.setBuf rfl rfl,
      hi.counted.setBuf ?_ hh fun _ _ => rfl⟩
    simp only [Function.update_self]
    omega
  · -- a recycled buffer had neither holders nor pins
    refine ⟨hi.listed.setBuf _ _, hi.unique.recycle hnone,
      hi.counted.setBuf ?_ hh fun _ _ => rfl⟩
    simp only [Function.update_self]
    omega

lemma Inv.bread {s : BSys} (hi : Inv s) {d : Disk} {dev blockno : Nat} {c' : BCache}
    {b : Fin NBUF} (h : s.cache.bread d dev blockno = .ok (c', b)) :
    Inv ⟨c', Function.update s.holds b (s.holds b + 1), s.pins⟩ := by
  obtain ⟨c₁, hg, rfl | rfl⟩ := bread_ok h
  · exact hi.bget hg
  · exact (hi.bget hg).setBuf_same rfl rfl rfl

lemma Inv.brelse {s : BSys} (hi : Inv s) {b : Fin NBUF} (hb : s.holds b ≠ 0) :
    Inv ⟨s.cache.brelse b, Function.update s.holds b (s.holds b - 1), s.pins⟩ := by
  have hc := hi.counted b
  -- the reference is dropped first
  have h₁ : Inv ⟨s.cache.setBuf b { s.cache.buf b with refcnt := (s.cache.buf b).refcnt - 1 },
      Function.update s.holds b (s.holds b - 1), s.pins⟩ := by
    refine ⟨hi.listed.setBuf _ _, hi.unique.setBuf rfl rfl,
      hi.counted.setBuf ?_ (fun b' hb' => Function.update_of_ne hb' _ _) fun _ _ => rfl⟩
    simp only [Function.update_self]
    omega
  dsimp only [BCache.brelse]
  split
  · -- the last reference moves the buffer to the front
    exact ⟨h₁.listed.moveFront b, h₁.unique, h₁.counted.links _⟩
  · exact h₁

lemma Inv.bpin {s : BSys} (hi : Inv s) (b : Fin NBUF) :
    Inv ⟨s.cache.bpin b, s.holds, Function.update s.pins b (s.pins b + 1)⟩ := by
  have hc := hi.counted b
  refine ⟨hi.listed.setBuf _ _, hi.unique.setBuf rfl rfl,
    hi.counted.setBuf ?_ (fun _ _ => rfl) fun b' hb' => Function.update_of_ne hb' _ _⟩
  simp only [Function.update_self]
  omega

lemma Inv.bunpin {s : BSys} (hi : Inv s) {b : Fin NBUF} (hb : s.pins b ≠ 0) :
    Inv ⟨s.cache.bunpin b, s.holds, Function.update s.pins b (s.pins b - 1)⟩ := by
  have hc := hi.counted b
  refine ⟨hi.listed.setBuf _ _, hi.unique.setBuf rfl rfl,
    hi.counted.setBuf ?_ (fun _ _ => rfl) fun b' hb' => Function.update_of_ne hb' _ _⟩
  simp only [Function.update_self]
  omega

lemma Inv.step {d : Disk} {s s' : BSys} {o : BOp} (hi : Inv s) (h : s.step d o = some (.ok s')) :
    Inv s' := by
  rcases step_ok h with ⟨dev, blockno, c', b, -, hb, rfl⟩ | ⟨b, hb, rfl⟩ | ⟨b, rfl⟩ | ⟨b, hb, rfl⟩
  · exact hi.bread hb
  · exact hi.brelse hb
  · exact hi.bpin b
  · exact hi.bunpin hb

lemma Reachable.inv {s : BSys} (hs : Reachable s) : Inv s := by
  induction hs with
  | init => exact Inv.init
  | step d o _ hstep ih => exact ih.step hstep

/-- **Buffer-cache representation invariant.** In every state reached from `binit` by calls
that keep the rules: following `next` from `bcache.head` visits each of the `NBUF` buffers once
and comes back to the head, and every node is the `next` of its `prev` and the `prev` of its
`next`; no two buffers of a nonzero device cache the same block; every `refcnt` is the number
of outstanding `bread` results and pins of the buffer. So `bget` returns either the cached copy
of the block or a buffer nobody holds or pins, and a block with a cached copy always gets that
one buffer back. -/
theorem bcache_invariant {s : BSys} (hs : Reachable s) :
    (∃ L : List (Fin NBUF), L.Nodup ∧ (∀ b, b ∈ L) ∧
      (List.range (NBUF + 1)).map (fun i => s.cache.links.next^[i + 1] none) =
        L.map some ++ [none]) ∧
    (∀ n : Node, s.cache.links.next (s.cache.links.prev n) = n ∧
      s.cache.links.prev (s.cache.links.next n) = n) ∧
    (∀ b b', (s.cache.buf b).dev ≠ 0 → (s.cache.buf b).dev = (s.cache.buf b').dev →
      (s.cache.buf b).blockno = (s.cache.buf b').blockno → b = b') ∧
    (∀ b, (s.cache.buf b).refcnt = s.holds b + s.pins b) ∧
    (∀ dev blockno c' b, s.cache.bget dev blockno = .ok (c', b) →
      ((s.cache.buf b).dev = dev ∧ (s.cache.buf b).blockno = blockno) ∨
        (s.holds b = 0 ∧ s.pins b = 0)) ∧
    (∀ dev blockno b, dev ≠ 0 → (s.cache.buf b).dev = dev → (s.cache.buf b).blockno = blockno →
      ∃ c', s.cache.bget dev blockno = .ok (c', b)) := by
  have hi := hs.inv
  obtain ⟨L, hall, hr⟩ := hi.listed
  have hlen := length_eq_of_ring hall hr
  have hnode : ∀ n : Node, n ∈ none :: L.map some := by
    rintro (_ | b)
    · exact List.mem_cons_self
    · exact List.mem_cons_of_mem _ (List.mem_map_of_mem (hall b))
  refine ⟨⟨L, (List.nodup_cons.1 hr.nodup).2.of_map some, hall, ?_⟩,
    fun n => ⟨hr.next_prev (hnode n), hr.prev_next (hnode n)⟩, hi.unique, hi.counted,
    fun dev blockno c' b h => ?_, fun dev blockno b hdev hd hbk => ?_⟩
  · simpa [hlen] using hr.iterate_next
  · rcases bget_ok hr hall hlen.le h with ⟨hd, hbk, -⟩ | ⟨-, hz, -⟩
    · exact .inl ⟨hd, hbk⟩
    · have := hi.counted b
      exact .inr (by omega)
  · -- only `b` caches the block, so the first walk stops there
    refine ⟨_, bget_of_cached hr hlen.le (hall b) hd hbk fun b' hd' hbk' => ?_⟩
    exact (hi.unique b' b (by omega) (hd'.trans hd.symm) (hbk'.trans hbk.symm))

set_option maxRecDepth 10000 in
/-- The invariant after a `bread` of block 7, a `bpin` of the buffer it returned (buffer 0, the
tail of `binit`'s list) and its `brelse`: the pin alone keeps the buffer's `refcnt` at 1. -/
theorem bcache_invariant_pinned :
    ∃ s₁ s₂ s : BSys, init.step (fun _ => default) (.bread 1 7) = some (.ok s₁) ∧
      s₁.step (fun _ => default) (.bpin ⟨0, NBUF_pos⟩) = some (.ok s₂) ∧
      s₂.step (fun _ => default) (.brelse ⟨0, NBUF_pos⟩) = some (.ok s) ∧
    (∃ L : List (Fin NBUF), L.Nodup ∧ (∀ b, b ∈ L) ∧
      (List.range (NBUF + 1)).map (fun i => s.cache.links.next^[i + 1] none) =
        L.map some ++ [none]) ∧
    (∀ n : Node, s.cache.links.next (s.cache.links.prev n) = n ∧
      s.cache.links.prev (s.cache.links.next n) = n) ∧
    (∀ b b', (s.cache.buf b).dev ≠ 0 → (s.cache.buf b).dev = (s.cache.buf b').dev →
      (s.cache.buf b).blockno = (s.cache.buf b').blockno → b = b') ∧
    (∀ b, (s.cache.buf b).refcnt = s.holds b + s.pins b) ∧
    (∀ dev blockno c' b, s.cache.bget dev blockno = .ok (c', b) →
      ((s.cache.buf b).dev = dev ∧ (s.cache.buf b).blockno = blockno) ∨
        (s.holds b = 0 ∧ s.pins b = 0)) ∧
    (∀ dev blockno b, dev ≠ 0 → (s.cache.buf b).dev = dev → (s.cache.buf b).blockno = blockno →
      ∃ c', s.cache.bget dev blockno = .ok (c', b)) := by
  refine ⟨_, _, _, rfl, rfl, rfl, ?_⟩
  exact bcache_invariant (.step (fun _ => default) (.brelse ⟨0, NBUF_pos⟩)
    (.step (fun _ => default) (.bpin ⟨0, NBUF_pos⟩)
      (.step (fun _ => default) (.bread 1 7) .init rfl) rfl) rfl)

end BSys

end Xv6
