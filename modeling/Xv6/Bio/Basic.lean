import Xv6.Param
import Xv6.Lib.DList

/-!
# The buffer cache

Model of `kernel/bio.c`. The `NBUF` buffers of `bcache` and its `head` are the nodes of a
circular doubly linked list ordered by recent use; a node is `some b` for `bcache.buf[b]` and
`none` for `bcache.head`, and the `prev`/`next` fields of all nodes are the two functions of
`BCache.links`. `binit`, `bget`, `bread`, `brelse`, `bpin` and `bunpin` follow the source
statement by statement, the pointer writes through `DList.pushFront` and `DList.unlink`. The two
`for` loops of `bget` are `DList.scan` with one more step of fuel than there are buffers; in a
well-formed list the walk gets back to the head within that bound (`Ring.scan_eq_find`).

The sleep-locks are left out: a call here is one critical section under `bcache.lock` followed
by the caller's exclusive use of the buffer, and the callers keep the rules of the interface,
so `brelse`'s and `bwrite`'s `holdingsleep` checks are not modelled. `bget_ok` says everything
a successful `bget` can do; the invariant module works from it alone.
-/

namespace Xv6

/-- A node of the LRU list: `some b` is `bcache.buf[b]`, `none` is `bcache.head`. -/
abbrev Node := Option (Fin NBUF)

/-- `struct buf` without its sleep-lock, the driver's `disk` flag and the list pointers. -/
structure Buf where
  valid : Bool
  dev : Nat
  blockno : Nat
  refcnt : Nat
  data : Block

/-- `bcache`: the buffers and the `prev`/`next` pointers of every node. -/
structure BCache where
  buf : Fin NBUF → Buf
  links : DList.Links Node

namespace BCache

/-- Overwrite buffer `b`. -/
def setBuf (c : BCache) (b : Fin NBUF) (x : Buf) : BCache :=
  { c with buf := Function.update c.buf b x }

@[simp] lemma setBuf_buf_self (c : BCache) (b : Fin NBUF) (x : Buf) : (c.setBuf b x).buf b = x := by
  simp [setBuf]

@[simp] lemma setBuf_buf_of_ne (c : BCache) {b b' : Fin NBUF} (x : Buf) (h : b' ≠ b) :
    (c.setBuf b x).buf b' = c.buf b' := by
  simp [setBuf, h]

@[simp] lemma setBuf_links (c : BCache) (b : Fin NBUF) (x : Buf) : (c.setBuf b x).links = c.links :=
  rfl

/-- The static `bcache` before `binit`: every field zero. `binit` writes every pointer before
it reads one, so the zeroed pointers are taken as pointing at the head. -/
def zero : BCache :=
  ⟨fun _ => ⟨false, 0, 0, 0, fun _ => 0⟩, ⟨fun _ => none, fun _ => none⟩⟩

/-- `binit`: `head.prev = head.next = &head`, then every buffer in turn inserted after the
head. -/
def binit : BCache :=
  let head : DList.Links Node :=
    ⟨Function.update zero.links.next none none, Function.update zero.links.prev none none⟩
  { zero with links := (List.finRange NBUF).foldl (fun p b => DList.pushFront none (some b) p) head }

/-- The bound on the two walks of `bget`: one more step than there are buffers. -/
def walkFuel : Nat := NBUF + 1

/-- The test of `bget`'s first loop: `b->dev == dev && b->blockno == blockno`. -/
def cached (c : BCache) (dev blockno : Nat) : Node → Bool
  | some b => (c.buf b).dev == dev && (c.buf b).blockno == blockno
  | none => false

/-- The test of `bget`'s second loop: `b->refcnt == 0`. -/
def unused (c : BCache) : Node → Bool
  | some b => (c.buf b).refcnt == 0
  | none => false

/-- `bget`: walk from the most recently used buffer for a cached copy and take one more
reference to it; otherwise walk from the least recently used one for a buffer without
references and recycle it for the block. -/
def bget (c : BCache) (dev blockno : Nat) : Except String (BCache × Fin NBUF) :=
  match DList.scan c.links.next none (c.cached dev blockno) walkFuel (c.links.next none) with
  | some (some b) => .ok (c.setBuf b { c.buf b with refcnt := (c.buf b).refcnt + 1 }, b)
  | _ =>
    match DList.scan c.links.prev none c.unused walkFuel (c.links.prev none) with
    | some (some b) =>
      .ok (c.setBuf b { c.buf b with dev := dev, blockno := blockno, valid := false, refcnt := 1 }, b)
    | _ => .error "bget: no buffers"

/-- `bread`: `bget`, then read the block from disk `d` unless the buffer holds it already. -/
def bread (c : BCache) (d : Disk) (dev blockno : Nat) : Except String (BCache × Fin NBUF) := do
  let (c, b) ← c.bget dev blockno
  if !(c.buf b).valid then
    return (c.setBuf b { c.buf b with data := d blockno, valid := true }, b)
  return (c, b)

/-- `brelse`: drop a reference; the last one moves the buffer to the front of the list. -/
def brelse (c : BCache) (b : Fin NBUF) : BCache :=
  let c := c.setBuf b { c.buf b with refcnt := (c.buf b).refcnt - 1 }
  if (c.buf b).refcnt = 0 then
    { c with links := DList.pushFront none (some b) (DList.unlink (some b) c.links) }
  else c

/-- `bpin`: one more reference, for the log. -/
def bpin (c : BCache) (b : Fin NBUF) : BCache :=
  c.setBuf b { c.buf b with refcnt := (c.buf b).refcnt + 1 }

/-- `bunpin`: one reference less. -/
def bunpin (c : BCache) (b : Fin NBUF) : BCache :=
  c.setBuf b { c.buf b with refcnt := (c.buf b).refcnt - 1 }

/-! ## What the calls do -/

variable {c c' : BCache} {L : List (Fin NBUF)}

/-- In a list through every buffer, the `next` walk of `bget` finds the first cached copy. -/
lemma scan_cached (hr : DList.Ring c.links none (L.map some)) (hlen : L.length ≤ NBUF)
    (dev blockno : Nat) :
    DList.scan c.links.next none (c.cached dev blockno) walkFuel (c.links.next none) =
      (L.find? fun b => c.cached dev blockno (some b)).map some := by
  rw [hr.scan_eq_find (by simp [walkFuel]; omega), List.find?_map]
  rfl

/-- In a list through every buffer, the `prev` walk of `bget` finds the last unused buffer. -/
lemma scan_unused (hr : DList.Ring c.links none (L.map some)) (hlen : L.length ≤ NBUF) :
    DList.scan c.links.prev none c.unused walkFuel (c.links.prev none) =
      (L.reverse.find? fun b => c.unused (some b)).map some := by
  rw [hr.scan_prev_eq_find (by simp [walkFuel]; omega), ← List.map_reverse, List.find?_map]
  rfl

/-- A successful `bget` either found a cached copy of the block, or found no copy at all and
recycled a buffer without references. -/
lemma bget_ok (hr : DList.Ring c.links none (L.map some)) (hall : ∀ b, b ∈ L)
    (hlen : L.length ≤ NBUF) {dev blockno : Nat} {b : Fin NBUF}
    (h : c.bget dev blockno = .ok (c', b)) :
    ((c.buf b).dev = dev ∧ (c.buf b).blockno = blockno ∧
        c' = c.setBuf b { c.buf b with refcnt := (c.buf b).refcnt + 1 }) ∨
      ((∀ b', ¬((c.buf b').dev = dev ∧ (c.buf b').blockno = blockno)) ∧ (c.buf b).refcnt = 0 ∧
        c' = c.setBuf b { c.buf b with dev := dev, blockno := blockno, valid := false, refcnt := 1 }) := by
  unfold bget at h
  rw [scan_cached hr hlen, scan_unused hr hlen] at h
  cases hf : L.find? fun b => c.cached dev blockno (some b) with
  | some b₁ =>
    -- a cached copy: the first loop returns it
    rw [hf] at h
    cases h
    have hb := List.find?_some hf
    simp only [cached, Bool.and_eq_true, beq_iff_eq] at hb
    exact .inl ⟨hb.1, hb.2, rfl⟩
  | none =>
    rw [hf] at h
    have hnone : ∀ b', ¬((c.buf b').dev = dev ∧ (c.buf b').blockno = blockno) := by
      intro b' hb'
      have := List.find?_eq_none.1 hf b' (hall b')
      simp [cached, hb'.1, hb'.2] at this
    cases hu : L.reverse.find? fun b => c.unused (some b) with
    | some b₂ =>
      rw [hu] at h
      cases h
      have hb := List.find?_some hu
      simp only [unused, beq_iff_eq] at hb
      exact .inr ⟨hnone, hb, rfl⟩
    | none =>
      rw [hu] at h
      cases h

/-- A block with a cached copy always gets that copy back. -/
lemma bget_of_cached (hr : DList.Ring c.links none (L.map some)) (hlen : L.length ≤ NBUF)
    {dev blockno : Nat} {b : Fin NBUF} (hb : b ∈ L) (hdev : (c.buf b).dev = dev)
    (hblock : (c.buf b).blockno = blockno)
    (huniq : ∀ b', (c.buf b').dev = dev → (c.buf b').blockno = blockno → b' = b) :
    c.bget dev blockno = .ok (c.setBuf b { c.buf b with refcnt := (c.buf b).refcnt + 1 }, b) := by
  unfold bget
  rw [scan_cached hr hlen]
  -- the walk stops at some cached buffer, and only `b` is one
  obtain ⟨b₁, hf⟩ : ∃ b₁, (L.find? fun b => c.cached dev blockno (some b)) = some b₁ := by
    refine Option.isSome_iff_exists.1 (List.find?_isSome.2 ⟨b, hb, ?_⟩)
    simp [cached, hdev, hblock]
  have hb₁ := List.find?_some hf
  simp only [cached, Bool.and_eq_true, beq_iff_eq] at hb₁
  obtain rfl := huniq b₁ hb₁.1 hb₁.2
  rw [hf]
  rfl

/-- A successful `bread` is a successful `bget` that may also fill the buffer from disk. -/
lemma bread_ok {d : Disk} {dev blockno : Nat} {b : Fin NBUF} (h : c.bread d dev blockno = .ok (c', b)) :
    ∃ c₁, c.bget dev blockno = .ok (c₁, b) ∧
      (c' = c₁ ∨ c' = c₁.setBuf b { c₁.buf b with data := d blockno, valid := true }) := by
  unfold bread at h
  cases hg : c.bget dev blockno with
  | error e => rw [hg] at h; cases h
  | ok r =>
    obtain ⟨c₁, b₁⟩ := r
    rw [hg] at h
    simp only [bind, Except.bind, pure, Except.pure] at h
    split at h <;> cases h
    · exact ⟨_, rfl, .inr rfl⟩
    · exact ⟨_, rfl, .inl rfl⟩

end BCache

end Xv6
