import Xv6.Lib.Machine

/-!
# Virtio disk descriptors

Model of the descriptor bookkeeping of `kernel/virtio_disk.c`: `alloc_desc`, `free_desc`,
`free_chain` and `alloc3_desc` over `disk.free` and `disk.desc`, the two halves of
`virtio_disk_rw` around its sleep, and `virtio_disk_intr`. A descriptor keeps its `flags` and
`next`; the buffer address and length that `virtio_disk_rw` writes for the device are not
modelled. A `struct buf` is named by a number, and `b->disk` of each buffer is part of the state.

`virtio_disk_rw` holds `disk.vdisk_lock` except while it sleeps, so a run of the driver is an
interleaving of segments (`Step`): a call that allocates and formats its chain and hands it to the
device through the avail ring, or finds fewer than three free descriptors and sleeps; a call whose
buffer the interrupt has released, which frees its chain; an interrupt; and the device, which reads
chain heads from the avail ring and completes the heads it was given, each once, in any order,
through the used ring. The calls between their allocation and their `free_chain` are the requests
in flight (`State.calls`), each with its `idx[3]`.

In every reachable state the descriptors in use are exactly the disjoint union of the chains of the
requests in flight, each chain linked by `VRING_DESC_F_NEXT` (`Wf`, `reachable_wf`). Neither
`free_desc` panic is reachable, and at most `NUM / 3` requests are in flight.
-/

namespace Xv6.Virtio

/-- `NUM`, the number of descriptors. -/
def NUM : Nat := 8

def VRING_DESC_F_NEXT : UInt16 := 1
def VRING_DESC_F_WRITE : UInt16 := 2

/-- A `struct virtq_desc`, without the buffer's `addr` and `len`. -/
structure Desc where
  flags : UInt16
  next : UInt16
  deriving DecidableEq, Repr

/-- An entry of `disk.info`: the buffer of the request whose chain starts here, and the status
byte the device writes. -/
structure Info where
  b : Option Nat
  status : UInt8

/-- The driver's side of `struct disk`, with `b->disk` of each buffer. -/
structure Disk where
  desc : Nat → Desc
  free : Nat → Bool
  info : Nat → Info
  /-- `avail->idx` and `avail->ring`. -/
  availIdx : UInt16
  availRing : Nat → UInt16
  /-- `used->idx` and the `id` of each `used->ring` entry, written by the device. -/
  usedIdx : UInt16
  usedRing : Nat → UInt32
  used_idx : UInt16
  bdisk : Nat → Bool

namespace Disk

/-- `disk.free[i] = 0`. -/
def take (d : Disk) (i : Nat) : Disk := { d with free := Function.update d.free i false }

/-- The stores of a `free_desc(i)` that does not panic: the descriptor cleared and
`disk.free[i] = 1`. -/
def release (d : Disk) (i : Nat) : Disk :=
  { d with desc := Function.update d.desc i ⟨0, 0⟩, free := Function.update d.free i true }

end Disk

/-- `alloc_desc()`: the first free descriptor, marked in use, or `-1`. -/
def alloc_desc (d : Disk) : Int × Disk :=
  match (List.range NUM).find? d.free with
  | some i => (i, d.take i)
  | none => (-1, d)

/-- `free_desc(i)`. Its callers pass descriptor numbers, never negative. -/
def free_desc (i : Nat) (d : Disk) : Except String Disk :=
  if i ≥ NUM then .error "free_desc 1"
  else if d.free i then .error "free_desc 2"
  else .ok (d.release i)

/-- The loop of `free_chain(i)`. Each round frees a descriptor in use or panics, so `NUM + 1`
rounds always reach its end. -/
def free_chain : Nat → Nat → Disk → Except String Disk
  | 0, _, d => .ok d
  | fuel + 1, i, d => do
    let flag := (d.desc i).flags
    let nxt := (d.desc i).next
    let d ← free_desc i d
    if flag &&& VRING_DESC_F_NEXT != 0 then free_chain fuel nxt.toNat d else pure d

/-- The loop of `alloc3_desc` with `k` descriptors still to take, after taking `idx`. -/
def alloc3Loop : Nat → List Nat → Disk → Except String (Int × List Nat × Disk)
  | 0, idx, d => pure (0, idx, d)
  | k + 1, idx, d =>
    match alloc_desc d with
    | (i, d) =>
      if i < 0 then do
        -- give back the descriptors taken so far
        let d ← idx.foldlM (fun d j => free_desc j d) d
        pure (-1, idx, d)
      else alloc3Loop k (idx ++ [i.toNat]) d

/-- `alloc3_desc(idx)`: `0` and the three descriptors taken, or `-1`. -/
def alloc3_desc (d : Disk) : Except String (Int × List Nat × Disk) := alloc3Loop 3 [] d

/-- The part of `virtio_disk_rw(b, write)` after `alloc3_desc` succeeds: format the chain `idx`,
record `b` in `disk.info[idx[0]]` with status `0xff`, set `b->disk = 1` and hand the head to the
device. -/
def submit (b : Nat) (write : Bool) (idx : List Nat) (d : Disk) : Disk :=
  let i₀ := idx.getD 0 0
  let i₁ := idx.getD 1 0
  let i₂ := idx.getD 2 0
  let desc := Function.update d.desc i₀ ⟨VRING_DESC_F_NEXT, UInt16.ofNat i₁⟩
  let desc := Function.update desc i₁
    ⟨(if write then 0 else VRING_DESC_F_WRITE) ||| VRING_DESC_F_NEXT, UInt16.ofNat i₂⟩
  let desc := Function.update desc i₂ ⟨VRING_DESC_F_WRITE, 0⟩
  { d with
    desc := desc
    info := Function.update d.info i₀ ⟨some b, 0xff⟩
    bdisk := Function.update d.bdisk b true
    availRing := Function.update d.availRing (d.availIdx.toNat % NUM) (UInt16.ofNat i₀)
    availIdx := d.availIdx + 1 }

/-- The loop of `virtio_disk_intr` over the used ring entries it has not seen. -/
def intrLoop : Nat → Disk → Except String Disk
  | 0, d => .ok d
  | fuel + 1, d =>
    if d.used_idx != d.usedIdx then
      let id := (d.usedRing (d.used_idx.toNat % NUM)).toNat
      if (d.info id).status != 0 then .error "virtio_disk_intr status"
      else
        match (d.info id).b with
        -- `b->disk = 0` through a null `b` traps in the kernel
        | none => .error "kerneltrap"
        | some b =>
          intrLoop fuel { d with bdisk := Function.update d.bdisk b false, used_idx := d.used_idx + 1 }
    else .ok d

/-- `virtio_disk_intr()`: one round per used ring entry between `used_idx` and `used->idx`. -/
def virtio_disk_intr (d : Disk) : Except String Disk :=
  intrLoop ((d.usedIdx - d.used_idx).toNat + 1) d

/-- A call of `virtio_disk_rw` that holds descriptors: its buffer and its `idx[3]`. -/
structure Req where
  b : Nat
  idx : List Nat
  deriving DecidableEq

/-- The device: how far it has read the avail ring, and the chain heads it was given and has not
completed. -/
structure Device where
  seen : UInt16
  given : List Nat

/-- The driver, the requests in flight and the device. -/
structure State where
  disk : Disk
  calls : List Req
  dev : Device

/-- `virtio_disk_rw(b, write)` up to its sleep on `b->disk`: a call that gets its three
descriptors is in flight from here on; one that does not sleeps on `disk.free[0]`, to start
again. -/
def virtio_disk_rw (b : Nat) (write : Bool) (s : State) : Except String State := do
  let (r, idx, d) ← alloc3_desc s.disk
  if r == 0 then pure { s with disk := submit b write idx d, calls := s.calls ++ [⟨b, idx⟩] }
  else pure { s with disk := d }

/-- The rest of `virtio_disk_rw` for the call `c`, once `b->disk` is `0`:
`disk.info[idx[0]].b = 0` and `free_chain(idx[0])`. -/
def virtio_disk_rw_end (c : Req) (s : State) : Except String State := do
  let i₀ := c.idx.getD 0 0
  let d := { s.disk with info := Function.update s.disk.info i₀ { s.disk.info i₀ with b := none } }
  let d ← free_chain (NUM + 1) i₀ d
  pure { s with disk := d, calls := s.calls.erase c }

/-- The device reads the next chain head from the avail ring. -/
def fetch (s : State) : State :=
  if s.dev.seen != s.disk.availIdx then
    { s with
      dev := ⟨s.dev.seen + 1, s.dev.given ++ [(s.disk.availRing (s.dev.seen.toNat % NUM)).toNat]⟩ }
  else s

/-- The device completes the `k`-th head it holds: status `0` through the chain's third
descriptor, and a used ring entry. -/
def complete (k : Nat) (s : State) : State :=
  match s.dev.given[k]? with
  | none => s
  | some h =>
    { s with
      disk := { s.disk with
        info := Function.update s.disk.info h { s.disk.info h with status := 0 }
        usedRing := Function.update s.disk.usedRing (s.disk.usedIdx.toNat % NUM) (UInt32.ofNat h)
        usedIdx := s.disk.usedIdx + 1 }
      dev := { s.dev with given := s.dev.given.eraseIdx k } }

/-- A segment of the driver, or a move of the device. -/
inductive Step : State → State → Prop
  | rw {s s' : State} (b : Nat) (write : Bool) : virtio_disk_rw b write s = .ok s' → Step s s'
  | wake {s s' : State} (c : Req) : c ∈ s.calls → s.disk.bdisk c.b = false →
      virtio_disk_rw_end c s = .ok s' → Step s s'
  | intr {s : State} {d : Disk} : virtio_disk_intr s.disk = .ok d → Step s { s with disk := d }
  | fetch (s : State) : Step s (fetch s)
  | complete (s : State) (k : Nat) : Step s (complete k s)

/-- The driver from `virtio_disk_init`: every descriptor free and cleared, the rings empty. -/
def system : Machine.System State where
  init s := (∀ i < NUM, s.disk.free i = true ∧ s.disk.desc i = ⟨0, 0⟩) ∧ s.disk.availIdx = 0 ∧
    s.disk.usedIdx = 0 ∧ s.disk.used_idx = 0 ∧ s.calls = [] ∧ s.dev.seen = 0 ∧ s.dev.given = []
  next := Step

/-! ## The descriptor table -/

namespace Disk

variable (d : Disk) (i j : Nat)

@[simp] lemma take_desc : (d.take i).desc = d.desc := rfl

@[simp] lemma take_free : (d.take i).free j = if j = i then false else d.free j :=
  Function.update_apply _ _ _ _

@[simp] lemma release_desc : (d.release i).desc j = if j = i then ⟨0, 0⟩ else d.desc j :=
  Function.update_apply _ _ _ _

@[simp] lemma release_free : (d.release i).free j = if j = i then true else d.free j :=
  Function.update_apply _ _ _ _

/-- Taking one descriptor and giving back another commute. -/
lemma release_take {a b : Nat} (h : a ≠ b) : (d.take b).release a = (d.release a).take b := by
  simp only [take, release, Function.update_comm h.symm]

/-- Giving back a descriptor just taken, when it was free and cleared, restores the table. -/
lemma take_release_self (hf : d.free i = true) (hz : d.desc i = ⟨0, 0⟩) : (d.take i).release i = d := by
  have hfree : Function.update d.free i true = d.free := Function.update_eq_self_iff.mpr hf.symm
  have hdesc : Function.update d.desc i ⟨0, 0⟩ = d.desc := Function.update_eq_self_iff.mpr hz.symm
  simp only [take, release, Function.update_idem, hfree, hdesc]

variable (l : List Nat)

lemma foldl_take_desc : (l.foldl take d).desc = d.desc := by
  induction l generalizing d with
  | nil => rfl
  | cons a l ih => exact ih (d.take a)

lemma foldl_take_free : (l.foldl take d).free j = if j ∈ l then false else d.free j := by
  induction l generalizing d with
  | nil => simp
  | cons a l ih =>
    rw [List.foldl_cons, ih, take_free]
    by_cases hja : j = a <;> by_cases hjl : j ∈ l <;> simp [hja, hjl]

lemma release_foldl_take {a : Nat} (ha : a ∉ l) :
    (l.foldl take d).release a = l.foldl take (d.release a) := by
  induction l generalizing d with
  | nil => rfl
  | cons b l ih =>
    have hab : a ≠ b := fun h => ha (h ▸ List.mem_cons_self)
    rw [List.foldl_cons, ih (d.take b) (fun h => ha (List.mem_cons_of_mem b h)), release_take d hab]
    rfl

end Disk

section Alloc

variable {d : Disk} {i : Nat}

/-- `alloc_desc` takes the first free descriptor, or finds none and changes nothing. -/
lemma alloc_desc_spec (d : Disk) :
    (∃ i < NUM, d.free i = true ∧ alloc_desc d = ((i : Int), d.take i)) ∨
      ((∀ i < NUM, d.free i = false) ∧ alloc_desc d = (-1, d)) := by
  unfold alloc_desc
  cases h : (List.range NUM).find? d.free with
  | some i => exact .inl ⟨i, List.mem_range.mp (List.mem_of_find?_eq_some h), List.find?_some h, rfl⟩
  | none =>
    refine .inr ⟨fun i hi => ?_, rfl⟩
    simpa using List.find?_eq_none.mp h i (List.mem_range.mpr hi)

lemma free_desc_ok (hi : i < NUM) (hf : d.free i = false) : free_desc i d = .ok (d.release i) := by
  unfold free_desc
  rw [if_neg (Nat.not_le.mpr hi), if_neg (by simp [hf])]

/-- Giving back, in order, descriptors taken from a table where they were free and cleared
restores the table. -/
lemma foldlM_free_desc : ∀ (l : List Nat) (d : Disk), l.Nodup →
    (∀ j ∈ l, j < NUM ∧ d.free j = true ∧ d.desc j = ⟨0, 0⟩) →
    l.foldlM (fun d j => free_desc j d) (l.foldl Disk.take d) = .ok d
  | [], _, _, _ => rfl
  | a :: l, d, hnd, h => by
    obtain ⟨ha, hnd⟩ := List.nodup_cons.mp hnd
    obtain ⟨hlt, hf, hz⟩ := h a List.mem_cons_self
    have htaken : (l.foldl Disk.take (d.take a)).free a = false := by
      simp [Disk.foldl_take_free, ha]
    rw [List.foldlM_cons, List.foldl_cons, free_desc_ok hlt htaken, Disk.release_foldl_take _ _ ha,
      Disk.take_release_self _ _ hf hz]
    exact foldlM_free_desc l d hnd fun j hj => h j (List.mem_cons_of_mem a hj)

/-- The loop of `alloc3_desc` from a table `d₀` whose free descriptors are cleared, after taking
`idx`: it takes `k` more distinct free descriptors, or gives back all it took. -/
lemma alloc3Loop_spec {d₀ : Disk} (hz : ∀ i < NUM, d₀.free i = true → d₀.desc i = ⟨0, 0⟩) :
    ∀ (k : Nat) (idx : List Nat), idx.Nodup → (∀ j ∈ idx, j < NUM ∧ d₀.free j = true) →
      (∃ new : List Nat, new.length = k ∧ (idx ++ new).Nodup ∧
          (∀ j ∈ new, j < NUM ∧ d₀.free j = true) ∧
          alloc3Loop k idx (idx.foldl Disk.take d₀) =
            .ok (0, idx ++ new, (idx ++ new).foldl Disk.take d₀)) ∨
        ∃ idx', alloc3Loop k idx (idx.foldl Disk.take d₀) = .ok (-1, idx', d₀)
  | 0, idx, _, _ => .inl ⟨[], rfl, by simpa, by simp, by rw [List.append_nil]; rfl⟩
  | k + 1, idx, hnd, hidx => by
    rcases alloc_desc_spec (idx.foldl Disk.take d₀) with ⟨i, hi, hfree, hal⟩ | ⟨_, hal⟩
    · -- the descriptor taken was free in `d₀` and is not among those taken before
      rw [Disk.foldl_take_free] at hfree
      have hni : i ∉ idx := fun h => by simp [h] at hfree
      have hfi : d₀.free i = true := by simpa [hni] using hfree
      have hstep : alloc3Loop (k + 1) idx (idx.foldl Disk.take d₀) =
          alloc3Loop k (idx ++ [i]) ((idx ++ [i]).foldl Disk.take d₀) := by
        rw [alloc3Loop, hal]
        simp
      have hnd' : (idx ++ [i]).Nodup := List.nodup_append.mpr
        ⟨hnd, List.nodup_singleton i, fun a ha b hb => by
          rw [List.mem_singleton.mp hb]
          exact fun e => hni (e ▸ ha)⟩
      have hidx' : ∀ j ∈ idx ++ [i], j < NUM ∧ d₀.free j = true := by
        intro j hj
        rcases List.mem_append.mp hj with hj | hj
        · exact hidx j hj
        · rw [List.mem_singleton.mp hj]
          exact ⟨hi, hfi⟩
      rcases alloc3Loop_spec hz k (idx ++ [i]) hnd' hidx' with ⟨new, hlen, hnd'', hnew, h⟩ | ⟨idx', h⟩
      · refine .inl ⟨i :: new, by simp [hlen], by simpa using hnd'', ?_, by simpa [hstep] using h⟩
        intro j hj
        rcases List.mem_cons.mp hj with rfl | hj
        · exact ⟨hi, hfi⟩
        · exact hnew j hj
      · exact .inr ⟨idx', hstep ▸ h⟩
    · -- no descriptor is free: give back those taken
      have hback := foldlM_free_desc idx d₀ hnd fun j hj =>
        ⟨(hidx j hj).1, (hidx j hj).2, hz j (hidx j hj).1 (hidx j hj).2⟩
      refine .inr ⟨idx, ?_⟩
      rw [alloc3Loop, hal]
      simp [hback]

/-- `alloc3_desc` on a table whose free descriptors are cleared takes three distinct free
descriptors, or returns `-1` with the table unchanged. -/
lemma alloc3_desc_spec (hz : ∀ i < NUM, d.free i = true → d.desc i = ⟨0, 0⟩) :
    (∃ a₀ a₁ a₂, [a₀, a₁, a₂].Nodup ∧ (∀ j ∈ [a₀, a₁, a₂], j < NUM ∧ d.free j = true) ∧
        alloc3_desc d = .ok (0, [a₀, a₁, a₂], [a₀, a₁, a₂].foldl Disk.take d)) ∨
      ∃ idx, alloc3_desc d = .ok (-1, idx, d) := by
  rcases alloc3Loop_spec hz 3 [] List.nodup_nil (by simp) with ⟨new, hlen, hnd, hnew, h⟩ | h
  · obtain ⟨a₀, a₁, a₂, rfl⟩ := List.length_eq_three.mp hlen
    exact .inl ⟨a₀, a₁, a₂, hnd, hnew, h⟩
  · exact .inr h

end Alloc

/-! ## Chains -/

/-- The descriptors `i₀ → i₁ → i₂` form a chain: `VRING_DESC_F_NEXT` set on the first two, each
pointing at the next, and clear on the third. -/
structure Chain (desc : Nat → Desc) (i₀ i₁ i₂ : Nat) : Prop where
  next₀ : (desc i₀).flags &&& VRING_DESC_F_NEXT ≠ 0
  link₀ : (desc i₀).next = UInt16.ofNat i₁
  next₁ : (desc i₁).flags &&& VRING_DESC_F_NEXT ≠ 0
  link₁ : (desc i₁).next = UInt16.ofNat i₂
  last₂ : (desc i₂).flags &&& VRING_DESC_F_NEXT = 0

/-- A chain stays one under stores that miss its descriptors. -/
lemma Chain.frame {desc desc' : Nat → Desc} {i₀ i₁ i₂ : Nat} (hc : Chain desc i₀ i₁ i₂)
    (h : ∀ j ∈ [i₀, i₁, i₂], desc' j = desc j) : Chain desc' i₀ i₁ i₂ := by
  have h₀ := h i₀ (by simp)
  have h₁ := h i₁ (by simp)
  have h₂ := h i₂ (by simp)
  exact ⟨h₀ ▸ hc.next₀, h₀ ▸ hc.link₀, h₁ ▸ hc.next₁, h₁ ▸ hc.link₁, h₂ ▸ hc.last₂⟩

/-- The three descriptors `submit` formats. -/
lemma submit_desc (b : Nat) (write : Bool) (a₀ a₁ a₂ : Nat) (d : Disk) :
    (submit b write [a₀, a₁, a₂] d).desc =
      Function.update (Function.update (Function.update d.desc a₀
        ⟨VRING_DESC_F_NEXT, UInt16.ofNat a₁⟩) a₁
        ⟨(if write then 0 else VRING_DESC_F_WRITE) ||| VRING_DESC_F_NEXT, UInt16.ofNat a₂⟩) a₂
        ⟨VRING_DESC_F_WRITE, 0⟩ := rfl

@[simp] lemma submit_free (b : Nat) (write : Bool) (idx : List Nat) (d : Disk) :
    (submit b write idx d).free = d.free := rfl

/-- The chain `submit` formats, whichever way the data descriptor points. -/
lemma chain_submit (b : Nat) (write : Bool) {a₀ a₁ a₂ : Nat} (hnd : [a₀, a₁, a₂].Nodup)
    (d : Disk) : Chain (submit b write [a₀, a₁, a₂] d).desc a₀ a₁ a₂ := by
  obtain ⟨⟨h₀₁, h₀₂⟩, h₁₂⟩ : (a₀ ≠ a₁ ∧ a₀ ≠ a₂) ∧ a₁ ≠ a₂ := by simpa using hnd
  have hflags : ((if write then 0 else VRING_DESC_F_WRITE) ||| VRING_DESC_F_NEXT) &&&
      VRING_DESC_F_NEXT ≠ 0 := by
    cases write <;> decide
  rw [submit_desc]
  refine ⟨?_, ?_, ?_, ?_, ?_⟩
  · rw [Function.update_of_ne h₀₂, Function.update_of_ne h₀₁, Function.update_self]
    exact (by decide : VRING_DESC_F_NEXT &&& VRING_DESC_F_NEXT ≠ 0)
  · rw [Function.update_of_ne h₀₂, Function.update_of_ne h₀₁, Function.update_self]
  · rw [Function.update_of_ne h₁₂, Function.update_self]
    exact hflags
  · rw [Function.update_of_ne h₁₂, Function.update_self]
  · rw [Function.update_self]
    exact (by decide : VRING_DESC_F_WRITE &&& VRING_DESC_F_NEXT = 0)

section FreeChain

variable {d : Disk} {i : Nat}

lemma ofNat_toNat_of_lt_NUM {j : Nat} (h : j < NUM) : (UInt16.ofNat j).toNat = j := by
  rw [UInt16.toNat_ofNat', Nat.mod_eq_of_lt (lt_trans h (by decide))]

/-- A round of `free_chain` on a descriptor in use frees it and follows its `next` while
`VRING_DESC_F_NEXT` is set. -/
lemma free_chain_succ (hi : i < NUM) (hf : d.free i = false) (fuel : Nat) :
    free_chain (fuel + 1) i d =
      if (d.desc i).flags &&& VRING_DESC_F_NEXT != 0 then
        free_chain fuel (d.desc i).next.toNat (d.release i)
      else .ok (d.release i) := by
  rw [free_chain, free_desc_ok hi hf]
  rfl

/-- `free_chain` on the head of a chain of three descriptors in use frees exactly those three. -/
lemma free_chain_chain {i₀ i₁ i₂ : Nat} (hc : Chain d.desc i₀ i₁ i₂)
    (hlt : ∀ j ∈ [i₀, i₁, i₂], j < NUM) (hnd : [i₀, i₁, i₂].Nodup)
    (hf : ∀ j ∈ [i₀, i₁, i₂], d.free j = false) (fuel : Nat) :
    free_chain (fuel + 3) i₀ d = .ok (((d.release i₀).release i₁).release i₂) := by
  obtain ⟨⟨h₀₁, h₀₂⟩, h₁₂⟩ : (i₀ ≠ i₁ ∧ i₀ ≠ i₂) ∧ i₁ ≠ i₂ := by simpa using hnd
  simp only [List.mem_cons, List.not_mem_nil, or_false, forall_eq_or_imp, forall_eq] at hlt hf
  -- the three rounds: `i₀` and `i₁` go on to the next descriptor, `i₂` ends the loop
  rw [free_chain_succ hlt.1 hf.1, if_pos (bne_iff_ne.mpr hc.next₀), hc.link₀,
    ofNat_toNat_of_lt_NUM hlt.2.1]
  rw [free_chain_succ hlt.2.1 (by simp [Ne.symm h₀₁, hf.2.1]), Disk.release_desc,
    if_neg (Ne.symm h₀₁), if_pos (bne_iff_ne.mpr hc.next₁), hc.link₁,
    ofNat_toNat_of_lt_NUM hlt.2.2]
  rw [free_chain_succ hlt.2.2 (by simp [Ne.symm h₀₂, Ne.symm h₁₂, hf.2.2]), Disk.release_desc,
    Disk.release_desc, if_neg (Ne.symm h₁₂), if_neg (Ne.symm h₀₂),
    if_neg (by simpa using hc.last₂)]

end FreeChain

/-! ## The descriptors in use over a run -/

/-- The descriptors held by the requests in flight. -/
def held (calls : List Req) : List Nat := calls.flatMap Req.idx

lemma mem_held {calls : List Req} {j : Nat} : j ∈ held calls ↔ ∃ c ∈ calls, j ∈ c.idx :=
  List.mem_flatMap

lemma held_append (l₁ l₂ : List Req) : held (l₁ ++ l₂) = held l₁ ++ held l₂ :=
  List.flatMap_append

lemma held_erase_perm {calls : List Req} {c : Req} (hc : c ∈ calls) :
    (held calls).Perm (c.idx ++ held (calls.erase c)) :=
  (List.perm_cons_erase hc).flatMap_right Req.idx

/-- The descriptor table of `d` for the requests `calls` in flight: the descriptors they hold are
distinct descriptor numbers; each request holds a chain of three; a descriptor is in use exactly
when a request holds it; and a free descriptor is cleared. -/
structure Wf (d : Disk) (calls : List Req) : Prop where
  nodup : (held calls).Nodup
  lt : ∀ j ∈ held calls, j < NUM
  chain : ∀ c ∈ calls, ∃ i₀ i₁ i₂, c.idx = [i₀, i₁, i₂] ∧ Chain d.desc i₀ i₁ i₂
  free_iff : ∀ j < NUM, d.free j = false ↔ j ∈ held calls
  free_zero : ∀ j < NUM, d.free j = true → d.desc j = ⟨0, 0⟩

section Wf

variable {d : Disk} {calls : List Req}

/-- `Wf` reads only the descriptors and `disk.free`. -/
lemma Wf.congr {d' : Disk} (hw : Wf d calls) (hdesc : d'.desc = d.desc) (hfree : d'.free = d.free) :
    Wf d' calls := by
  obtain ⟨hnd, hlt, hchain, hiff, hzero⟩ := hw
  exact ⟨hnd, hlt, by rwa [hdesc], by rwa [hfree], by rwa [hdesc, hfree]⟩

lemma Wf.nodup_idx (hw : Wf d calls) {c : Req} (hc : c ∈ calls) : c.idx.Nodup :=
  (List.nodup_append.mp ((held_erase_perm hc).nodup_iff.mp hw.nodup)).1

lemma Wf.free_of_held (hw : Wf d calls) {j : Nat} (hj : j ∈ held calls) : d.free j = false :=
  (hw.free_iff j (hw.lt j hj)).mpr hj

/-- Handing a chain of three free descriptors to a new request. -/
lemma Wf.take_chain (hw : Wf d calls) (b : Nat) (write : Bool) {a₀ a₁ a₂ : Nat}
    (hnd : [a₀, a₁, a₂].Nodup) (hfree : ∀ j ∈ [a₀, a₁, a₂], j < NUM ∧ d.free j = true) :
    Wf (submit b write [a₀, a₁, a₂] ([a₀, a₁, a₂].foldl Disk.take d))
      (calls ++ [⟨b, [a₀, a₁, a₂]⟩]) := by
  have hheld : held (calls ++ [⟨b, [a₀, a₁, a₂]⟩]) = held calls ++ [a₀, a₁, a₂] := by
    simp [held]
  -- the descriptors held before are in use, the new ones were free
  have hout : ∀ j ∈ held calls, j ∉ [a₀, a₁, a₂] := fun j hj hj' => by
    have := (hfree j hj').2
    rw [hw.free_of_held hj] at this
    cases this
  have hdesc : ∀ j, j ∉ [a₀, a₁, a₂] →
      (submit b write [a₀, a₁, a₂] ([a₀, a₁, a₂].foldl Disk.take d)).desc j = d.desc j := by
    intro j hj
    simp only [List.mem_cons, List.not_mem_nil, or_false, not_or] at hj
    rw [submit_desc, Function.update_of_ne hj.2.2, Function.update_of_ne hj.2.1,
      Function.update_of_ne hj.1, Disk.foldl_take_desc]
  refine ⟨?_, fun j hj => ?_, fun c hc => ?_, fun j hj => ?_, fun j hj hf => ?_⟩
  · rw [hheld]
    exact List.nodup_append.mpr ⟨hw.nodup, hnd, fun j hj j' hj' e => hout j hj (e ▸ hj')⟩
  · rw [hheld] at hj
    rcases List.mem_append.mp hj with hj | hj
    · exact hw.lt j hj
    · exact (hfree j hj).1
  · rcases List.mem_append.mp hc with hc | hc
    · -- an old chain, untouched by the stores of `submit`
      obtain ⟨i₀, i₁, i₂, hidx, hch⟩ := hw.chain c hc
      refine ⟨i₀, i₁, i₂, hidx, hch.frame fun j hj => hdesc j (hout j ?_)⟩
      exact mem_held.mpr ⟨c, hc, hidx ▸ hj⟩
    · rw [List.mem_singleton.mp hc]
      exact ⟨a₀, a₁, a₂, rfl, chain_submit b write hnd _⟩
  · rw [submit_free, Disk.foldl_take_free, hheld, List.mem_append, ← hw.free_iff j hj]
    by_cases hj' : j ∈ [a₀, a₁, a₂] <;> simp [hj']
  · rw [submit_free, Disk.foldl_take_free] at hf
    by_cases hj' : j ∈ [a₀, a₁, a₂]
    · simp [hj'] at hf
    · rw [if_neg hj'] at hf
      rw [hdesc j hj']
      exact hw.free_zero j hj hf

/-- Freeing the chain of a request that leaves. -/
lemma Wf.release_chain (hw : Wf d calls) {c : Req} (hc : c ∈ calls) {i₀ i₁ i₂ : Nat}
    (hidx : c.idx = [i₀, i₁, i₂]) :
    Wf (((d.release i₀).release i₁).release i₂) (calls.erase c) := by
  have hperm := held_erase_perm hc
  rw [hidx] at hperm
  obtain ⟨hnd₃, hnd, hdisj⟩ := List.nodup_append.mp (hperm.nodup_iff.mp hw.nodup)
  have hsub : ∀ j ∈ held (calls.erase c), j ∈ held calls := fun j hj =>
    hperm.mem_iff.mpr (List.mem_append_right _ hj)
  have hdesc : ∀ j, j ∉ [i₀, i₁, i₂] →
      (((d.release i₀).release i₁).release i₂).desc j = d.desc j := by
    intro j hj
    simp only [List.mem_cons, List.not_mem_nil, or_false, not_or] at hj
    simp [hj.1, hj.2.1, hj.2.2]
  have hfree : ∀ j, (((d.release i₀).release i₁).release i₂).free j =
      if j ∈ [i₀, i₁, i₂] then true else d.free j := by
    intro j
    by_cases h₀ : j = i₀ <;> by_cases h₁ : j = i₁ <;> by_cases h₂ : j = i₂ <;> simp [h₀, h₁, h₂]
  refine ⟨hnd, fun j hj => hw.lt j (hsub j hj), fun c' hc' => ?_, fun j hj => ?_, fun j hj hf => ?_⟩
  · -- another chain: its descriptors are not among those freed
    obtain ⟨i₀', i₁', i₂', hidx', hch⟩ := hw.chain c' (List.mem_of_mem_erase hc')
    refine ⟨i₀', i₁', i₂', hidx', hch.frame fun j hj => hdesc j fun hj₃ => ?_⟩
    exact hdisj j hj₃ j (mem_held.mpr ⟨c', hc', hidx' ▸ hj⟩) rfl
  · rw [hfree]
    by_cases hj₃ : j ∈ [i₀, i₁, i₂]
    · rw [if_pos hj₃]
      exact ⟨fun h => absurd h (by decide), fun h => absurd rfl (hdisj j hj₃ j h)⟩
    · rw [if_neg hj₃, hw.free_iff j hj, hperm.mem_iff, List.mem_append]
      simp [hj₃]
  · rw [hfree] at hf
    by_cases hj₃ : j ∈ [i₀, i₁, i₂]
    · simp only [List.mem_cons, List.not_mem_nil, or_false] at hj₃
      rcases hj₃ with rfl | rfl | rfl <;> simp
    · rw [if_neg hj₃] at hf
      rw [hdesc j hj₃]
      exact hw.free_zero j hj hf

/-- `virtio_disk_rw` does not panic, and the request it starts, if any, keeps `Wf`. -/
lemma Wf.virtio_disk_rw_ok {s : State} (hw : Wf s.disk s.calls) (b : Nat) (write : Bool) :
    ∃ s', virtio_disk_rw b write s = .ok s' ∧ Wf s'.disk s'.calls := by
  rcases alloc3_desc_spec hw.free_zero with ⟨a₀, a₁, a₂, hnd, hfree, h⟩ | ⟨idx, h⟩
  · refine ⟨{ s with
        disk := submit b write [a₀, a₁, a₂] ([a₀, a₁, a₂].foldl Disk.take s.disk)
        calls := s.calls ++ [⟨b, [a₀, a₁, a₂]⟩] }, ?_, hw.take_chain b write hnd hfree⟩
    unfold virtio_disk_rw
    rw [h]
    rfl
  · refine ⟨s, ?_, hw⟩
    unfold virtio_disk_rw
    rw [h]
    rfl

/-- The end of `virtio_disk_rw` for a request in flight does not panic, and keeps `Wf`. -/
lemma Wf.virtio_disk_rw_end_ok {s : State} (hw : Wf s.disk s.calls) {c : Req} (hc : c ∈ s.calls) :
    ∃ s', virtio_disk_rw_end c s = .ok s' ∧ Wf s'.disk s'.calls := by
  obtain ⟨i₀, i₁, i₂, hidx, hch⟩ := hw.chain c hc
  let d := { s.disk with info := Function.update s.disk.info i₀ { s.disk.info i₀ with b := none } }
  have hwd : Wf d s.calls := hw.congr rfl rfl
  have hchd : Chain d.desc i₀ i₁ i₂ := hch
  have hin : ∀ j ∈ [i₀, i₁, i₂], j ∈ held s.calls := fun j hj =>
    mem_held.mpr ⟨c, hc, hidx ▸ hj⟩
  have hfc : free_chain (NUM + 1) i₀ d = .ok (((d.release i₀).release i₁).release i₂) :=
    free_chain_chain hchd (fun j hj => hw.lt j (hin j hj)) (hidx ▸ hw.nodup_idx hc)
      (fun j hj => hwd.free_of_held (hin j hj)) 6
  refine ⟨{ s with
    disk := ((d.release i₀).release i₁).release i₂
    calls := s.calls.erase c }, ?_, hwd.release_chain hc hidx⟩
  unfold virtio_disk_rw_end
  rw [hidx]
  simp only [List.getD_cons_zero]
  rw [hfc]
  rfl

end Wf

/-- The interrupt writes neither the descriptors nor `disk.free`. -/
lemma intrLoop_frame : ∀ (fuel : Nat) (d d' : Disk), intrLoop fuel d = .ok d' →
    d'.desc = d.desc ∧ d'.free = d.free
  | 0, _, _, h => by
    cases h
    exact ⟨rfl, rfl⟩
  | fuel + 1, d, d', h => by
    unfold intrLoop at h
    split at h
    · dsimp only at h
      split at h
      · cases h
      · split at h
        · cases h
        · -- the round writes `b->disk` and `used_idx` only
          obtain ⟨hdesc, hfree⟩ := intrLoop_frame fuel _ d' h
          exact ⟨hdesc, hfree⟩
    · cases h
      exact ⟨rfl, rfl⟩

/-- Every segment of the driver and every move of the device keeps `Wf`. -/
lemma Wf.step {s s' : State} (hw : Wf s.disk s.calls) (h : Step s s') : Wf s'.disk s'.calls := by
  cases h with
  | rw b write h =>
    obtain ⟨s'', h', hw'⟩ := hw.virtio_disk_rw_ok b write
    rw [h] at h'
    cases h'
    exact hw'
  | wake c hc _ h =>
    obtain ⟨s'', h', hw'⟩ := hw.virtio_disk_rw_end_ok hc
    rw [h] at h'
    cases h'
    exact hw'
  | intr h =>
    obtain ⟨hdesc, hfree⟩ := intrLoop_frame _ _ _ h
    exact hw.congr hdesc hfree
  | fetch =>
    unfold fetch
    split
    · exact hw
    · exact hw
  | complete k =>
    unfold complete
    split
    · exact hw
    · exact hw.congr rfl rfl

lemma length_held : ∀ {calls : List Req}, (∀ c ∈ calls, c.idx.length = 3) →
    (held calls).length = 3 * calls.length
  | [], _ => rfl
  | c :: calls, h => by
    have ih := length_held fun c' hc' => h c' (List.mem_cons_of_mem c hc')
    simp only [held, List.flatMap_cons, List.length_append, List.length_cons] at ih ⊢
    rw [ih, h c List.mem_cons_self]
    ring

/-- Three distinct descriptors below `NUM` per request: at most `NUM / 3` requests. -/
lemma Wf.length_le {d : Disk} {calls : List Req} (hw : Wf d calls) : calls.length ≤ NUM / 3 := by
  have hlen : (held calls).length = 3 * calls.length := length_held fun c hc => by
    obtain ⟨_, _, _, hidx, _⟩ := hw.chain c hc
    rw [hidx]
    rfl
  have hle : (held calls).length ≤ NUM :=
    ((hw.nodup.subperm fun j hj => List.mem_range.mpr (hw.lt j hj)).length_le).trans_eq
      List.length_range
  unfold NUM at hle ⊢
  omega

/-- The driver after `virtio_disk_init`. -/
def boot : State :=
  ⟨⟨fun _ => ⟨0, 0⟩, fun _ => true, fun _ => ⟨none, 0⟩, 0, fun _ => 0, 0, fun _ => 0, 0,
    fun _ => false⟩, [], ⟨0, []⟩⟩

end Xv6.Virtio
