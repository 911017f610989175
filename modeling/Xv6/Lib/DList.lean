import Mathlib

/-!
# Circular doubly linked lists with a sentinel

A list threaded through `next` and `prev` pointers over a type of nodes, closed into a ring by
a sentinel node `h` that holds no element. `Ring p h L` is the representation predicate: the
ring is `h, L[0], …, L[n-1]` and back to `h`, and every two neighbours point at each other. It
is stated as a chain over `h :: L ++ [h]`, so that Mathlib's `List.IsChain` lemmas split it
where a pointer changes.

`pushFront` and `unlink` are the pointer writes of the two list operations, in their usual
order; `Ring.pushFront` and `Ring.unlink` say which list they leave. `scan` is the walk of a
`for` loop along the pointers until it comes back to the sentinel, and `Ring.scan_eq_find`
says what it finds.
-/

namespace DList

variable {α : Type*}

/-- The two pointers of every node. -/
structure Links (α : Type*) where
  next : α → α
  prev : α → α

/-- `u` and `v` are neighbours: `u.next = v` and `v.prev = u`. -/
def Linked (p : Links α) (u v : α) : Prop :=
  p.next u = v ∧ p.prev v = u

/-- The same links read backwards. -/
def Links.swap (p : Links α) : Links α :=
  ⟨p.prev, p.next⟩

/-- The ring `h, L, h` with both pointers of every neighbour pair set, and no node twice. -/
structure Ring (p : Links α) (h : α) (L : List α) : Prop where
  nodup : (h :: L).Nodup
  chain : (h :: L ++ [h]).IsChain (Linked p)

/-- A chain keeps holding when the relation changes only away from the pairs it uses. -/
lemma isChain_congr {R S : α → α → Prop} :
    ∀ {l : List α}, (∀ a ∈ l.dropLast, ∀ b ∈ l.tail, R a b ↔ S a b) →
      (l.IsChain R ↔ l.IsChain S)
  | [], _ => by simp
  | [_], _ => by simp
  | a :: b :: l, h => by
    have hab := h a (by simp) b (by simp)
    have hrest : (b :: l).IsChain R ↔ (b :: l).IsChain S :=
      isChain_congr fun u hu v hv =>
        h u (by simp [hu]) v (List.mem_cons_of_mem _ hv)
    rw [List.isChain_cons_cons, List.isChain_cons_cons, hab, hrest]

/-- Following `f` from `a` along a chain reaches its nodes one after the other. -/
lemma iterate_of_isChain {f : α → α} :
    ∀ {a : α} {M : List α}, (a :: M).IsChain (fun u v => f u = v) →
      (List.range M.length).map (fun i => f^[i + 1] a) = M
  | _, [], _ => rfl
  | a, b :: M, h => by
    rw [List.isChain_cons_cons] at h
    obtain ⟨hab, hrest⟩ := h
    rw [List.length_cons, List.range_succ_eq_map, List.map_cons, List.map_map]
    refine congrArg₂ List.cons (by simpa using hab) (Eq.trans ?_ (iterate_of_isChain hrest))
    refine List.map_congr_left fun i _ => ?_
    simp [Function.iterate_succ_apply, hab]

/-! ## What a ring gives -/

namespace Ring

variable {p : Links α} {h : α} {L : List α}

/-- The empty ring: the sentinel points at itself both ways. -/
lemma nil (hn : p.next h = h) (hp : p.prev h = h) : Ring p h [] :=
  ⟨List.nodup_singleton h, by simp [Linked, hn, hp]⟩

/-- A ring read backwards is the reversed ring. -/
lemma swap (hr : Ring p h L) : Ring p.swap h L.reverse := by
  refine ⟨?_, ?_⟩
  · have := hr.nodup
    rw [List.nodup_cons] at this ⊢
    exact ⟨by simpa using this.1, List.nodup_reverse.2 this.2⟩
  · have hrev : h :: L.reverse ++ [h] = (h :: L ++ [h]).reverse := by simp
    rw [hrev, List.isChain_reverse]
    exact hr.chain.imp fun u v huv => ⟨huv.2, huv.1⟩

lemma next_chain (hr : Ring p h L) : (h :: L ++ [h]).IsChain (fun u v => p.next u = v) :=
  hr.chain.imp fun _ _ huv => huv.1

/-- Following `next` from the sentinel visits the nodes of `L` in order, then the sentinel. -/
lemma iterate_next (hr : Ring p h L) :
    (List.range (L.length + 1)).map (fun i => p.next^[i + 1] h) = L ++ [h] := by
  have := iterate_of_isChain (hr.next_chain)
  simpa using this

/-- Every node of the ring is the `prev` of its `next`. -/
lemma prev_next (hr : Ring p h L) {u : α} (hu : u ∈ h :: L) : p.prev (p.next u) = u := by
  obtain ⟨l₁, l₂, hsplit⟩ := List.append_of_mem hu
  have hc := hr.chain
  -- the neighbour after `u` in the ring is the head of `l₂ ++ [h]`
  obtain ⟨v, B, hvB⟩ := List.exists_cons_of_ne_nil (show l₂ ++ [h] ≠ [] by simp)
  have heq : h :: L ++ [h] = l₁ ++ u :: v :: B := by
    rw [hsplit, List.append_assoc, List.cons_append, hvB]
  rw [heq, List.isChain_append_cons_cons] at hc
  obtain ⟨-, ⟨hn, hp⟩, -⟩ := hc
  rw [hn, hp]

/-- Every node of the ring is the `next` of its `prev`. -/
lemma next_prev (hr : Ring p h L) {u : α} (hu : u ∈ h :: L) : p.next (p.prev u) = u :=
  hr.swap.prev_next (by simpa using hu)

end Ring

/-! ## Inserting at the front -/

variable [DecidableEq α]

/-- Insert `x` right after the sentinel `h`: `x.next = h.next; x.prev = h; h.next.prev = x;
h.next = x`. -/
def pushFront (h x : α) (p : Links α) : Links α :=
  let next₁ := Function.update p.next x (p.next h)
  let prev₁ := Function.update p.prev x h
  let prev₂ := Function.update prev₁ (next₁ h) x
  ⟨Function.update next₁ h x, prev₂⟩

/-- Take `x` out of the ring: `x.next.prev = x.prev; x.prev.next = x.next`. -/
def unlink (x : α) (p : Links α) : Links α :=
  let prev₁ := Function.update p.prev (p.next x) (p.prev x)
  ⟨Function.update p.next (prev₁ x) (p.next x), prev₁⟩

/-- Changing the `next` of a node that is no source, and the `prev` of a node that is no
target, keeps a pair linked. -/
lemma linked_update {n r : α → α} {a b u v : α} {w z : α} (hu : u ≠ a) (hv : v ≠ b) :
    Linked ⟨Function.update n a w, Function.update r b z⟩ u v ↔ Linked ⟨n, r⟩ u v := by
  simp [Linked, Function.update_of_ne hu, Function.update_of_ne hv]

omit [DecidableEq α] in
/-- Replacing the pair `a, x, s` of a chain by `a, s` keeps a chain for a relation that agrees
with the old one on the pairs that stay. -/
lemma isChain_splice {R S : α → α → Prop} {A B : List α} {a x s : α}
    (hc : (A ++ a :: x :: s :: B).IsChain R) (has : S a s)
    (hA : ∀ u ∈ A, ∀ v ∈ (A ++ [a]).tail, R u v ↔ S u v)
    (hB : ∀ u ∈ (s :: B).dropLast, ∀ v ∈ B, R u v ↔ S u v) :
    (A ++ a :: s :: B).IsChain S := by
  rw [List.isChain_append_cons_cons, List.isChain_cons_cons] at hc
  obtain ⟨hcA, -, -, hcB⟩ := hc
  rw [List.isChain_append_cons_cons]
  refine ⟨?_, has, ?_⟩
  · exact (isChain_congr fun u hu v hv => hA u (by simpa using hu) v hv).1 hcA
  · exact (isChain_congr fun u hu v hv => hB u hu v hv).1 hcB

namespace Ring

variable {p : Links α} {h : α} {L : List α}

omit [DecidableEq α] in
lemma nodup_concat (hr : Ring p h L) : (L ++ [h]).Nodup :=
  (List.perm_append_singleton h L).nodup_iff.2 hr.nodup

/-- Inserting a node that is not in the ring puts it first. -/
lemma pushFront (hr : Ring p h L) {x : α} (hx : x ∉ h :: L) :
    Ring (DList.pushFront h x p) h (x :: L) := by
  obtain ⟨hxh, hxL⟩ : x ≠ h ∧ x ∉ L := by simpa using hx
  obtain ⟨hhL, hL⟩ := List.nodup_cons.1 hr.nodup
  -- the ring after the sentinel: `y` is the old first node
  obtain ⟨y, rest, hy⟩ := List.exists_cons_of_ne_nil (show L ++ [h] ≠ [] by simp)
  have hyrest : (y :: rest).Nodup := hy ▸ hr.nodup_concat
  have hxy : x ≠ y := by
    rintro rfl
    have : x ∈ L ++ [h] := hy ▸ List.mem_cons_self
    simp [hxL, hxh] at this
  have hc := hr.chain
  rw [List.cons_append, hy, List.isChain_cons_cons] at hc
  obtain ⟨⟨hny, -⟩, hrest⟩ := hc
  have hq : DList.pushFront h x p =
      ⟨Function.update (Function.update p.next x y) h x,
        Function.update (Function.update p.prev x h) y x⟩ := by
    simp [DList.pushFront, Function.update_of_ne hxh.symm, hny]
  refine ⟨List.nodup_cons.2 ⟨by simp [Ne.symm hxh, hhL], List.nodup_cons.2 ⟨hxL, hL⟩⟩, ?_⟩
  rw [List.cons_append, List.cons_append, hy, hq, List.isChain_cons_cons, List.isChain_cons_cons]
  refine ⟨⟨by simp, by simp [hxy]⟩, ⟨by simp [hxh], by simp⟩, ?_⟩
  -- the old links after `y` are untouched
  refine (isChain_congr fun u hu v hv => ?_).1 hrest
  have hu' : u ∈ L := by
    rw [← hy, List.dropLast_concat] at hu
    exact hu
  have hv' : v ∈ L ++ [h] := hy ▸ List.mem_cons_of_mem _ hv
  have hvy : v ≠ y := by
    rintro rfl
    exact (List.nodup_cons.1 hyrest).1 hv
  have hvx : v ≠ x := by
    rintro rfl
    simp [hxL, hxh] at hv'
  have huh : u ≠ h := by
    rintro rfl
    exact hhL hu'
  have hux : u ≠ x := by
    rintro rfl
    exact hxL hu'
  rw [linked_update huh hvy, linked_update hux hvx]

/-- Inserting new nodes one after the other leaves them in front, the last one first. -/
lemma foldl_pushFront :
    ∀ {q : Links α} {M xs : List α}, Ring q h M → xs.Nodup → (∀ x ∈ xs, x ∉ h :: M) →
      Ring (xs.foldl (fun p x => DList.pushFront h x p) q) h (xs.reverse ++ M)
  | _, _, [], hr, _, _ => by simpa using hr
  | q, M, x :: xs, hr, hnd, hout => by
    obtain ⟨hx, hxs⟩ := List.nodup_cons.1 hnd
    have hnew : ∀ y ∈ xs, y ∉ h :: x :: M := by
      intro y hy hmem
      rcases List.mem_cons.1 hmem with rfl | hmem
      · exact hout y (List.mem_cons_of_mem _ hy) List.mem_cons_self
      · rcases List.mem_cons.1 hmem with rfl | hmem
        · exact hx hy
        · exact hout y (List.mem_cons_of_mem _ hy) (List.mem_cons_of_mem _ hmem)
    have := foldl_pushFront (hr.pushFront (hout x List.mem_cons_self)) hxs hnew
    simpa using this

/-- Unlinking a node of the ring leaves the ring without it. -/
lemma unlink {L₁ L₂ : List α} {x : α} (hr : Ring p h (L₁ ++ x :: L₂)) :
    Ring (DList.unlink x p) h (L₁ ++ L₂) := by
  have hnd := hr.nodup
  obtain ⟨⟨hhL₁, hhx, hhL₂⟩, hL₁, ⟨hxL₂, hL₂⟩, hdisj⟩ := by
    simpa only [List.nodup_cons, List.nodup_append, List.mem_append, List.mem_cons,
      not_or] using hnd
  -- `a` is the node before `x`, `s` the node after it
  obtain ⟨A, a, hA⟩ := List.eq_nil_or_concat (h :: L₁) |>.resolve_left (by simp)
  rw [List.concat_eq_append] at hA
  obtain ⟨s, B, hB⟩ := List.exists_cons_of_ne_nil (show L₂ ++ [h] ≠ [] by simp)
  have hbefore : h :: (L₁ ++ x :: L₂) ++ [h] = A ++ a :: x :: s :: B :=
    calc h :: (L₁ ++ x :: L₂) ++ [h] = (h :: L₁) ++ x :: (L₂ ++ [h]) := by simp
      _ = (A ++ [a]) ++ x :: s :: B := by rw [hA, hB]
      _ = A ++ a :: x :: s :: B := by simp
  have hafter : h :: (L₁ ++ L₂) ++ [h] = A ++ a :: s :: B :=
    calc h :: (L₁ ++ L₂) ++ [h] = (h :: L₁) ++ (L₂ ++ [h]) := by simp
      _ = (A ++ [a]) ++ s :: B := by rw [hA, hB]
      _ = A ++ a :: s :: B := by simp
  have ha : a = h ∨ a ∈ L₁ := by
    have : a ∈ h :: L₁ := hA ▸ List.mem_append_right A List.mem_cons_self
    simpa using this
  have hs : s ∈ L₂ ∨ s = h := by
    have : s ∈ L₂ ++ [h] := hB ▸ List.mem_cons_self
    simpa using this
  have hsx : s ≠ x := by
    rintro rfl
    rcases hs with hs | hs
    · exact hxL₂ hs
    · exact hhx hs.symm
  have hax : a ≠ x := by
    rintro rfl
    rcases ha with ha | ha
    · exact hhx ha.symm
    · exact hdisj a ha a (.inl rfl) rfl
  -- the links around `x` before the step
  have hc := hr.chain
  rw [hbefore, List.isChain_append_cons_cons, List.isChain_cons_cons] at hc
  obtain ⟨-, ⟨-, hpx⟩, ⟨hnx, -⟩, -⟩ := hc
  have hq : DList.unlink x p =
      ⟨Function.update p.next a s, Function.update p.prev s a⟩ := by
    simp [DList.unlink, hnx, hpx, Function.update_of_ne hsx.symm]
  refine ⟨hnd.sublist (((List.sublist_cons_self x L₂).append_left L₁).cons_cons h), ?_⟩
  rw [hafter, hq]
  refine isChain_splice (hbefore ▸ hr.chain) ⟨by simp, by simp⟩ (fun u hu v hv => ?_)
    (fun u hu v hv => ?_)
  · -- before `a`: sources in `A`, targets in `L₁`
    have hua : u ≠ a := by
      rintro rfl
      have : (A ++ [u]).Nodup := hA ▸ List.nodup_cons.2 ⟨hhL₁, hL₁⟩
      simp only [List.nodup_append, List.nodup_singleton, List.mem_singleton] at this
      exact this.2.2 u hu u rfl rfl
    have hvs : v ≠ s := by
      rintro rfl
      have hvL₁ : v ∈ L₁ := by simpa [← hA] using hv
      rcases hs with hs | hs
      · exact hdisj v hvL₁ v (.inr hs) rfl
      · exact hhL₁ (hs ▸ hvL₁)
    exact (linked_update hua hvs).symm
  · -- after `s`: sources in `L₂`, targets in the rest of `L₂ ++ [h]`
    have huL₂ : u ∈ L₂ := by
      rw [← hB, List.dropLast_concat] at hu
      exact hu
    have hua : u ≠ a := by
      rintro rfl
      rcases ha with ha | ha
      · exact hhL₂ (ha ▸ huL₂)
      · exact hdisj u ha u (.inr huL₂) rfl
    have hvs : v ≠ s := by
      rintro rfl
      have : (v :: B).Nodup := hB ▸ List.nodup_append.2 ⟨hL₂, List.nodup_singleton h,
        fun c hc d hd e => hhL₂ (by simp_all)⟩
      exact (List.nodup_cons.1 this).1 hv
    exact (linked_update hua hvs).symm

end Ring

/-! ## Walking the ring -/

/-- The loop `for (b = a; b != h; b = f b) if (q b) return b;`, with `fuel` bounding its
steps. -/
def scan (f : α → α) (h : α) (q : α → Bool) : Nat → α → Option α
  | 0, _ => none
  | fuel + 1, a => if a = h then none else if q a then some a else scan f h q fuel (f a)

/-- Along a chain that ends at the sentinel, the walk finds what `find?` finds, given one more
step of fuel than there are nodes. -/
lemma scan_of_isChain {f : α → α} {q : α → Bool} :
    ∀ {M : List α} {fuel : Nat}, h ∉ M → (M ++ [h]).IsChain (fun u v => f u = v) →
      M.length < fuel → scan f h q fuel ((M ++ [h]).headD h) = M.find? q
  | [], fuel + 1, _, _, _ => by simp [scan]
  | x :: M, fuel + 1, hM, hc, hlen => by
    obtain ⟨hxh, hhM⟩ : x ≠ h ∧ h ∉ M := by simpa [eq_comm] using hM
    obtain ⟨y, rest, hy⟩ := List.exists_cons_of_ne_nil (show M ++ [h] ≠ [] by simp)
    rw [List.cons_append, hy, List.isChain_cons_cons] at hc
    obtain ⟨hfx, hrest⟩ := hc
    have ih : scan f h q fuel ((M ++ [h]).headD h) = M.find? q :=
      scan_of_isChain hhM (hy ▸ hrest) (by simpa using hlen)
    rw [hy, List.headD_cons] at ih
    by_cases hq : q x
    · simp [scan, hxh, hq]
    · simp [scan, hxh, hq, hfx, ih]

namespace Ring

/-- Walking `next` from the sentinel finds the first node of the ring that satisfies `q`. -/
lemma scan_eq_find (hr : Ring p h L) {q : α → Bool} {fuel : Nat} (hfuel : L.length < fuel) :
    scan p.next h q fuel (p.next h) = L.find? q := by
  obtain ⟨hhL, -⟩ := List.nodup_cons.1 hr.nodup
  obtain ⟨y, rest, hy⟩ := List.exists_cons_of_ne_nil (show L ++ [h] ≠ [] by simp)
  have hc := hr.next_chain
  rw [List.cons_append, hy, List.isChain_cons_cons] at hc
  obtain ⟨hny, hrest⟩ := hc
  have : scan p.next h q fuel ((L ++ [h]).headD h) = L.find? q :=
    scan_of_isChain hhL (hy ▸ hrest) hfuel
  rwa [hy, List.headD_cons, ← hny] at this

/-- Walking `prev` from the sentinel finds the last node of the ring that satisfies `q`. -/
lemma scan_prev_eq_find (hr : Ring p h L) {q : α → Bool} {fuel : Nat}
    (hfuel : L.length < fuel) : scan p.prev h q fuel (p.prev h) = L.reverse.find? q :=
  hr.swap.scan_eq_find (by simpa using hfuel)

end Ring

end DList
