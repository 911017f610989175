import Xv6.Vm.Walk

/-!
# Sv39 page tables as partial maps

A user page table is a tree of page-table pages, three levels deep: the root at level 2, and below
each valid PTE of levels 2 and 1 the page-table page of the next level, found by `PTE2PA`.
`Tree mem l pt` is the shape `walk` and `freewalk` rely on: a valid PTE above level 0 has none of
`PTE_R`, `PTE_W`, `PTE_X`; a valid PTE of level 0 has one of them; and no page serves twice in the
tree (a page's own tree and its siblings' trees are disjoint). `lookup mem root va` is the partial
map the tree stands for: the frame and the flags of the leaf PTE for `va`.

The results: a tree reads only the frames of its own pages (`tree_congr`); linking a zeroed page
into an invalid slot and writing a leaf into an invalid level-0 slot keep the tree, the first with
the same map and the second with the map changed at one page (`Tree.link`, `Tree.setLeaf`,
assembled through the levels by `Tree.descend`). On these, `walk` without allocation reads the
map (`walk_noalloc`), `walk` with allocation leaves it as it was (`walk_alloc`), and `mappages`
over pages that are not mapped either maps the `k`-th page of its range to `pa + k * PGSIZE` and
changes nothing else, or fails with the pages outside its range unchanged (`mappages_spec`).
-/

namespace Xv6

namespace Vm

open StateExcept

instance : DecidablePred PageAligned := fun pa => inferInstanceAs (Decidable (pa.toNat % Xv6.PGSIZE = 0))

/-! ## Slots of a page-table page -/

/-- Slot `i` of the page-table page at `pt`, as `freewalk` reads it. -/
def pteAt (mem : Nat → Page) (pt : UInt64) (i : Nat) : UInt64 := read64 mem (pt + 8 * UInt64.ofNat i)

section Slots

variable {pt : UInt64} {i j : Nat}

lemma slot_toNat (hpt : PageAligned pt) (hi : i < 512) :
    (pt + 8 * UInt64.ofNat i).toNat = pt.toNat + 8 * i := by
  have := pt.toNat_lt
  unfold PageAligned Xv6.PGSIZE at hpt
  simp only [UInt64.toNat_add, UInt64.toNat_mul, UInt64.toNat_ofNat',
    show (8 : UInt64).toNat = 8 from rfl]
  omega

lemma frame_slot (hpt : PageAligned pt) (hi : i < 512) : frame (pt + 8 * UInt64.ofNat i) = frame pt := by
  have h := slot_toNat hpt hi
  unfold PageAligned Xv6.PGSIZE at hpt
  unfold frame Xv6.PGSIZE
  omega

lemma aligned8_slot (hpt : PageAligned pt) (hi : i < 512) : Aligned8 (pt + 8 * UInt64.ofNat i) := by
  have h := slot_toNat hpt hi
  unfold PageAligned Xv6.PGSIZE at hpt
  unfold Aligned8
  omega

lemma slot_ne (hpt : PageAligned pt) (hi : i < 512) (hj : j < 512) (hij : j ≠ i) :
    pt + 8 * UInt64.ofNat j ≠ pt + 8 * UInt64.ofNat i := fun e => by
  have := congrArg UInt64.toNat e
  rw [slot_toNat hpt hi, slot_toNat hpt hj] at this
  omega

/-- A slot lies in its page's frame. -/
lemma pteAt_congr {mem mem' : Nat → Page} (hpt : PageAligned pt) (hi : i < 512)
    (h : mem' (frame pt) = mem (frame pt)) : pteAt mem' pt i = pteAt mem pt i := by
  unfold pteAt read64
  rw [frame_slot hpt hi, h]

@[simp] lemma pteAt_setWord_self (s : VmState) (hpt : PageAligned pt) (hi : i < 512) (v : UInt64) :
    pteAt (s.setWord (pt + 8 * UInt64.ofNat i) v).mem pt i = v :=
  read64_setWord_self s (aligned8_slot hpt hi) v

lemma pteAt_setWord_of_ne (s : VmState) (hpt : PageAligned pt) (hi : i < 512) (hj : j < 512)
    (hij : j ≠ i) (v : UInt64) :
    pteAt (s.setWord (pt + 8 * UInt64.ofNat i) v).mem pt j = pteAt s.mem pt j :=
  read64_setWord_of_ne s v (aligned8_slot hpt hi) (aligned8_slot hpt hj) (slot_ne hpt hi hj hij)

/-- A page of zeros reads as `0` at every offset and width. -/
lemma getLE_zero (o w : Nat) : Bytes.getLE (fun _ => 0 : Page) o w = 0 := by
  induction w generalizing o with
  | zero => rfl
  | succ w ih => simp [Bytes.getLE, Bytes.get, ih]

/-- Every slot of a page of zeros is `0`. -/
lemma pteAt_zero {mem : Nat → Page} (hpt : PageAligned pt) (hi : i < 512)
    (h : mem (frame pt) = fun _ => 0) : pteAt mem pt i = 0 := by
  unfold pteAt read64
  rw [frame_slot hpt hi, h, getLE_zero]
  rfl

/-- Every slot of a page filled with zeros is `0`. -/
lemma pteAt_fill_zero (s : VmState) (hpt : PageAligned pt) (hi : i < 512) :
    pteAt (s.fill pt 0).mem pt i = 0 :=
  pteAt_zero hpt hi (Function.update_self _ _ _)

/-- The PTE address `walk` computes for `va` at `level` is a slot of the page. -/
lemma pteAddr_eq (pt : UInt64) (level : Nat) (va : UInt64) :
    pteAddr pt level va = pt + 8 * UInt64.ofNat (PX level va).toNat := by
  rw [pteAddr, UInt64.ofNat_toNat]

lemma read64_pteAddr (mem : Nat → Page) (pt : UInt64) (level : Nat) (va : UInt64) :
    read64 mem (pteAddr pt level va) = pteAt mem pt (PX level va).toNat := by
  rw [pteAddr_eq]
  rfl

end Slots

/-- `PX` masks nine bits, at any level. -/
lemma PX_toNat_lt (level : Nat) (va : UInt64) : (PX level va).toNat < 512 := by
  unfold PX PXMASK
  rw [UInt64.toNat_and]
  exact Nat.lt_of_le_of_lt Nat.and_le_right (by decide)

/-- `PTE2PA` always gives a page. -/
lemma PTE2PA_aligned (v : UInt64) : PageAligned (PTE2PA v) := by
  unfold PageAligned PTE2PA Xv6.PGSIZE
  rw [UInt64.toNat_shiftLeft, Nat.shiftLeft_eq]
  simp

/-! ## Trees of page-table pages -/

/-- A PTE with `PTE_V`. -/
def Valid (v : UInt64) : Prop := v &&& PTE_V ≠ 0

/-- A PTE with one of `PTE_R`, `PTE_W`, `PTE_X`: it maps a page rather than a lower table. -/
def Leaf (v : UInt64) : Prop := v &&& (PTE_R ||| PTE_W ||| PTE_X) ≠ 0

instance : DecidablePred Valid := fun v => inferInstanceAs (Decidable (v &&& PTE_V ≠ 0))

instance : DecidablePred Leaf := fun v => inferInstanceAs (Decidable (v &&& (PTE_R ||| PTE_W ||| PTE_X) ≠ 0))

lemma not_valid_zero : ¬ Valid 0 := by decide

/-- The pages the valid PTEs of the page at `pt` point to. -/
def children (mem : Nat → Page) (pt : UInt64) : List UInt64 :=
  ((List.range 512).filter fun i => decide (Valid (pteAt mem pt i))).map fun i => PTE2PA (pteAt mem pt i)

/-- The page-table pages of the tree of `level` at `pt`, `pt` first. -/
def tablePages (mem : Nat → Page) : Nat → UInt64 → List UInt64
  | 0, pt => [pt]
  | l + 1, pt => pt :: (children mem pt).flatMap (tablePages mem l)

/-- The tree below slot `i` of the page at `pt` shares no page with the trees below the other
valid slots. -/
def Apart (mem : Nat → Page) (l : Nat) (pt : UInt64) (i : Nat) : Prop :=
  ∀ j < 512, j ≠ i → Valid (pteAt mem pt j) →
    ∀ p ∈ tablePages mem l (PTE2PA (pteAt mem pt i)), p ∉ tablePages mem l (PTE2PA (pteAt mem pt j))

instance (mem : Nat → Page) (l : Nat) (pt : UInt64) (i : Nat) : Decidable (Apart mem l pt i) :=
  Nat.decidableBallLT 512 fun j _ => j ≠ i → Valid (pteAt mem pt j) →
    ∀ p ∈ tablePages mem l (PTE2PA (pteAt mem pt i)), p ∉ tablePages mem l (PTE2PA (pteAt mem pt j))

/-- The tree of `level` at `pt` has the Sv39 shape, and no page serves twice in it: each valid
PTE above level 0 points, with none of `PTE_R`, `PTE_W`, `PTE_X`, to a tree that holds neither
`pt` nor a page of a sibling's tree; each valid PTE of level 0 is a leaf. -/
def Tree (mem : Nat → Page) : Nat → UInt64 → Prop
  | 0, pt => ∀ i < 512, Valid (pteAt mem pt i) → Leaf (pteAt mem pt i)
  | l + 1, pt => ∀ i < 512, Valid (pteAt mem pt i) →
      ¬ Leaf (pteAt mem pt i) ∧ Tree mem l (PTE2PA (pteAt mem pt i)) ∧
      pt ∉ tablePages mem l (PTE2PA (pteAt mem pt i)) ∧ Apart mem l pt i

instance Tree.decidable (mem : Nat → Page) : (l : Nat) → (pt : UInt64) → Decidable (Tree mem l pt)
  | 0, pt => Nat.decidableBallLT 512 fun i _ => Valid (pteAt mem pt i) → Leaf (pteAt mem pt i)
  | l + 1, pt =>
    have := Tree.decidable mem l
    Nat.decidableBallLT 512 fun i _ => Valid (pteAt mem pt i) →
      ¬ Leaf (pteAt mem pt i) ∧ Tree mem l (PTE2PA (pteAt mem pt i)) ∧
      pt ∉ tablePages mem l (PTE2PA (pteAt mem pt i)) ∧ Apart mem l pt i

/-- The leaf PTE for `va` in the tree of `level` at `pt`, when valid PTEs lead down to a valid
one at level 0. -/
def leafAt (mem : Nat → Page) : Nat → UInt64 → UInt64 → Option UInt64
  | 0, pt, va => if Valid (pteAt mem pt (PX 0 va).toNat) then some (pteAt mem pt (PX 0 va).toNat) else none
  | l + 1, pt, va =>
    if Valid (pteAt mem pt (PX (l + 1) va).toNat) then
      leafAt mem l (PTE2PA (pteAt mem pt (PX (l + 1) va).toNat)) va
    else none

lemma leafAt_two (mem : Nat → Page) (root va : UInt64) :
    leafAt mem 2 root va = if Valid (pteAt mem root (PX 2 va).toNat) then
      leafAt mem 1 (PTE2PA (pteAt mem root (PX 2 va).toNat)) va else none := rfl

lemma leafAt_one (mem : Nat → Page) (pt va : UInt64) :
    leafAt mem 1 pt va = if Valid (pteAt mem pt (PX 1 va).toNat) then
      leafAt mem 0 (PTE2PA (pteAt mem pt (PX 1 va).toNat)) va else none := rfl

/-- The map a page table stands for: the frame and the flags of the leaf PTE for `va`. -/
def lookup (mem : Nat → Page) (root va : UInt64) : Option (UInt64 × UInt64) :=
  (leafAt mem 2 root va).map fun v => (PTE2PA v, PTE_FLAGS v)

/-- A well-formed page table. -/
structure WellFormed (mem : Nat → Page) (root : UInt64) : Prop where
  aligned : PageAligned root
  tree : Tree mem 2 root

instance (mem : Nat → Page) (root : UInt64) : Decidable (WellFormed mem root) :=
  decidable_of_iff (PageAligned root ∧ Tree mem 2 root) ⟨fun h => ⟨h.1, h.2⟩, fun h => ⟨h.1, h.2⟩⟩

section Pages

variable {mem mem' : Nat → Page}

lemma mem_children {pt c : UInt64} :
    c ∈ children mem pt ↔ ∃ i < 512, Valid (pteAt mem pt i) ∧ PTE2PA (pteAt mem pt i) = c := by
  simp [children, and_assoc]

lemma child_mem_children {pt : UInt64} {i : Nat} (hi : i < 512) (hv : Valid (pteAt mem pt i)) :
    PTE2PA (pteAt mem pt i) ∈ children mem pt :=
  mem_children.mpr ⟨i, hi, hv, rfl⟩

lemma mem_tablePages_succ {l : Nat} {pt p : UInt64} :
    p ∈ tablePages mem (l + 1) pt ↔
      p = pt ∨ ∃ i < 512, Valid (pteAt mem pt i) ∧ p ∈ tablePages mem l (PTE2PA (pteAt mem pt i)) := by
  simp only [tablePages, List.mem_cons, List.mem_flatMap, mem_children]
  constructor
  · rintro (rfl | ⟨c, ⟨i, hi, hv, rfl⟩, hp⟩)
    · exact .inl rfl
    · exact .inr ⟨i, hi, hv, hp⟩
  · rintro (rfl | ⟨i, hi, hv, hp⟩)
    · exact .inl rfl
    · exact .inr ⟨_, ⟨i, hi, hv, rfl⟩, hp⟩

lemma self_mem_tablePages (l : Nat) (pt : UInt64) : pt ∈ tablePages mem l pt := by
  cases l <;> simp [tablePages]

lemma tablePages_subset {l : Nat} {pt : UInt64} {i : Nat} (hi : i < 512) (hv : Valid (pteAt mem pt i))
    {p : UInt64} (hp : p ∈ tablePages mem l (PTE2PA (pteAt mem pt i))) : p ∈ tablePages mem (l + 1) pt :=
  mem_tablePages_succ.mpr (.inr ⟨i, hi, hv, hp⟩)

/-- Below an aligned page every page of the tree is aligned. -/
lemma aligned_of_mem_tablePages : ∀ {l : Nat} {pt p : UInt64}, PageAligned pt →
    p ∈ tablePages mem l pt → PageAligned p
  | 0, _, _, hpt, hp => by
    rw [tablePages, List.mem_singleton] at hp
    exact hp ▸ hpt
  | _ + 1, _, _, hpt, hp => by
    rcases mem_tablePages_succ.mp hp with rfl | ⟨i, -, -, hp⟩
    · exact hpt
    · exact aligned_of_mem_tablePages (PTE2PA_aligned _) hp

lemma children_congr {pt : UInt64} (hpt : PageAligned pt) (h : mem' (frame pt) = mem (frame pt)) :
    children mem' pt = children mem pt := by
  have hs : ∀ i ∈ List.range 512, pteAt mem' pt i = pteAt mem pt i :=
    fun i hi => pteAt_congr hpt (List.mem_range.mp hi) h
  unfold children
  rw [List.filter_congr fun i hi => by rw [hs i hi]]
  exact List.map_congr_left fun i hi => by rw [hs i (List.mem_filter.mp hi).1]

/-- A tree reads only the frames of its own pages. -/
lemma tree_congr : ∀ {l : Nat} {pt : UInt64}, PageAligned pt →
    (∀ p ∈ tablePages mem l pt, mem' (frame p) = mem (frame p)) →
    tablePages mem' l pt = tablePages mem l pt ∧ (Tree mem' l pt ↔ Tree mem l pt) ∧
      ∀ va, leafAt mem' l pt va = leafAt mem l pt va
  | 0, pt, hpt, h => by
    have hs : ∀ i < 512, pteAt mem' pt i = pteAt mem pt i :=
      fun i hi => pteAt_congr hpt hi (h pt (self_mem_tablePages 0 pt))
    refine ⟨rfl, ?_, fun va => ?_⟩
    · simp only [Tree]
      exact forall₂_congr fun i hi => by rw [hs i hi]
    · simp only [leafAt, hs _ (PX_toNat_lt 0 va)]
  | l + 1, pt, hpt, h => by
    have hpt' := h pt (self_mem_tablePages _ pt)
    have hs : ∀ i < 512, pteAt mem' pt i = pteAt mem pt i := fun i hi => pteAt_congr hpt hi hpt'
    -- each subtree is read from frames of the whole tree
    have ih : ∀ i < 512, Valid (pteAt mem pt i) →
        tablePages mem' l (PTE2PA (pteAt mem pt i)) = tablePages mem l (PTE2PA (pteAt mem pt i)) ∧
        (Tree mem' l (PTE2PA (pteAt mem pt i)) ↔ Tree mem l (PTE2PA (pteAt mem pt i))) ∧
        ∀ va, leafAt mem' l (PTE2PA (pteAt mem pt i)) va = leafAt mem l (PTE2PA (pteAt mem pt i)) va :=
      fun i hi hv => tree_congr (PTE2PA_aligned _) fun p hp => h p (tablePages_subset hi hv hp)
    refine ⟨?_, ?_, fun va => ?_⟩
    · show pt :: (children mem' pt).flatMap (tablePages mem' l) =
        pt :: (children mem pt).flatMap (tablePages mem l)
      rw [children_congr hpt hpt']
      refine congrArg (pt :: ·) (List.flatMap_congr fun c hc => ?_)
      obtain ⟨i, hi, hv, rfl⟩ := mem_children.mp hc
      exact (ih i hi hv).1
    · simp only [Tree]
      refine forall₂_congr fun i hi => ?_
      rw [hs i hi]
      refine imp_congr_right fun hv => ?_
      rw [(ih i hi hv).1, (ih i hi hv).2.1]
      refine and_congr_right' (and_congr_right' (and_congr_right' (forall₂_congr fun j hj => ?_)))
      refine imp_congr_right fun _ => ?_
      rw [hs j hj]
      exact imp_congr_right fun hvj => by rw [(ih j hj hvj).1, hs i hi, (ih i hi hv).1]
    · have hx := PX_toNat_lt (l + 1) va
      simp only [leafAt, hs _ hx]
      split
      · rename_i hv
        exact (ih _ hx hv).2.2 va
      · rfl

/-- A page of zeros is a tree of any level, with no page below it and no leaf. -/
lemma zero_tree {pt : UInt64} (hz : ∀ i < 512, pteAt mem pt i = 0) :
    ∀ l, tablePages mem l pt = [pt] ∧ Tree mem l pt ∧ ∀ va, leafAt mem l pt va = none := by
  have hinv : ∀ i < 512, ¬ Valid (pteAt mem pt i) := fun i hi => by
    rw [hz i hi]
    exact not_valid_zero
  have hc : children mem pt = [] := by
    unfold children
    rw [List.filter_eq_nil_iff.mpr fun i hi => by simpa using hinv i (List.mem_range.mp hi)]
    rfl
  intro l
  cases l with
  | zero =>
    refine ⟨rfl, fun i hi hv => absurd hv (hinv i hi), fun va => ?_⟩
    simp only [leafAt, if_neg (hinv _ (PX_toNat_lt 0 va))]
  | succ l =>
    refine ⟨by rw [tablePages, hc]; rfl, fun i hi hv => absurd hv (hinv i hi), fun va => ?_⟩
    simp only [leafAt, if_neg (hinv _ (PX_toNat_lt (l + 1) va))]

end Pages

/-! ## Changing a tree -/

section Change

variable {m m₂ : Nat → Page} {l : Nat} {pt : UInt64} {i : Nat}

/-- The tree at `pt` after the subtree below slot `i` changes, the other slots and the trees below
them left as they were. It stays a tree when the new subtree is one whose pages are old pages of
slot `i` or pages of `F`, which the old tree does not hold; the map changes only below slot
`i`. -/
lemma Tree.replace {F : List UInt64} (hpt : PageAligned pt) (ht : Tree m (l + 1) pt) (hi : i < 512)
    (hslots : ∀ k < 512, k ≠ i → pteAt m₂ pt k = pteAt m pt k)
    (hsib : ∀ k < 512, k ≠ i → Valid (pteAt m pt k) →
      ∀ p ∈ tablePages m l (PTE2PA (pteAt m pt k)), m₂ (frame p) = m (frame p))
    (hnew : Valid (pteAt m₂ pt i) → ¬ Leaf (pteAt m₂ pt i) ∧ Tree m₂ l (PTE2PA (pteAt m₂ pt i)) ∧
      ∀ p ∈ tablePages m₂ l (PTE2PA (pteAt m₂ pt i)),
        p ∈ F ∨ (Valid (pteAt m pt i) ∧ p ∈ tablePages m l (PTE2PA (pteAt m pt i))))
    (hF : ∀ p ∈ F, p ∉ tablePages m (l + 1) pt) :
    Tree m₂ (l + 1) pt ∧ (∀ p ∈ tablePages m₂ (l + 1) pt, p ∈ F ∨ p ∈ tablePages m (l + 1) pt) ∧
      ∀ va, (PX (l + 1) va).toNat ≠ i → leafAt m₂ (l + 1) pt va = leafAt m (l + 1) pt va := by
  -- the trees below the other slots are read from frames that did not change
  have hsame : ∀ k < 512, k ≠ i → Valid (pteAt m pt k) →
      tablePages m₂ l (PTE2PA (pteAt m pt k)) = tablePages m l (PTE2PA (pteAt m pt k)) ∧
      (Tree m₂ l (PTE2PA (pteAt m pt k)) ↔ Tree m l (PTE2PA (pteAt m pt k))) ∧
      ∀ va, leafAt m₂ l (PTE2PA (pteAt m pt k)) va = leafAt m l (PTE2PA (pteAt m pt k)) va :=
    fun k hk hki hv => tree_congr (PTE2PA_aligned _) (hsib k hk hki hv)
  have hptF : pt ∉ F := fun h => hF pt h (self_mem_tablePages _ pt)
  refine ⟨fun k hk hvk₂ => ?_, fun p hp => ?_, fun va hva => ?_⟩
  · by_cases hki : k = i
    · subst hki
      obtain ⟨hnl, htree, hpages⟩ := hnew hvk₂
      refine ⟨hnl, htree, fun hp => ?_, fun j hj hjk hvj₂ p hp hpj => ?_⟩
      · rcases hpages pt hp with h | ⟨hv, h⟩
        · exact hptF h
        · exact (ht k hk hv).2.2.1 h
      · rw [hslots j hj hjk] at hvj₂ hpj
        rw [(hsame j hj hjk hvj₂).1] at hpj
        rcases hpages p hp with h | ⟨hv, h⟩
        · exact hF p h (tablePages_subset hj hvj₂ hpj)
        · exact (ht k hk hv).2.2.2 j hj hjk hvj₂ p h hpj
    · have hvk : Valid (pteAt m pt k) := by rwa [hslots k hk hki] at hvk₂
      obtain ⟨hnl, htree, hnot, hapart⟩ := ht k hk hvk
      obtain ⟨hpages, htree', -⟩ := hsame k hk hki hvk
      rw [hslots k hk hki]
      refine ⟨hnl, htree'.mpr htree, by rw [hpages]; exact hnot, fun j hj hjk hvj₂ p hp hpj => ?_⟩
      rw [hslots k hk hki, hpages] at hp
      by_cases hji : j = i
      · subst hji
        rcases (hnew hvj₂).2.2 p hpj with h | ⟨hv, h⟩
        · exact hF p h (tablePages_subset hk hvk hp)
        · exact hapart j hj hjk hv p hp h
      · rw [hslots j hj hji] at hvj₂ hpj
        rw [(hsame j hj hji hvj₂).1] at hpj
        exact hapart j hj hjk hvj₂ p hp hpj
  · rcases mem_tablePages_succ.mp hp with rfl | ⟨k, hk, hvk₂, hp⟩
    · exact .inr (self_mem_tablePages _ _)
    · by_cases hki : k = i
      · subst hki
        rcases (hnew hvk₂).2.2 p hp with h | ⟨hv, h⟩
        · exact .inl h
        · exact .inr (tablePages_subset hk hv h)
      · have hvk : Valid (pteAt m pt k) := by rwa [hslots k hk hki] at hvk₂
        rw [hslots k hk hki, (hsame k hk hki hvk).1] at hp
        exact .inr (tablePages_subset hk hvk hp)
  · have hx := PX_toNat_lt (l + 1) va
    simp only [leafAt, hslots _ hx hva]
    split
    · rename_i hv
      exact (hsame _ hx hva hv).2.2 va
    · rfl

/-- A change below slot `i` of the top page: the page's own frame and the trees below the other
slots keep their frames, since every frame that changed holds a page of the tree below slot `i`
or of `F`. -/
lemma Tree.descend {F : List UInt64} (hpt : PageAligned pt) (ht : Tree m (l + 1) pt) (hi : i < 512)
    (hv : Valid (pteAt m pt i))
    (hchg : ∀ q, PageAligned q → m₂ (frame q) ≠ m (frame q) →
      q ∈ tablePages m l (PTE2PA (pteAt m pt i)) ∨ q ∈ F)
    (hsub : Tree m₂ l (PTE2PA (pteAt m pt i)) ∧
      ∀ p ∈ tablePages m₂ l (PTE2PA (pteAt m pt i)), p ∈ F ∨ p ∈ tablePages m l (PTE2PA (pteAt m pt i)))
    (hF : ∀ p ∈ F, p ∉ tablePages m (l + 1) pt) :
    Tree m₂ (l + 1) pt ∧ (∀ p ∈ tablePages m₂ (l + 1) pt, p ∈ F ∨ p ∈ tablePages m (l + 1) pt) ∧
      ∀ va, leafAt m₂ (l + 1) pt va =
        if (PX (l + 1) va).toNat = i then leafAt m₂ l (PTE2PA (pteAt m pt i)) va
        else leafAt m (l + 1) pt va := by
  have hown : m₂ (frame pt) = m (frame pt) := by
    by_contra hne
    rcases hchg pt hpt hne with h | h
    · exact (ht i hi hv).2.2.1 h
    · exact hF pt h (self_mem_tablePages _ pt)
  have hslots : ∀ k < 512, pteAt m₂ pt k = pteAt m pt k := fun k hk => pteAt_congr hpt hk hown
  have hsib : ∀ k < 512, k ≠ i → Valid (pteAt m pt k) →
      ∀ p ∈ tablePages m l (PTE2PA (pteAt m pt k)), m₂ (frame p) = m (frame p) := by
    intro k hk hki hvk p hp
    by_contra hne
    rcases hchg p (aligned_of_mem_tablePages (PTE2PA_aligned _) hp) hne with h | h
    · exact (ht k hk hvk).2.2.2 i hi (Ne.symm hki) hv p hp h
    · exact hF p h (tablePages_subset hk hvk hp)
  obtain ⟨htree, hpages, hleaf⟩ := Tree.replace hpt ht hi (fun k hk _ => hslots k hk) hsib
    (fun _ => by
      rw [hslots i hi]
      exact ⟨(ht i hi hv).1, hsub.1, fun p hp => (hsub.2 p hp).imp_right fun h => ⟨hv, h⟩⟩) hF
  refine ⟨htree, hpages, fun va => ?_⟩
  split
  · rename_i hx
    rw [leafAt, hslots _ (PX_toNat_lt _ va), hx, if_pos hv]
  · exact hleaf va ‹_›

lemma valid_mkPte (pa : UInt64) {flags : UInt64} : Valid (mkPte pa flags) ↔ Valid flags := by
  unfold Valid
  rw [and_mk pa (by decide)]

lemma leaf_mkPte (pa : UInt64) {flags : UInt64} : Leaf (mkPte pa flags) ↔ Leaf flags := by
  unfold Leaf
  rw [and_mk pa (by decide)]

/-- Linking a zeroed page `P` that is not in the tree into the invalid slot `i` of the top page, as
`walk` does: the tree stays a tree with the same map, and its pages are the old ones and `P`. -/
lemma Tree.link (s : VmState) {P : UInt64} (hpt : PageAligned pt) (ht : Tree s.mem (l + 1) pt)
    (hi : i < 512) (hinv : ¬ Valid (pteAt s.mem pt i)) (hP : PageAligned P)
    (hfresh : P ∉ tablePages s.mem (l + 1) pt) :
    Tree ((s.fill P 0).setWord (pt + 8 * UInt64.ofNat i) (mkPte P PTE_V)).mem (l + 1) pt ∧
      (∀ p ∈ tablePages ((s.fill P 0).setWord (pt + 8 * UInt64.ofNat i) (mkPte P PTE_V)).mem (l + 1) pt,
        p ∈ [P] ∨ p ∈ tablePages s.mem (l + 1) pt) ∧
      ∀ va, leafAt ((s.fill P 0).setWord (pt + 8 * UInt64.ofNat i) (mkPte P PTE_V)).mem (l + 1) pt va =
        leafAt s.mem (l + 1) pt va := by
  set s₂ := (s.fill P 0).setWord (pt + 8 * UInt64.ofNat i) (mkPte P PTE_V)
  have hPpt : frame P ≠ frame pt := fun e => hfresh (by
    rw [hP.frame_inj hpt e]
    exact self_mem_tablePages _ pt)
  have hPslot : frame P ≠ frame (pt + 8 * UInt64.ofNat i) := by rwa [frame_slot hpt hi]
  -- the new page is all zeros, below the new slot
  have hslot : pteAt s₂.mem pt i = mkPte P PTE_V := pteAt_setWord_self _ hpt hi _
  have hchild : PTE2PA (mkPte P PTE_V) = P := PTE2PA_mk hP (by decide)
  have hzero : ∀ k < 512, pteAt s₂.mem P k = 0 := fun k hk => by
    rw [pteAt_congr hP hk (setWord_mem_of_ne _ _ hPslot)]
    exact pteAt_fill_zero s hP hk
  obtain ⟨hzpages, hztree, hzleaf⟩ := zero_tree hzero l
  have hslots : ∀ k < 512, k ≠ i → pteAt s₂.mem pt k = pteAt s.mem pt k := fun k hk hki => by
    rw [pteAt_setWord_of_ne _ hpt hi hk hki]
    exact pteAt_congr hpt hk (fill_mem_of_ne _ _ hPpt.symm)
  have hsib : ∀ k < 512, k ≠ i → Valid (pteAt s.mem pt k) →
      ∀ p ∈ tablePages s.mem l (PTE2PA (pteAt s.mem pt k)), s₂.mem (frame p) = s.mem (frame p) := by
    intro k hk hki hv p hp
    have hpa := aligned_of_mem_tablePages (PTE2PA_aligned _) hp
    have hppt : frame p ≠ frame (pt + 8 * UInt64.ofNat i) := fun e => by
      have hp' := hpa.frame_inj hpt (e.trans (frame_slot hpt hi))
      subst hp'
      exact (ht k hk hv).2.2.1 hp
    have hpP : frame p ≠ frame P := fun e => by
      have hp' := hpa.frame_inj hP e
      subst hp'
      exact hfresh (tablePages_subset hk hv hp)
    rw [setWord_mem_of_ne _ _ hppt, fill_mem_of_ne _ _ hpP]
  obtain ⟨htree, hpages, hleaf⟩ := Tree.replace hpt ht hi hslots hsib
    (fun _ => by
      rw [hslot, hchild, hzpages]
      exact ⟨by rw [leaf_mkPte]; decide, hztree, fun p hp => .inl hp⟩)
    (fun p hp => by
      rw [List.mem_singleton] at hp
      exact hp ▸ hfresh)
  refine ⟨htree, hpages, fun va => ?_⟩
  by_cases hx : (PX (l + 1) va).toNat = i
  · -- the slot of `va` was invalid, and the new page below it is empty
    rw [leafAt, leafAt, hx, hslot, if_neg hinv, if_pos ((valid_mkPte P).mpr (by decide)), hchild,
      hzleaf]
  · exact hleaf va hx

/-- Writing `w` into slot `k` of a page of level 0: still a tree when `w` is a leaf or is not
valid, and the map changes at slot `k` only. -/
lemma Tree.setLeaf (s : VmState) {k : Nat} {w : UInt64} (hpt : PageAligned pt) (ht : Tree s.mem 0 pt)
    (hk : k < 512) (hw : Valid w → Leaf w) :
    Tree (s.setWord (pt + 8 * UInt64.ofNat k) w).mem 0 pt ∧
      ∀ va, leafAt (s.setWord (pt + 8 * UInt64.ofNat k) w).mem 0 pt va =
        if (PX 0 va).toNat = k then (if Valid w then some w else none) else leafAt s.mem 0 pt va := by
  refine ⟨fun j hj hv => ?_, fun va => ?_⟩
  · by_cases hjk : j = k
    · subst hjk
      rw [pteAt_setWord_self _ hpt hk] at hv ⊢
      exact hw hv
    · rw [pteAt_setWord_of_ne _ hpt hk hj hjk] at hv ⊢
      exact ht j hj hv
  · by_cases hx : (PX 0 va).toNat = k
    · rw [if_pos hx, leafAt, hx, pteAt_setWord_self _ hpt hk]
    · rw [if_neg hx, leafAt, leafAt, pteAt_setWord_of_ne _ hpt hk (PX_toNat_lt 0 va) hx]

end Change

/-! ## One round of `walk` -/

section WalkLevel

variable {s : VmState} {va pt : UInt64} {level : Nat}

lemma valid_iff_bne (v : UInt64) : (v &&& PTE_V != 0) = true ↔ Valid v := bne_iff_ne

/-- A valid PTE on the path leads to the page it points to. -/
lemma walkLevel_valid (alloc : Bool) (hv : Valid (pteAt s.mem pt (PX level va).toNat)) :
    (walkLevel va alloc pt level).run s = .ok (some (PTE2PA (pteAt s.mem pt (PX level va).toNat)), s) := by
  have hb := (valid_iff_bne _).mpr hv
  simp only [walkLevel, run_get_bind, read64_pteAddr, hb, ↓reduceIte]
  rfl

/-- Without allocation, an invalid PTE ends the walk. -/
lemma walkLevel_noalloc (hv : ¬ Valid (pteAt s.mem pt (PX level va).toNat)) :
    (walkLevel va false pt level).run s = .ok (none, s) := by
  have hb : (pteAt s.mem pt (PX level va).toNat &&& PTE_V != 0) = false :=
    Bool.eq_false_iff.mpr fun h => hv ((valid_iff_bne _).mp h)
  simp only [walkLevel, run_get_bind, read64_pteAddr, hb, Bool.false_eq_true, ↓reduceIte, Bool.not_false]
  rfl

/-- With allocation and no free page, an invalid PTE ends the walk. -/
lemma walkLevel_alloc_empty (hv : ¬ Valid (pteAt s.mem pt (PX level va).toNat)) (hl : Free s []) :
    (walkLevel va true pt level).run s = .ok (none, s) := by
  have hb : (pteAt s.mem pt (PX level va).toNat &&& PTE_V != 0) = false :=
    Bool.eq_false_iff.mpr fun h => hv ((valid_iff_bne _).mp h)
  unfold walkLevel
  rw [run_get_bind]
  simp only [read64_pteAddr, hb, Bool.false_eq_true, ↓reduceIte, Bool.not_true, run_bind,
    kalloc_empty hl, beq_self_eq_true, run_pure]

/-- With allocation, an invalid PTE gets the first free page, zeroed. -/
lemma walkLevel_alloc_cons {P : UInt64} {l : List UInt64}
    (hv : ¬ Valid (pteAt s.mem pt (PX level va).toNat)) (hl : Free s (P :: l)) :
    (walkLevel va true pt level).run s =
      .ok (some P, ((s.popped P).fill P 0).setWord (pteAddr pt level va) (mkPte P PTE_V)) := by
  have hb : (pteAt s.mem pt (PX level va).toNat &&& PTE_V != 0) = false :=
    Bool.eq_false_iff.mpr fun h => hv ((valid_iff_bne _).mp h)
  have hP : (P == 0) = false := beq_eq_false_iff_ne.mpr hl.chain.2.1
  unfold walkLevel
  rw [run_get_bind]
  simp only [read64_pteAddr, hb, Bool.false_eq_true, ↓reduceIte, Bool.not_true, run_bind,
    kalloc_cons hl, hP, run_memset, run_write64, run_pure]
  rfl

end WalkLevel

/-! ## A table beside the free list -/

/-- `s'` differs from `s` at most in the frames of the pages `D`. -/
structure Within (s s' : VmState) (D : List UInt64) : Prop where
  mem : ∀ f, (∀ p ∈ D, f ≠ frame p) → s'.mem f = s.mem f
  kernelEnd : s'.kernelEnd = s.kernelEnd
  trampoline : s'.trampoline = s.trampoline

lemma Within.refl (s : VmState) (D : List UInt64) : Within s s D := ⟨fun _ _ => rfl, rfl, rfl⟩

lemma Within.mono {s s' : VmState} {D D' : List UInt64} (h : Within s s' D) (hD : ∀ p ∈ D, p ∈ D') :
    Within s s' D' :=
  ⟨fun f hf => h.mem f fun p hp => hf p (hD p hp), h.kernelEnd, h.trampoline⟩

lemma Within.trans {s₁ s₂ s₃ : VmState} {D : List UInt64} (h₁ : Within s₁ s₂ D) (h₂ : Within s₂ s₃ D) :
    Within s₁ s₃ D :=
  ⟨fun f hf => (h₂.mem f hf).trans (h₁.mem f hf), h₂.kernelEnd.trans h₁.kernelEnd,
    h₂.trampoline.trans h₁.trampoline⟩

/-- What linking a popped page `P` into slot `j` of `T` changes: the frames of `P` and `T`. -/
lemma within_link (s : VmState) (P : UInt64) {T : UInt64} (hT : PageAligned T) {j : Nat} (hj : j < 512)
    (e : UInt64) : Within s (((s.popped P).fill P 0).setWord (T + 8 * UInt64.ofNat j) e) [P, T] where
  mem f hf := by
    have hP : f ≠ frame P := hf P (by simp)
    rw [setWord_mem_of_ne _ _ (by rw [frame_slot hT hj]; exact hf T (by simp)), fill_mem_of_ne _ _ hP]
    exact fill_mem_of_ne _ _ hP
  kernelEnd := rfl
  trampoline := rfl

/-- A page table at `root` beside the free list `l`: well formed, `l` the allocator's free list,
and no page of the table on it. -/
structure Sep (s : VmState) (root : UInt64) (l : List UInt64) : Prop where
  wf : WellFormed s.mem root
  free : Free s l
  apart : ∀ p ∈ l, p ∉ tablePages s.mem 2 root

/-- A change to frames of pages that are not in the tree leaves the tree alone. -/
lemma tree_congr_off {mem mem' : Nat → Page} {l : Nat} {pt : UInt64} {D : List UInt64}
    (hpt : PageAligned pt) (hDal : ∀ p ∈ D, PageAligned p) (hD : ∀ p ∈ D, p ∉ tablePages mem l pt)
    (h : ∀ f, (∀ p ∈ D, f ≠ frame p) → mem' f = mem f) :
    tablePages mem' l pt = tablePages mem l pt ∧ (Tree mem' l pt ↔ Tree mem l pt) ∧
      ∀ va, leafAt mem' l pt va = leafAt mem l pt va :=
  tree_congr hpt fun q hq => h _ fun p hp e => by
    have hqp := (aligned_of_mem_tablePages hpt hq).frame_inj (hDal p hp) e
    subst hqp
    exact hD q hp hq

lemma popped_mem_of_ne (s : VmState) {P : UInt64} {f : Nat} (hf : f ≠ frame P) :
    (s.popped P).mem f = s.mem f :=
  fill_mem_of_ne _ 5 hf

/-- The rest of the free list stays free when the popped page is zeroed and linked into a page
`T` that is not on it. -/
lemma Free.link {s : VmState} {P T : UInt64} {l : List UInt64} (h : Free s (P :: l))
    (hT : PageAligned T) (hTl : T ∉ l) {j : Nat} (hj : j < 512) (e : UInt64) :
    Free (((s.popped P).fill P 0).setWord (T + 8 * UInt64.ofNat j) e) l :=
  h.popped.of_mem_eq rfl rfl fun p hp => by
    have hpa := h.aligned p (List.mem_cons_of_mem P hp)
    have hpP : frame p ≠ frame P := h.frame_ne (List.mem_cons_of_mem P hp) List.mem_cons_self
      fun e => (List.nodup_cons.mp h.nodup).1 (e ▸ hp)
    have hpT : frame p ≠ frame (T + 8 * UInt64.ofNat j) := by
      rw [frame_slot hT hj]
      intro e
      have hpT := hpa.frame_inj hT e
      subst hpT
      exact hTl hp
    rw [setWord_mem_of_ne _ _ hpT, fill_mem_of_ne _ _ hpP]

/-- Linking the first free page `P` into the invalid root slot of `va`: the table stays well
formed beside the rest of the free list, with the same map and `P` its one new page. -/
lemma Sep.link_root {s s₁ : VmState} {root va P : UInt64} {l : List UInt64} (hs : Sep s root (P :: l))
    (hinv : ¬ Valid (pteAt s.mem root (PX 2 va).toNat))
    (hs₁ : s₁ = ((s.popped P).fill P 0).setWord (pteAddr root 2 va) (mkPte P PTE_V)) :
    Sep s₁ root l ∧ (∀ va', leafAt s₁.mem 2 root va' = leafAt s.mem 2 root va') ∧
      (∀ p ∈ tablePages s₁.mem 2 root, p ∈ [P] ∨ p ∈ tablePages s.mem 2 root) ∧
      Within s s₁ [P, root] ∧ pteAt s₁.mem root (PX 2 va).toNat = mkPte P PTE_V := by
  have hi := PX_toNat_lt 2 va
  have hroot := hs.wf.aligned
  have hP : PageAligned P := hs.free.aligned P List.mem_cons_self
  have hfresh : P ∉ tablePages s.mem 2 root := hs.apart P List.mem_cons_self
  have hProot : frame root ≠ frame P := fun e => hfresh (by
    rw [← hroot.frame_inj hP e]
    exact self_mem_tablePages 2 root)
  -- popping `P` changes only its own frame, which holds no page of the table
  obtain ⟨hpages₀, htree₀, hleaf₀⟩ := @tree_congr_off s.mem (s.popped P).mem 2 root [P] hroot
    (fun p hp => by rw [List.mem_singleton.mp hp]; exact hP)
    (fun p hp => by rw [List.mem_singleton.mp hp]; exact hfresh)
    (fun f hf => popped_mem_of_ne s (hf P (List.mem_singleton_self P)))
  have hinv₀ : ¬ Valid (pteAt (s.popped P).mem root (PX 2 va).toNat) := by
    rwa [pteAt_congr hroot hi (popped_mem_of_ne s hProot)]
  rw [pteAddr_eq] at hs₁
  subst hs₁
  obtain ⟨htree, hpages, hleaf⟩ := Tree.link (s.popped P) hroot (htree₀.mpr hs.wf.tree) hi hinv₀ hP
    (by rw [hpages₀]; exact hfresh)
  simp only [Nat.reduceAdd] at htree hpages hleaf
  refine ⟨⟨⟨hroot, htree⟩, hs.free.link hroot (fun h => hs.apart root (List.mem_cons_of_mem P h)
    (self_mem_tablePages 2 root)) hi _, fun p hp hpt => ?_⟩, fun va' => ?_, fun p hp => ?_,
    within_link s P hroot hi _, pteAt_setWord_self _ hroot hi _⟩
  · rcases hpages p hpt with h | h
    · rw [List.mem_singleton.mp h] at hp
      exact (List.nodup_cons.mp hs.free.nodup).1 hp
    · rw [hpages₀] at h
      exact hs.apart p (List.mem_cons_of_mem P hp) h
  · rw [hleaf va', hleaf₀ va']
  · rw [← hpages₀]
    exact hpages p hp

/-- Linking the first free page `Q` into the invalid level-1 slot of `va`, below a valid root slot:
the table stays well formed beside the rest of the free list, with the same map and `Q` its one
new page. -/
lemma Sep.link_below {s s₂ : VmState} {root va Q : UInt64} {l : List UInt64} (hs : Sep s root (Q :: l))
    (hv : Valid (pteAt s.mem root (PX 2 va).toNat))
    (hinv : ¬ Valid (pteAt s.mem (PTE2PA (pteAt s.mem root (PX 2 va).toNat)) (PX 1 va).toNat))
    (hs₂ : s₂ = ((s.popped Q).fill Q 0).setWord
      (pteAddr (PTE2PA (pteAt s.mem root (PX 2 va).toNat)) 1 va) (mkPte Q PTE_V)) :
    Sep s₂ root l ∧ (∀ va', leafAt s₂.mem 2 root va' = leafAt s.mem 2 root va') ∧
      (∀ p ∈ tablePages s₂.mem 2 root, p ∈ [Q] ∨ p ∈ tablePages s.mem 2 root) ∧
      Within s s₂ [Q, PTE2PA (pteAt s.mem root (PX 2 va).toNat)] ∧
      pteAt s₂.mem root (PX 2 va).toNat = pteAt s.mem root (PX 2 va).toNat ∧
      pteAt s₂.mem (PTE2PA (pteAt s.mem root (PX 2 va).toNat)) (PX 1 va).toNat = mkPte Q PTE_V := by
  have hi2 := PX_toNat_lt 2 va
  have hi1 := PX_toNat_lt 1 va
  have hroot := hs.wf.aligned
  have hp1 := PTE2PA_aligned (pteAt s.mem root (PX 2 va).toNat)
  have hQ : PageAligned Q := hs.free.aligned Q List.mem_cons_self
  have hfresh : Q ∉ tablePages s.mem 2 root := hs.apart Q List.mem_cons_self
  obtain ⟨-, ht1, hrootp1, -⟩ := hs.wf.tree _ hi2 hv
  have hsub : ∀ p ∈ tablePages s.mem 1 (PTE2PA (pteAt s.mem root (PX 2 va).toNat)),
      p ∈ tablePages s.mem 2 root := fun p hp => tablePages_subset hi2 hv hp
  have hp1tree := hsub _ (self_mem_tablePages 1 _)
  have hQp1 : frame (PTE2PA (pteAt s.mem root (PX 2 va).toNat)) ≠ frame Q := fun e => hfresh (by
    rw [← hp1.frame_inj hQ e]
    exact hp1tree)
  -- popping `Q` changes only its own frame, which holds no page of the table
  obtain ⟨hpages₀, htree₀, hleaf₀⟩ := @tree_congr_off s.mem (s.popped Q).mem 1 _ [Q] hp1
    (fun p hp => by rw [List.mem_singleton.mp hp]; exact hQ)
    (fun p hp => by rw [List.mem_singleton.mp hp]; exact fun h => hfresh (hsub Q h))
    (fun f hf => popped_mem_of_ne s (hf Q (List.mem_singleton_self Q)))
  have hinv₀ : ¬ Valid (pteAt (s.popped Q).mem (PTE2PA (pteAt s.mem root (PX 2 va).toNat)) (PX 1 va).toNat) := by
    rwa [pteAt_congr hp1 hi1 (popped_mem_of_ne s hQp1)]
  rw [pteAddr_eq] at hs₂
  subst hs₂
  obtain ⟨htree₁, hpages₁, hleaf₁⟩ := Tree.link (s.popped Q) hp1 (htree₀.mpr ht1) hi1 hinv₀ hQ
    (by rw [hpages₀]; exact fun h => hfresh (hsub Q h))
  simp only [Nat.reduceAdd] at htree₁ hpages₁ hleaf₁
  have hwithin := within_link s Q hp1 hi1 (mkPte Q PTE_V)
  -- the change lies below the root slot of `va`, in frames of `Q` and of the level-1 page
  have hchg : ∀ q, PageAligned q → (((s.popped Q).fill Q 0).setWord
      (PTE2PA (pteAt s.mem root (PX 2 va).toNat) + 8 * UInt64.ofNat (PX 1 va).toNat)
      (mkPte Q PTE_V)).mem (frame q) ≠ s.mem (frame q) →
      q ∈ tablePages s.mem 1 (PTE2PA (pteAt s.mem root (PX 2 va).toNat)) ∨ q ∈ [Q] := by
    intro q hq hne
    by_cases hqQ : frame q = frame Q
    · exact .inr (by rw [hq.frame_inj hQ hqQ]; exact List.mem_singleton_self Q)
    · by_cases hqp : frame q = frame (PTE2PA (pteAt s.mem root (PX 2 va).toNat))
      · exact .inl (by rw [hq.frame_inj hp1 hqp]; exact self_mem_tablePages 1 _)
      · exact absurd (hwithin.mem _ (by simp [hqQ, hqp])) hne
  have hF : ∀ p ∈ [Q], p ∉ tablePages s.mem 2 root := fun p hp => by
    rw [List.mem_singleton.mp hp]
    exact hfresh
  obtain ⟨htree, hpages, hleaf⟩ := Tree.descend hroot hs.wf.tree hi2 hv hchg
    ⟨htree₁, fun p hp => by rw [← hpages₀]; exact hpages₁ p hp⟩ hF
  have hrootQ : frame root ≠ frame Q := fun e => hfresh (by
    rw [← hroot.frame_inj hQ e]
    exact self_mem_tablePages 2 root)
  have hrootp : frame root ≠ frame (PTE2PA (pteAt s.mem root (PX 2 va).toNat)) := fun e =>
    ne_of_mem_of_not_mem (self_mem_tablePages 1 _) hrootp1 (hroot.frame_inj hp1 e).symm
  refine ⟨⟨⟨hroot, htree⟩, hs.free.link hp1 (fun h => hs.apart _ (List.mem_cons_of_mem Q h) hp1tree)
    hi1 _, fun p hp hpt => ?_⟩, fun va' => ?_, hpages, hwithin,
    pteAt_congr hroot hi2 (hwithin.mem _ (by simp [hrootQ, hrootp])), pteAt_setWord_self _ hp1 hi1 _⟩
  · rcases hpages p hpt with h | h
    · rw [List.mem_singleton.mp h] at hp
      exact (List.nodup_cons.mp hs.free.nodup).1 hp
    · exact hs.apart p (List.mem_cons_of_mem Q hp) h
  · rw [hleaf va']
    split
    · rename_i hx
      rw [hleaf₁ va', hleaf₀ va', leafAt_two, hx, if_pos hv]
    · rfl

/-! ## `walk` -/

/-- The level-0 page on the path of `va`, when the PTEs of levels 2 and 1 on the path are
valid. -/
def leafTable (mem : Nat → Page) (root va : UInt64) : Option UInt64 :=
  if Valid (pteAt mem root (PX 2 va).toNat) then
    if Valid (pteAt mem (PTE2PA (pteAt mem root (PX 2 va).toNat)) (PX 1 va).toNat) then
      some (PTE2PA (pteAt mem (PTE2PA (pteAt mem root (PX 2 va).toNat)) (PX 1 va).toNat))
    else none
  else none

/-- The leaf of `va` is the slot of `va` in its level-0 page, when that slot is valid. -/
lemma leafAt_eq_bind (mem : Nat → Page) (root va : UInt64) :
    leafAt mem 2 root va = (leafTable mem root va).bind fun p0 =>
      if Valid (pteAt mem p0 (PX 0 va).toNat) then some (pteAt mem p0 (PX 0 va).toNat) else none := by
  rw [leafAt_two, leafTable]
  split
  · rw [leafAt_one]
    split <;> rfl
  · rfl

/-- What a change of the table may do beside the free list `l`: move pages `pre` from the head of
the list into the table, changing only their frames and the table's. -/
structure Takes (s s' : VmState) (root : UInt64) (l l' : List UInt64) : Prop where
  taken : ∃ pre, l = pre ++ l' ∧ (∀ p ∈ tablePages s'.mem 2 root, p ∈ pre ∨ p ∈ tablePages s.mem 2 root) ∧
    Within s s' (pre ++ tablePages s.mem 2 root)
  sep : Sep s' root l'

/-- What `walk` may do: take pages from the free list into the table and keep the map. -/
structure Grows (s s' : VmState) (root : UInt64) (l l' : List UInt64) : Prop
    extends Takes s s' root l l' where
  map : ∀ va, leafAt s'.mem 2 root va = leafAt s.mem 2 root va

section Grows

variable {s s₁ s₂ : VmState} {root : UInt64} {l l₁ l₂ : List UInt64}

lemma Takes.refl (hs : Sep s root l) : Takes s s root l l :=
  ⟨⟨[], rfl, fun _ hp => .inr hp, Within.refl _ _⟩, hs⟩

lemma Takes.trans (h₁ : Takes s s₁ root l l₁) (h₂ : Takes s₁ s₂ root l₁ l₂) : Takes s s₂ root l l₂ := by
  obtain ⟨pre₁, rfl, hp₁, hw₁⟩ := h₁.taken
  obtain ⟨pre₂, rfl, hp₂, hw₂⟩ := h₂.taken
  refine ⟨⟨pre₁ ++ pre₂, by rw [List.append_assoc], fun p hp => ?_, ?_⟩, h₂.sep⟩
  · rcases hp₂ p hp with h | h
    · exact .inl (List.mem_append_right _ h)
    · exact (hp₁ p h).imp_left (List.mem_append_left _)
  · refine (hw₁.mono fun p hp => ?_).trans (hw₂.mono fun p hp => ?_)
    · rcases List.mem_append.mp hp with h | h
      · exact List.mem_append_left _ (List.mem_append_left _ h)
      · exact List.mem_append_right _ h
    · rcases List.mem_append.mp hp with h | h
      · exact List.mem_append_left _ (List.mem_append_right _ h)
      · rcases hp₁ p h with h' | h'
        · exact List.mem_append_left _ (List.mem_append_left _ h')
        · exact List.mem_append_right _ h'

lemma Grows.refl (hs : Sep s root l) : Grows s s root l l :=
  { toTakes := Takes.refl hs, map := fun _ => rfl }

lemma Grows.trans (h₁ : Grows s s₁ root l l₁) (h₂ : Grows s₁ s₂ root l₁ l₂) : Grows s s₂ root l l₂ :=
  { toTakes := h₁.toTakes.trans h₂.toTakes, map := fun va => by rw [h₂.map, h₁.map] }

/-- A link of the head `P` of the free list into a page `T` of the table is a growth. -/
lemma Grows.of_link {P T : UInt64} (hs : Sep s root (P :: l)) (hT : T ∈ tablePages s.mem 2 root)
    (hs₁ : Sep s₁ root l) (hmap : ∀ va, leafAt s₁.mem 2 root va = leafAt s.mem 2 root va)
    (hpages : ∀ p ∈ tablePages s₁.mem 2 root, p ∈ [P] ∨ p ∈ tablePages s.mem 2 root)
    (hw : Within s s₁ [P, T]) : Grows s s₁ root (P :: l) l where
  taken := ⟨[P], rfl, hpages, hw.mono fun p hp => by
    rcases List.mem_pair.mp hp with rfl | rfl
    · exact List.mem_append_left _ (List.mem_singleton_self p)
    · exact List.mem_append_right _ hT⟩
  sep := hs₁
  map := hmap

/-- No page of the table at `root` is the page at address `0`: a slot address that `walk`
computes is then never `0`, the value it returns when it fails. -/
structure NoZeroPage (mem : Nat → Page) (root : UInt64) : Prop where
  ne_zero : ∀ p ∈ tablePages mem 2 root, p ≠ 0

/-- Pages taken from the free list keep the table off page `0`: the list ends at `0`. -/
lemma Takes.noZeroPage (h : Takes s s₁ root l l₁) (hl : Free s l) (hnz : NoZeroPage s.mem root) :
    NoZeroPage s₁.mem root := by
  obtain ⟨pre, rfl, hpages, -⟩ := h.taken
  refine ⟨fun p hp => ?_⟩
  rcases hpages p hp with hpre | hold
  · exact hl.chain.ne_nil (List.mem_append_left _ hpre)
  · exact hnz.ne_zero p hold

end Grows

section Walk

variable {s : VmState} {root va : UInt64} {l : List UInt64}

/-- The round of `walk` at the root, with allocation. -/
lemma walkLevel_root (hs : Sep s root l) :
    ∃ o s₁ l₁, (walkLevel va true root 2).run s = .ok (o, s₁) ∧ Grows s s₁ root l l₁ ∧
      (o = none ∧ l₁ = [] ∧ leafTable s₁.mem root va = none ∨ (Valid (pteAt s₁.mem root (PX 2 va).toNat) ∧
        o = some (PTE2PA (pteAt s₁.mem root (PX 2 va).toNat)))) := by
  by_cases hv : Valid (pteAt s.mem root (PX 2 va).toNat)
  · exact ⟨_, s, l, walkLevel_valid true hv, Grows.refl hs, .inr ⟨hv, rfl⟩⟩
  · cases l with
    | nil =>
      exact ⟨none, s, [], walkLevel_alloc_empty hv hs.free, Grows.refl hs,
        .inl ⟨rfl, rfl, by rw [leafTable, if_neg hv]⟩⟩
    | cons P l =>
      obtain ⟨hs₁, hmap, hpages, hw, hslot⟩ := hs.link_root hv rfl
      have hP : PageAligned P := hs.free.aligned P List.mem_cons_self
      refine ⟨some P, _, l, walkLevel_alloc_cons hv hs.free,
        Grows.of_link hs (self_mem_tablePages 2 root) hs₁ hmap hpages hw, .inr ?_⟩
      rw [hslot, PTE2PA_mk hP (by decide)]
      exact ⟨(valid_mkPte P).mpr (by decide), rfl⟩

/-- The round of `walk` at the level-1 page of `va`, with allocation. -/
lemma walkLevel_below (hs : Sep s root l) (hv : Valid (pteAt s.mem root (PX 2 va).toNat)) :
    ∃ o s₂ l₂, (walkLevel va true (PTE2PA (pteAt s.mem root (PX 2 va).toNat)) 1).run s = .ok (o, s₂) ∧
      Grows s s₂ root l l₂ ∧
        (o = none ∧ l₂ = [] ∧ leafTable s₂.mem root va = none ∨
          ∃ p0, leafTable s₂.mem root va = some p0 ∧ o = some p0) := by
  by_cases hv₁ : Valid (pteAt s.mem (PTE2PA (pteAt s.mem root (PX 2 va).toNat)) (PX 1 va).toNat)
  · refine ⟨_, s, l, walkLevel_valid true hv₁, Grows.refl hs, .inr ⟨_, ?_, rfl⟩⟩
    rw [leafTable, if_pos hv, if_pos hv₁]
  · cases l with
    | nil =>
      exact ⟨none, s, [], walkLevel_alloc_empty hv₁ hs.free, Grows.refl hs,
        .inl ⟨rfl, rfl, by rw [leafTable, if_pos hv, if_neg hv₁]⟩⟩
    | cons Q l =>
      obtain ⟨hs₂, hmap, hpages, hw, hroot, hslot⟩ := hs.link_below hv hv₁ rfl
      have hQ : PageAligned Q := hs.free.aligned Q List.mem_cons_self
      refine ⟨some Q, _, l, walkLevel_alloc_cons hv₁ hs.free,
        Grows.of_link hs (tablePages_subset (PX_toNat_lt 2 va) hv (self_mem_tablePages 1 _)) hs₂
          hmap hpages hw, .inr ⟨Q, ?_, rfl⟩⟩
      rw [leafTable, hroot, if_pos hv, hslot, if_pos ((valid_mkPte Q).mpr (by decide)),
        PTE2PA_mk hQ (by decide)]

/-- `walk` without allocation, below `MAXVA`: the address of the level-0 slot of `va`, or `0`
when the path is not there; nothing changes. -/
lemma walk_noalloc (s : VmState) (hva : va < MAXVA) :
    (walk root va false).run s = .ok ((leafTable s.mem root va).elim 0 (pteAddr · 0 va), s) := by
  unfold walk
  dsimp only
  rw [if_neg (UInt64.not_le.mpr hva), run_bind]
  by_cases hv : Valid (pteAt s.mem root (PX 2 va).toNat)
  · rw [walkLevel_valid false hv]
    dsimp only
    rw [run_bind]
    by_cases hv₁ : Valid (pteAt s.mem (PTE2PA (pteAt s.mem root (PX 2 va).toNat)) (PX 1 va).toNat)
    · rw [walkLevel_valid false hv₁, leafTable, if_pos hv, if_pos hv₁]
      rfl
    · rw [walkLevel_noalloc hv₁, leafTable, if_pos hv, if_neg hv₁]
      rfl
  · rw [walkLevel_noalloc hv, leafTable, if_neg hv]
    rfl

/-- `walk` with allocation, below `MAXVA`, on a table beside its free list: it never panics,
takes pages from the head of the free list into the table and keeps the map; it returns the
address of the level-0 slot of `va`, or `0` when a page-table page was needed, and so `va` has
no level-0 page, and the free list is used up. -/
lemma walk_alloc (hs : Sep s root l) (hva : va < MAXVA) :
    ∃ r s' l', (walk root va true).run s = .ok (r, s') ∧ Grows s s' root l l' ∧
      (r = 0 ∧ l' = [] ∧ leafTable s'.mem root va = none ∨
        ∃ p0, leafTable s'.mem root va = some p0 ∧ r = pteAddr p0 0 va) := by
  unfold walk
  dsimp only
  rw [if_neg (UInt64.not_le.mpr hva)]
  obtain ⟨o, s₁, l₁, h₁, hg₁, ⟨rfl, rfl, hnone⟩ | ⟨hv, rfl⟩⟩ := @walkLevel_root _ _ va _ hs
  · exact ⟨0, s₁, [], by rw [run_bind, h₁]; rfl, hg₁, .inl ⟨rfl, rfl, hnone⟩⟩
  · obtain ⟨o, s₂, l₂, h₂, hg₂, ⟨rfl, rfl, hnone⟩ | ⟨p0, hp0, rfl⟩⟩ := walkLevel_below hg₁.sep hv
    · exact ⟨0, s₂, [], by rw [run_bind, h₁]; dsimp only; rw [run_bind, h₂]; rfl, hg₁.trans hg₂,
        .inl ⟨rfl, rfl, hnone⟩⟩
    · exact ⟨_, s₂, l₂, by rw [run_bind, h₁]; dsimp only; rw [run_bind, h₂]; rfl, hg₁.trans hg₂,
        .inr ⟨p0, hp0, rfl⟩⟩

/-- The level-0 page of `va` is a page of the table. -/
lemma leafTable_mem {mem : Nat → Page} {p0 : UInt64} (h : leafTable mem root va = some p0) :
    p0 ∈ tablePages mem 2 root := by
  unfold leafTable at h
  split_ifs at h with hv hv₁
  cases h
  exact tablePages_subset (PX_toNat_lt 2 va) hv
    (tablePages_subset (PX_toNat_lt 1 va) hv₁ (self_mem_tablePages 0 _))

/-- A slot of an aligned page other than page `0` is not at address `0`. -/
lemma pteAddr_ne_zero {p0 : UInt64} (hal : PageAligned p0) (hp0 : p0 ≠ 0) : pteAddr p0 0 va ≠ 0 := by
  have hpn : p0.toNat ≠ 0 := fun e => hp0 (UInt64.toNat_inj.mp (by rw [e]; rfl))
  have hlt := p0.toNat_lt
  have hi := PX_toNat_lt 0 va
  unfold PageAligned Xv6.PGSIZE at hal
  intro h
  have h' := congrArg UInt64.toNat h
  have hx : (UInt64.ofNat (PX 0 va).toNat).toNat = (PX 0 va).toNat :=
    UInt64.toNat_ofNat_of_lt' (by rw [UInt64.size]; omega)
  rw [pteAddr_eq, UInt64.toNat_add, UInt64.toNat_mul, hx] at h'
  simp only [UInt64.toNat_zero] at h'
  have h8 : (8 : UInt64).toNat = 8 := rfl
  rw [h8] at h'
  omega

/-- `walk` with allocation on a table with no page at `0`: it returns `0` only when a page-table
page was needed and the free list is used up. -/
lemma walk_alloc_of_noZeroPage (hs : Sep s root l) (hnz : NoZeroPage s.mem root) (hva : va < MAXVA) :
    ∃ r s' l', (walk root va true).run s = .ok (r, s') ∧ Grows s s' root l l' ∧
      (r = 0 ∧ l' = [] ∧ leafTable s'.mem root va = none ∨
        ∃ p0, leafTable s'.mem root va = some p0 ∧ r = pteAddr p0 0 va ∧ r ≠ 0) := by
  obtain ⟨r, s', l', hw, hg, hr | ⟨p0, hp0, rfl⟩⟩ := walk_alloc hs hva
  · exact ⟨r, s', l', hw, hg, .inl hr⟩
  have hmem := leafTable_mem hp0
  exact ⟨_, s', l', hw, hg, .inr ⟨p0, hp0, rfl, pteAddr_ne_zero
    (aligned_of_mem_tablePages hg.sep.wf.aligned hmem) (hg.toTakes.noZeroPage hs.free hnz |>.ne_zero p0 hmem)⟩⟩

end Walk

/-! ## Writing a leaf -/

/-- `va` and `va'` take the same path through the three levels of a page table. -/
def SamePath (va va' : UInt64) : Prop :=
  (PX 2 va).toNat = (PX 2 va').toNat ∧ (PX 1 va).toNat = (PX 1 va').toNat ∧
    (PX 0 va).toNat = (PX 0 va').toNat

instance (va va' : UInt64) : Decidable (SamePath va va') := inferInstanceAs (Decidable (_ ∧ _ ∧ _))

/-- Below `MAXVA`, two addresses take the same path exactly when they lie in the same page. -/
lemma samePath_iff {va va' : UInt64} (hva : va < MAXVA) (hva' : va' < MAXVA) :
    SamePath va va' ↔ va.toNat / 4096 = va'.toNat / 4096 := by
  have h := UInt64.lt_iff_toNat_lt.mp hva
  have h' := UInt64.lt_iff_toNat_lt.mp hva'
  rw [MAXVA_toNat] at h h'
  unfold Xv6.MAXVA at h h'
  unfold SamePath
  simp only [PX_toNat 2 (by decide), PX_toNat 1 (by decide), PX_toNat 0 (by decide)]
  norm_num at h h' ⊢
  omega

section Leaf

variable {s : VmState} {root va : UInt64} {l : List UInt64}

/-- Writing `w` into the level-0 slot of `va`, in the level-0 page `p0` of its path: the table
stays well formed beside the same free list when `w` is a leaf or not valid, and the map changes
at the path of `va` only. -/
lemma Sep.setLeaf {p0 w : UInt64} (hs : Sep s root l) (hp0 : leafTable s.mem root va = some p0)
    (hw : Valid w → Leaf w) :
    Takes s (s.setWord (pteAddr p0 0 va) w) root l l ∧
      ∀ va', leafAt (s.setWord (pteAddr p0 0 va) w).mem 2 root va' =
        if SamePath va' va then (if Valid w then some w else none) else leafAt s.mem 2 root va' := by
  have hi2 := PX_toNat_lt 2 va
  have hi1 := PX_toNat_lt 1 va
  have hi0 := PX_toNat_lt 0 va
  have hroot := hs.wf.aligned
  unfold leafTable at hp0
  split at hp0
  case isFalse => cases hp0
  rename_i hv2
  split at hp0
  case isFalse => cases hp0
  rename_i hv1
  cases hp0
  have hp1 := PTE2PA_aligned (pteAt s.mem root (PX 2 va).toNat)
  have hp0 := PTE2PA_aligned (pteAt s.mem (PTE2PA (pteAt s.mem root (PX 2 va).toNat)) (PX 1 va).toNat)
  obtain ⟨-, ht1, -, -⟩ := hs.wf.tree _ hi2 hv2
  obtain ⟨-, ht0, -, -⟩ := ht1 _ hi1 hv1
  have hmem0 : _ ∈ tablePages s.mem 1 (PTE2PA (pteAt s.mem root (PX 2 va).toNat)) :=
    tablePages_subset hi1 hv1 (self_mem_tablePages 0 _)
  rw [pteAddr_eq]
  -- the only frame that changes is that of the level-0 page
  have hframe : ∀ q, PageAligned q → (s.setWord (PTE2PA (pteAt s.mem (PTE2PA (pteAt s.mem root
      (PX 2 va).toNat)) (PX 1 va).toNat) + 8 * UInt64.ofNat (PX 0 va).toNat) w).mem (frame q) ≠
      s.mem (frame q) → q = PTE2PA (pteAt s.mem (PTE2PA (pteAt s.mem root (PX 2 va).toNat)) (PX 1 va).toNat) :=
    fun q hq hne => by
      by_contra hq0
      exact hne (setWord_mem_of_ne _ _ (by
        rw [frame_slot hp0 hi0]
        exact fun e => hq0 (hq.frame_inj hp0 e)))
  obtain ⟨htree0, hleaf0⟩ := Tree.setLeaf s hp0 ht0 hi0 hw
  obtain ⟨htree1, hpages1, hleaf1⟩ := Tree.descend hp1 ht1 hi1 hv1
    (fun q hq hne => .inl (by rw [hframe q hq hne]; exact self_mem_tablePages 0 _))
    (show _ ∧ ∀ p ∈ _, p ∈ ([] : List UInt64) ∨ _ from
      ⟨htree0, fun p hp => .inr hp⟩)
    (fun p hp => absurd hp (List.not_mem_nil))
  obtain ⟨htree2, hpages2, hleaf2⟩ := Tree.descend hroot hs.wf.tree hi2 hv2
    (fun q hq hne => .inl (by rw [hframe q hq hne]; exact hmem0))
    (show _ ∧ ∀ p ∈ _, p ∈ ([] : List UInt64) ∨ _ from
      ⟨htree1, fun p hp => (hpages1 p hp).elim (fun h => absurd h List.not_mem_nil) .inr⟩)
    (fun p hp => absurd hp (List.not_mem_nil))
  have hp0l : ∀ p ∈ l, p ≠ PTE2PA (pteAt s.mem (PTE2PA (pteAt s.mem root (PX 2 va).toNat)) (PX 1 va).toNat) :=
    fun p hp e => hs.apart p hp (e ▸ tablePages_subset hi2 hv2 hmem0)
  refine ⟨⟨⟨[], rfl, fun p hp => (hpages2 p hp).elim (fun h => absurd h List.not_mem_nil) .inr,
    ⟨fun f hf => setWord_mem_of_ne _ _ (by
      rw [frame_slot hp0 hi0]
      exact hf _ (List.mem_append_right _ (tablePages_subset hi2 hv2 hmem0))), rfl, rfl⟩⟩,
    ⟨⟨hroot, htree2⟩, hs.free.of_mem_eq rfl rfl fun p hp => setWord_mem_of_ne _ _ (by
      rw [frame_slot hp0 hi0]
      exact fun e => hp0l p hp ((hs.free.aligned p hp).frame_inj hp0 e)),
      fun p hp hpt => hs.apart p hp ((hpages2 p hpt).elim (fun h => absurd h List.not_mem_nil) id)⟩⟩,
    fun va' => ?_⟩
  -- the three levels of the path of `va'`
  rw [hleaf2 va']
  by_cases e2 : (PX 2 va').toNat = (PX 2 va).toNat
  · rw [if_pos e2, hleaf1 va']
    by_cases e1 : (PX 1 va').toNat = (PX 1 va).toNat
    · rw [if_pos e1, hleaf0 va']
      by_cases e0 : (PX 0 va').toNat = (PX 0 va).toNat
      · rw [if_pos e0, if_pos (show SamePath va' va from ⟨e2, e1, e0⟩)]
      · rw [if_neg e0, if_neg (show ¬ SamePath va' va from fun h => e0 h.2.2), leafAt_two, e2,
          if_pos hv2, leafAt_one, e1, if_pos hv1]
    · rw [if_neg e1, if_neg (show ¬ SamePath va' va from fun h => e1 h.2.1), leafAt_two, e2,
        if_pos hv2]
  · rw [if_neg e2, if_neg (show ¬ SamePath va' va from fun h => e2 h.1)]

/-- Writing the PTE that maps `pa` with the leaf flags `flags` into the level-0 slot of `va`: the
map sends the page of `va` to `(pa, flags)` and keeps every other page. -/
lemma Sep.mapLeaf {p0 pa flags : UInt64} (hs : Sep s root l) (hp0 : leafTable s.mem root va = some p0)
    (hpa : PageAligned pa) (hf : flags.toNat < 1024) (hv : Valid flags) (hleaf : Leaf flags) :
    Takes s (s.setWord (pteAddr p0 0 va) (mkPte pa flags)) root l l ∧
      ∀ va', lookup (s.setWord (pteAddr p0 0 va) (mkPte pa flags)).mem root va' =
        if SamePath va' va then some (pa, flags) else lookup s.mem root va' := by
  obtain ⟨htakes, hleafAt⟩ := hs.setLeaf hp0 fun _ => (leaf_mkPte pa).mpr hleaf
  refine ⟨htakes, fun va' => ?_⟩
  unfold lookup
  rw [hleafAt va', if_pos ((valid_mkPte pa).mpr hv)]
  split
  · rw [Option.map_some, PTE2PA_mk hpa hf, PTE_FLAGS_mk pa hf]
  · rfl

/-- Two addresses on the same path have the same leaf. -/
lemma leafAt_samePath (mem : Nat → Page) (root : UInt64) {va va' : UInt64} (h : SamePath va va') :
    leafAt mem 2 root va = leafAt mem 2 root va' := by
  rw [leafAt_eq_bind, leafAt_eq_bind, leafTable, leafTable, h.1, h.2.1, h.2.2]

end Leaf

/-! ## `mappages` -/

/-- `va` lies in a page from the page of `a` to the page of `last`. -/
def InPages (a last va : UInt64) : Prop :=
  a.toNat / 4096 ≤ va.toNat / 4096 ∧ va.toNat / 4096 ≤ last.toNat / 4096

instance (a last va : UInt64) : Decidable (InPages a last va) := inferInstanceAs (Decidable (_ ∧ _))

/-- What `mappages` does to the partial map `f`: the pages from `a` to `last` are mapped, the
`k`-th to `pa + k * PGSIZE`, with `flags`; every other page keeps its mapping. -/
def mapRange (f : UInt64 → Option (UInt64 × UInt64)) (a last pa flags va : UInt64) :
    Option (UInt64 × UInt64) :=
  if InPages a last va then some (pa + UInt64.ofNat ((va.toNat / 4096 - a.toNat / 4096) * 4096), flags)
  else f va

section Pages

variable {a last va : UInt64}

lemma toNat_lt_of_lt_MAXVA (h : va < MAXVA) : va.toNat < 2 ^ 38 := by
  have h' := UInt64.lt_iff_toNat_lt.mp h
  rw [MAXVA_toNat] at h'
  exact h'

/-- A step of a page below `MAXVA` does not wrap. -/
lemma add_PGSIZE_toNat (ha : a < MAXVA) : (a + PGSIZE).toNat = a.toNat + 4096 := by
  have := toNat_lt_of_lt_MAXVA ha
  rw [UInt64.toNat_add, PGSIZE_toNat]
  unfold Xv6.PGSIZE
  omega

lemma PageAligned.add_PGSIZE (ha : PageAligned a) : PageAligned (a + PGSIZE) := by
  have := a.toNat_lt
  unfold PageAligned Xv6.PGSIZE at *
  rw [UInt64.toNat_add, PGSIZE_toNat]
  unfold Xv6.PGSIZE
  omega

lemma inPages_of_samePath (ha : a < MAXVA) (hva : va < MAXVA) (hal : a.toNat ≤ last.toNat)
    (h : SamePath va a) : InPages a last va := by
  have := (samePath_iff hva ha).mp h
  unfold InPages
  omega

/-- The first page of a range is in it. -/
lemma inPages_first (hal : a.toNat ≤ last.toNat) : InPages a last a :=
  ⟨le_refl _, Nat.div_le_div_right hal⟩

/-- Below `MAXVA`, the pages from `a` to `a` are the page of `a`. -/
lemma inPages_self_iff (ha : a < MAXVA) (hva : va < MAXVA) : InPages a a va ↔ SamePath va a := by
  rw [samePath_iff hva ha]
  unfold InPages
  omega

/-- The pages from `a + PGSIZE` on are those from `a` on but the page of `a`. -/
lemma inPages_succ_iff (hal : PageAligned a) (ha : a < MAXVA) (hva : va < MAXVA) :
    InPages (a + PGSIZE) last va ↔ InPages a last va ∧ ¬ SamePath va a := by
  rw [samePath_iff hva ha]
  unfold InPages
  rw [add_PGSIZE_toNat ha]
  unfold PageAligned Xv6.PGSIZE at hal
  omega

/-- The range from `a + PGSIZE`, mapped from `pa + PGSIZE`, maps each of its pages where the range
from `a`, mapped from `pa`, does. -/
lemma mapped_succ {pa : UInt64} (ha : a < MAXVA) (h : InPages (a + PGSIZE) last va) :
    pa + PGSIZE + UInt64.ofNat ((va.toNat / 4096 - (a + PGSIZE).toNat / 4096) * 4096) =
      pa + UInt64.ofNat ((va.toNat / 4096 - a.toNat / 4096) * 4096) := by
  unfold InPages at h
  rw [add_PGSIZE_toNat ha] at h ⊢
  rw [show (va.toNat / 4096 - a.toNat / 4096) * 4096 =
      (va.toNat / 4096 - (a.toNat + 4096) / 4096) * 4096 + 4096 by omega,
    UInt64.ofNat_add, add_assoc, add_comm PGSIZE]
  rfl

lemma lt_MAXVA_of_le (hal : a.toNat ≤ last.toNat) (hlast : last < MAXVA) : a < MAXVA :=
  UInt64.lt_iff_toNat_lt.mpr (lt_of_le_of_lt hal (UInt64.lt_iff_toNat_lt.mp hlast))

/-- A range of pages that goes on after `a` goes on at `a + PGSIZE`, with a page less to go. -/
lemma next_page {fuel : Nat} (ha : PageAligned a) (hlastA : PageAligned last) (haM : a < MAXVA)
    (hal : a.toNat ≤ last.toNat) (he : a ≠ last) (hfuel : (last.toNat - a.toNat) / 4096 < fuel + 1) :
    (a + PGSIZE).toNat ≤ last.toNat ∧ (last.toNat - (a + PGSIZE).toNat) / 4096 < fuel := by
  have hne : a.toNat ≠ last.toNat := fun h => he (UInt64.toNat_inj.mp h)
  rw [add_PGSIZE_toNat haM]
  unfold PageAligned Xv6.PGSIZE at ha hlastA
  omega

/-- The page of `a` itself is mapped to `pa`. -/
lemma mapped_self {pa : UInt64} (ha : a < MAXVA) (hva : va < MAXVA) (h : SamePath va a) :
    pa + UInt64.ofNat ((va.toNat / 4096 - a.toNat / 4096) * 4096) = pa := by
  rw [(samePath_iff hva ha).mp h, Nat.sub_self, zero_mul]
  exact add_zero pa

end Pages

/-! ### The PTE `mappages` writes -/

lemma and_or_distrib (x y z : UInt64) : (x ||| y) &&& z = (x &&& z) ||| (y &&& z) :=
  UInt64.toBitVec_inj.1 BitVec.and_or_distrib_right

lemma valid_or_V (x : UInt64) : Valid (x ||| PTE_V) := by
  unfold Valid
  rw [and_or_distrib, show PTE_V &&& PTE_V = 1 from rfl]
  intro h
  exact absurd (UInt64.or_eq_zero_iff.mp h).2 (by decide)

lemma leaf_or_V (x : UInt64) : Leaf (x ||| PTE_V) ↔ Leaf x := by
  unfold Leaf
  rw [and_or_distrib, show PTE_V &&& (PTE_R ||| PTE_W ||| PTE_X) = 0 from rfl, UInt64.or_zero]

lemma flags_or_V_lt {x : UInt64} (hx : x.toNat < 1024) : (x ||| PTE_V).toNat < 1024 := by
  rw [UInt64.toNat_or]
  exact Nat.or_lt_two_pow (show x.toNat < 2 ^ 10 from hx) (show PTE_V.toNat < 2 ^ 10 by decide)

/-- `PA2PTE(pa) | perm | PTE_V` is the PTE that maps `pa` with `perm | PTE_V`. -/
lemma mappages_pte (pa : UInt64) (perm : Int32) :
    PA2PTE pa ||| permBits perm ||| PTE_V = mkPte pa (permBits perm ||| PTE_V) :=
  UInt64.or_assoc _ _ _

/-! ### The loop -/

section Loop

variable {s s₁ : VmState} {root last a pa p0 : UInt64} {perm : Int32} {fuel : Nat}

/-- A round where `walk` fails returns `-1`. -/
lemma mappagesLoop_walk_fail (hw : (walk root a true).run s = .ok (0, s₁)) :
    (mappagesLoop root last perm (fuel + 1) a pa).run s = .ok (-1, s₁) := by
  rw [mappagesLoop, run_bind, hw]
  rfl

/-- A round at a page that is mapped already panics. -/
lemma mappagesLoop_remap (hw : (walk root a true).run s = .ok (pteAddr p0 0 a, s₁))
    (hz : pteAddr p0 0 a ≠ 0) (hv : Valid (pteAt s₁.mem p0 (PX 0 a).toNat)) :
    (mappagesLoop root last perm (fuel + 1) a pa).run s = .error "mappages: remap" := by
  rw [mappagesLoop, run_bind, hw]
  dsimp only
  rw [if_neg (mt beq_iff_eq.mp hz), run_get_bind, read64_pteAddr, if_pos ((valid_iff_bne _).mpr hv)]
  rfl

/-- A round at a page that is not mapped writes its leaf and goes on with the next page. -/
lemma mappagesLoop_map (hw : (walk root a true).run s = .ok (pteAddr p0 0 a, s₁))
    (hz : pteAddr p0 0 a ≠ 0) (hv : ¬ Valid (pteAt s₁.mem p0 (PX 0 a).toNat)) :
    (mappagesLoop root last perm (fuel + 1) a pa).run s =
      (if a == last then pure 0 else mappagesLoop root last perm fuel (a + PGSIZE) (pa + PGSIZE)).run
        (s₁.setWord (pteAddr p0 0 a) (PA2PTE pa ||| permBits perm ||| PTE_V)) := by
  rw [mappagesLoop, run_bind, hw]
  dsimp only
  rw [if_neg (mt beq_iff_eq.mp hz), run_get_bind, read64_pteAddr,
    if_neg (mt (valid_iff_bne _).mp hv), run_bind, run_write64]

/-- The loop of `mappages` from page `a`, mapped from `pa`, up to the page `last`, over pages that
are not mapped: with enough fuel it never panics, and it either returns `0` with the range mapped
by `mapRange`, or returns `-1`, when `walk` needed a page-table page for a page of the range and
found the free list used up, with the pages outside the range as they were. Either way the table
stays a tree beside its free list. -/
lemma mappagesLoop_spec (hperm : (permBits perm).toNat < 1024) (hleaf : Leaf (permBits perm))
    (hlast : last < MAXVA) :
    ∀ (fuel : Nat) {a pa : UInt64} {s : VmState} {l : List UInt64}, PageAligned a → PageAligned pa →
      PageAligned last → a.toNat ≤ last.toNat → (last.toNat - a.toNat) / 4096 < fuel →
      Sep s root l → NoZeroPage s.mem root →
      (∀ va, va < MAXVA → InPages a last va → lookup s.mem root va = none) →
      ∃ r s' l', (mappagesLoop root last perm fuel a pa).run s = .ok (r, s') ∧ Takes s s' root l l' ∧
        ((r = 0 ∧ ∀ va, va < MAXVA →
            lookup s'.mem root va = mapRange (lookup s.mem root) a last pa (permBits perm ||| PTE_V) va) ∨
          (r = -1 ∧ l' = [] ∧ (∃ va, va < MAXVA ∧ InPages a last va ∧ leafTable s'.mem root va = none) ∧
            ∀ va, va < MAXVA → ¬ InPages a last va → lookup s'.mem root va = lookup s.mem root va))
  | 0, _, _, _, _, _, _, _, _, hfuel, _, _, _ => absurd hfuel (Nat.not_lt_zero _)
  | fuel + 1, a, pa, s, l, ha, hpa, hlastA, hal, hfuel, hs, hnz, hfree => by
    have haM := lt_MAXVA_of_le hal hlast
    obtain ⟨r₁, s₁, l₁, hw, hg, hr⟩ := walk_alloc_of_noZeroPage hs hnz haM
    have hmap₁ : ∀ va, lookup s₁.mem root va = lookup s.mem root va := fun va => by
      unfold lookup
      rw [hg.map]
    rcases hr with ⟨rfl, rfl, hnone⟩ | ⟨p0, hp0, rfl, hz⟩
    · -- `walk` could not allocate a page-table page for `a`: the free list is used up
      exact ⟨-1, s₁, [], mappagesLoop_walk_fail hw, hg.toTakes,
        .inr ⟨rfl, rfl, ⟨a, haM, inPages_first hal, hnone⟩, fun va _ _ => hmap₁ va⟩⟩
    -- the slot of `a` is not valid, since `a` is not mapped
    have hinv : ¬ Valid (pteAt s₁.mem p0 (PX 0 a).toNat) := fun hv => by
      have h := hfree a haM (inPages_first hal)
      rw [← hmap₁, lookup, leafAt_eq_bind, hp0, Option.bind_some, if_pos hv] at h
      cases h
    obtain ⟨htk₂, hmap₂⟩ := hg.sep.mapLeaf hp0 hpa (flags_or_V_lt hperm) (valid_or_V _)
      ((leaf_or_V _).mpr hleaf)
    rw [mappagesLoop_map hw hz hinv, mappages_pte]
    by_cases he : a = last
    · -- the last page of the range
      subst he
      refine ⟨0, _, l₁, by rw [if_pos (beq_self_eq_true a)]; rfl, hg.toTakes.trans htk₂,
        .inl ⟨rfl, fun va hva => ?_⟩⟩
      rw [hmap₂ va, mapRange]
      by_cases hsame : SamePath va a
      · rw [if_pos hsame, if_pos ((inPages_self_iff haM hva).mpr hsame), mapped_self haM hva hsame]
      · rw [if_neg hsame, if_neg (mt (inPages_self_iff haM hva).mp hsame), hmap₁]
    -- the range goes on after `a`
    obtain ⟨hal', hfuel'⟩ := next_page ha hlastA haM hal he hfuel
    have hfree₂ : ∀ va, va < MAXVA → InPages (a + PGSIZE) last va →
        lookup (s₁.setWord (pteAddr p0 0 a) (mkPte pa (permBits perm ||| PTE_V))).mem root va = none :=
      fun va hva hin => by
        obtain ⟨hin', hne⟩ := (inPages_succ_iff ha haM hva).mp hin
        rw [hmap₂, if_neg hne, hmap₁]
        exact hfree va hva hin'
    obtain ⟨r, s', l', hrun, htk, hres⟩ := mappagesLoop_spec hperm hleaf hlast fuel ha.add_PGSIZE
      hpa.add_PGSIZE hlastA hal' hfuel' htk₂.sep ((hg.toTakes.trans htk₂).noZeroPage hs.free hnz) hfree₂
    refine ⟨r, s', l', by rw [if_neg (mt beq_iff_eq.mp he)]; exact hrun,
      (hg.toTakes.trans htk₂).trans htk, ?_⟩
    rcases hres with ⟨rfl, hl⟩ | ⟨rfl, hnil, ⟨va', hva', hin', hnone⟩, hl⟩
    · refine .inl ⟨rfl, fun va hva => ?_⟩
      rw [hl va hva, mapRange, mapRange]
      by_cases hin : InPages (a + PGSIZE) last va
      · rw [if_pos hin, if_pos ((inPages_succ_iff ha haM hva).mp hin).1, mapped_succ haM hin]
      rw [if_neg hin, hmap₂]
      by_cases hsame : SamePath va a
      · rw [if_pos hsame, if_pos (inPages_of_samePath haM hva hal hsame), mapped_self haM hva hsame]
      · rw [if_neg hsame, if_neg fun h => hin ((inPages_succ_iff ha haM hva).mpr ⟨h, hsame⟩), hmap₁]
    · refine .inr ⟨rfl, hnil, ⟨va', hva', ((inPages_succ_iff ha haM hva').mp hin').1, hnone⟩,
        fun va hva hout => ?_⟩
      rw [hl va hva fun h => hout ((inPages_succ_iff ha haM hva).mp h).1, hmap₂,
        if_neg fun h => hout (inPages_of_samePath haM hva hal h), hmap₁]

/-- The loop of `mappages` over a range in which some page is mapped already: with enough fuel it
panics with `"mappages: remap"`, unless `walk` fails first, for a page of the range with no
level-0 page and the free list used up, and it returns `-1`. -/
lemma mappagesLoop_remap_spec (hleaf : Leaf (permBits perm)) (hlast : last < MAXVA) :
    ∀ (fuel : Nat) {a pa : UInt64} {s : VmState} {l : List UInt64}, PageAligned a →
      PageAligned last → a.toNat ≤ last.toNat → (last.toNat - a.toNat) / 4096 < fuel → Sep s root l →
      NoZeroPage s.mem root → (∃ va, va < MAXVA ∧ InPages a last va ∧ lookup s.mem root va ≠ none) →
      (mappagesLoop root last perm fuel a pa).run s = .error "mappages: remap" ∨
        ∃ s' l', (mappagesLoop root last perm fuel a pa).run s = .ok (-1, s') ∧ Takes s s' root l l' ∧
          l' = [] ∧ ∃ va, va < MAXVA ∧ InPages a last va ∧ leafTable s'.mem root va = none
  | 0, _, _, _, _, _, _, _, hfuel, _, _, _ => absurd hfuel (Nat.not_lt_zero _)
  | fuel + 1, a, pa, s, l, ha, hlastA, hal, hfuel, hs, hnz, ⟨va, hva, hin, hm⟩ => by
    have haM := lt_MAXVA_of_le hal hlast
    obtain ⟨r₁, s₁, l₁, hw, hg, ⟨rfl, rfl, hnone⟩ | ⟨p0, hp0, rfl, hz⟩⟩ :=
      walk_alloc_of_noZeroPage hs hnz haM
    · exact .inr ⟨s₁, [], mappagesLoop_walk_fail hw, hg.toTakes, rfl, a, haM, inPages_first hal, hnone⟩
    by_cases hv : Valid (pteAt s₁.mem p0 (PX 0 a).toNat)
    · exact .inl (mappagesLoop_remap hw hz hv)
    -- the mapped page is not the page of `a`, whose slot is not valid
    have hsame : ¬ SamePath va a := fun h => hm (by
      rw [lookup, ← hg.map, leafAt_samePath _ _ h, leafAt_eq_bind, hp0, Option.bind_some, if_neg hv]
      rfl)
    have he : a ≠ last := fun e => by
      subst e
      exact hsame ((inPages_self_iff haM hva).mp hin)
    obtain ⟨hal', hfuel'⟩ := next_page ha hlastA haM hal he hfuel
    obtain ⟨htk₂, hleaf₂⟩ := hg.sep.setLeaf hp0
      fun _ => (leaf_mkPte pa).mpr ((leaf_or_V (permBits perm)).mpr hleaf)
    rw [mappagesLoop_map hw hz hv, mappages_pte, if_neg (mt beq_iff_eq.mp he)]
    rcases mappagesLoop_remap_spec hleaf hlast fuel ha.add_PGSIZE hlastA hal' hfuel' htk₂.sep
      ((hg.toTakes.trans htk₂).noZeroPage hs.free hnz)
      ⟨va, hva, (inPages_succ_iff ha haM hva).mpr ⟨hin, hsame⟩, by
        rw [lookup, hleaf₂, if_neg hsame, hg.map]
        exact hm⟩ with h | ⟨s', l', hrun, htk, hnil, va', hva', hin', hnone⟩
    · exact .inl h
    · exact .inr ⟨s', l', hrun, (hg.toTakes.trans htk₂).trans htk, hnil, va', hva',
        ((inPages_succ_iff ha haM hva').mp hin').1, hnone⟩

end Loop

/-! ### `mappages` -/

section Mappages

variable {s : VmState} {root va size pa : UInt64} {perm : Int32} {l : List UInt64}

/-- `mappages` with a size that is not `0` runs its loop from `PGROUNDDOWN va` to
`PGROUNDDOWN (va + size - 1)`. -/
lemma mappages_run (hsize : size ≠ 0) (s : VmState) :
    (mappages root va size pa perm).run s =
      (mappagesLoop root (PGROUNDDOWN (va + size - 1)) perm
        (pagesBetween (PGROUNDDOWN va) (PGROUNDDOWN (va + size - 1))) (PGROUNDDOWN va) pa).run s := by
  unfold mappages
  rw [if_neg (mt beq_iff_eq.mp hsize)]

/-- The range of pages `mappages` computes, when `va + size - 1` lies below `MAXVA` without
wrapping: two pages in order below `MAXVA`, with fuel for every page between them. -/
lemma mappages_range (hsize : 0 < size.toNat) (hend : va.toNat + size.toNat - 1 < MAXVA.toNat) :
    PageAligned (PGROUNDDOWN va) ∧ PageAligned (PGROUNDDOWN (va + size - 1)) ∧
      PGROUNDDOWN (va + size - 1) < MAXVA ∧
      (PGROUNDDOWN va).toNat ≤ (PGROUNDDOWN (va + size - 1)).toNat ∧
      ((PGROUNDDOWN (va + size - 1)).toNat - (PGROUNDDOWN va).toNat) / 4096 <
        pagesBetween (PGROUNDDOWN va) (PGROUNDDOWN (va + size - 1)) := by
  rw [MAXVA_toNat] at hend
  unfold Xv6.MAXVA at hend
  have hsum : (va + size).toNat = va.toNat + size.toNat := by
    rw [UInt64.toNat_add]
    exact Nat.mod_eq_of_lt (by omega)
  have hlastN : (va + size - 1).toNat = va.toNat + size.toNat - 1 := by
    rw [UInt64.toNat_sub_of_le _ _ (UInt64.le_iff_toNat_le.mpr (by rw [hsum]; exact Nat.le_add_left_of_le hsize)),
      hsum]
    rfl
  have hle : (PGROUNDDOWN va).toNat ≤ (PGROUNDDOWN (va + size - 1)).toNat := by
    rw [PGROUNDDOWN_toNat, PGROUNDDOWN_toNat, hlastN]
    exact Nat.mul_le_mul_right _ (Nat.div_le_div_right (by omega))
  unfold PageAligned pagesBetween Xv6.PGSIZE
  refine ⟨by rw [PGROUNDDOWN_toNat]; omega, by rw [PGROUNDDOWN_toNat]; omega,
    UInt64.lt_iff_toNat_lt.mpr ?_, hle, ?_⟩
  · rw [PGROUNDDOWN_toNat, hlastN, MAXVA_toNat]
    unfold Xv6.MAXVA
    omega
  · rw [UInt64.toNat_sub_of_le _ _ (UInt64.le_iff_toNat_le.mpr hle)]
    omega

/-- `mappages` refines `mapRange` on the partial map of a page table. Take a well-formed table
with no page at address `0` whose free list lies outside it, a range `[va, va + size - 1]` below
`MAXVA`, a page `pa` and a `perm` of flag bits only with one of `PTE_R`, `PTE_W`, `PTE_X`. When no
page of the range is mapped, `mappages` does not panic; it returns `0` with the map updated by
`mapRange` for `perm | PTE_V`, or `-1` when `walk` could not allocate: some page of the range has
no level-0 page and the free list is used up, and the pages outside the range are as they were.
Either way the table is a tree beside the rest of its free list, having taken pages only from it.
When some page of the range is mapped, it panics with `"mappages: remap"`, unless `walk` fails
first in the same way and it returns `-1`. -/
theorem mappages_spec (hs : Sep s root l) (hnz : NoZeroPage s.mem root) (hsize : 0 < size.toNat)
    (hend : va.toNat + size.toNat - 1 < MAXVA.toNat) (hpa : PageAligned pa)
    (hperm : (permBits perm).toNat < 1024) (hleaf : Leaf (permBits perm)) :
    ((∀ va', va' < MAXVA → InPages (PGROUNDDOWN va) (PGROUNDDOWN (va + size - 1)) va' →
        lookup s.mem root va' = none) →
      ∃ r s' l', (mappages root va size pa perm).run s = .ok (r, s') ∧ Takes s s' root l l' ∧
        ((r = 0 ∧ ∀ va', va' < MAXVA → lookup s'.mem root va' =
            mapRange (lookup s.mem root) (PGROUNDDOWN va) (PGROUNDDOWN (va + size - 1)) pa
              (permBits perm ||| PTE_V) va') ∨
          (r = -1 ∧ l' = [] ∧
            (∃ va', va' < MAXVA ∧ InPages (PGROUNDDOWN va) (PGROUNDDOWN (va + size - 1)) va' ∧
              leafTable s'.mem root va' = none) ∧
            ∀ va', va' < MAXVA → ¬ InPages (PGROUNDDOWN va) (PGROUNDDOWN (va + size - 1)) va' →
              lookup s'.mem root va' = lookup s.mem root va'))) ∧
    ((∃ va', va' < MAXVA ∧ InPages (PGROUNDDOWN va) (PGROUNDDOWN (va + size - 1)) va' ∧
        lookup s.mem root va' ≠ none) →
      (mappages root va size pa perm).run s = .error "mappages: remap" ∨
        ∃ s' l', (mappages root va size pa perm).run s = .ok (-1, s') ∧ Takes s s' root l l' ∧
          l' = [] ∧ ∃ va', va' < MAXVA ∧ InPages (PGROUNDDOWN va) (PGROUNDDOWN (va + size - 1)) va' ∧
            leafTable s'.mem root va' = none) := by
  have hsize' : size ≠ 0 := fun h => by
    rw [h] at hsize
    exact absurd hsize (by decide)
  obtain ⟨ha, hlastA, hlast, hal, hfuel⟩ := mappages_range hsize hend
  rw [mappages_run hsize' s]
  exact ⟨fun hfree => mappagesLoop_spec hperm hleaf hlast _ ha hpa hlastA hal hfuel hs hnz hfree,
    fun hmapped => mappagesLoop_remap_spec hleaf hlast _ ha hlastA hal hfuel hs hnz hmapped⟩

/-- A machine for runs of `mappages`: an empty root page at `0x87FFD000` and the free pages
`0x87FFE000` and `0x87FFF000` above it. -/
def emptyTableVm : VmState :=
  (⟨fun _ _ => 0, 0x87FFE000, 0x87FFD000, 0x80001000⟩ : VmState).setWord 0x87FFE000 0x87FFF000

/-- Only the frame of `0x87FFE000` holds something. -/
lemma emptyTableVm_mem {f : Nat} (hf : f ≠ frame 0x87FFE000) : emptyTableVm.mem f = fun _ => 0 :=
  setWord_mem_of_ne _ _ hf

lemma emptyTableVm_root : ∀ i < 512, pteAt emptyTableVm.mem 0x87FFD000 i = 0 := fun i hi =>
  pteAt_zero (by decide +kernel) hi (emptyTableVm_mem (by decide +kernel))

lemma emptyTableVm_sep : Sep emptyTableVm 0x87FFD000 [0x87FFE000, 0x87FFF000] := by
  obtain ⟨hpages, htree, -⟩ := zero_tree emptyTableVm_root 2
  -- a decision over the members of the list, not over all of `UInt64`
  have hfree : ∀ {P : UInt64 → Prop}, P 0x87FFE000 → P 0x87FFF000 →
      ∀ p ∈ ([0x87FFE000, 0x87FFF000] : List UInt64), P p := fun h₁ h₂ p hp => by
    rcases List.mem_pair.mp hp with rfl | rfl
    · exact h₁
    · exact h₂
  refine ⟨⟨by decide +kernel, htree⟩, ⟨?_, by decide +kernel, hfree (by decide +kernel) (by decide +kernel),
    hfree (by decide +kernel) (by decide +kernel)⟩, hfree ?_ ?_⟩
  · -- `0x87FFE000` holds `0x87FFF000`, whose first word is `0`
    simp only [SList.chain_cons, SList.chain_nil]
    refine ⟨rfl, by decide +kernel,
      read64_setWord_self _ (show PageAligned (0x87FFE000 : UInt64) by decide +kernel).aligned8 _,
      by decide +kernel, ?_⟩
    unfold read64
    rw [emptyTableVm_mem (by decide +kernel), getLE_zero]
    rfl
  all_goals
    rw [hpages]
    decide +kernel

lemma emptyTableVm_noZeroPage : NoZeroPage emptyTableVm.mem 0x87FFD000 := by
  refine ⟨fun p hp => ?_⟩
  rw [(zero_tree emptyTableVm_root 2).1, List.mem_singleton] at hp
  rw [hp]
  decide

/-- `mappages_spec` at the empty table of `emptyTableVm`, mapping page `0` to `0x80000000` with
`PTE_R | PTE_W`. -/
theorem mappages_spec_emptyTable :
    Sep emptyTableVm 0x87FFD000 [0x87FFE000, 0x87FFF000] ∧ NoZeroPage emptyTableVm.mem 0x87FFD000 ∧
      0 < (4096 : UInt64).toNat ∧
      (0 : UInt64).toNat + (4096 : UInt64).toNat - 1 < MAXVA.toNat ∧ PageAligned 0x80000000 ∧
      (permBits 6).toNat < 1024 ∧ Leaf (permBits 6) ∧
    ((∀ va', va' < MAXVA → InPages (PGROUNDDOWN 0) (PGROUNDDOWN (0 + 4096 - 1)) va' →
        lookup emptyTableVm.mem 0x87FFD000 va' = none) →
      ∃ r s' l', (mappages 0x87FFD000 0 4096 0x80000000 6).run emptyTableVm = .ok (r, s') ∧
        Takes emptyTableVm s' 0x87FFD000 [0x87FFE000, 0x87FFF000] l' ∧
        ((r = 0 ∧ ∀ va', va' < MAXVA → lookup s'.mem 0x87FFD000 va' =
            mapRange (lookup emptyTableVm.mem 0x87FFD000) (PGROUNDDOWN 0) (PGROUNDDOWN (0 + 4096 - 1))
              0x80000000 (permBits 6 ||| PTE_V) va') ∨
          (r = -1 ∧ l' = [] ∧
            (∃ va', va' < MAXVA ∧ InPages (PGROUNDDOWN 0) (PGROUNDDOWN (0 + 4096 - 1)) va' ∧
              leafTable s'.mem 0x87FFD000 va' = none) ∧
            ∀ va', va' < MAXVA → ¬ InPages (PGROUNDDOWN 0) (PGROUNDDOWN (0 + 4096 - 1)) va' →
              lookup s'.mem 0x87FFD000 va' = lookup emptyTableVm.mem 0x87FFD000 va'))) ∧
    ((∃ va', va' < MAXVA ∧ InPages (PGROUNDDOWN 0) (PGROUNDDOWN (0 + 4096 - 1)) va' ∧
        lookup emptyTableVm.mem 0x87FFD000 va' ≠ none) →
      (mappages 0x87FFD000 0 4096 0x80000000 6).run emptyTableVm = .error "mappages: remap" ∨
        ∃ s' l', (mappages 0x87FFD000 0 4096 0x80000000 6).run emptyTableVm = .ok (-1, s') ∧
          Takes emptyTableVm s' 0x87FFD000 [0x87FFE000, 0x87FFF000] l' ∧ l' = [] ∧
          ∃ va', va' < MAXVA ∧ InPages (PGROUNDDOWN 0) (PGROUNDDOWN (0 + 4096 - 1)) va' ∧
            leafTable s'.mem 0x87FFD000 va' = none) :=
  ⟨emptyTableVm_sep, emptyTableVm_noZeroPage, by decide +kernel, by decide +kernel, by decide +kernel,
    by decide +kernel, by decide +kernel, mappages_spec emptyTableVm_sep emptyTableVm_noZeroPage
      (by decide +kernel) (by decide +kernel) (by decide +kernel) (by decide +kernel) (by decide +kernel)⟩

/-- The final state of a run that did not panic, `d` otherwise. -/
def finalState (r : Except String (Int × VmState)) (d : VmState) : VmState :=
  match r with
  | .ok (_, s) => s
  | .error _ => d

/-- A run that a decision procedure has checked to return `0` returns its final state. -/
lemma eq_ok_zero {r : Except String (Int × VmState)} (d : VmState)
    (h : (match r with | .ok (v, _) => decide (v = 0) | .error _ => false) = true) :
    r = .ok (0, finalState r d) := by
  cases r with
  | error e => cases h
  | ok p =>
    obtain ⟨v, s⟩ := p
    simp only [decide_eq_true_eq] at h
    subst h
    rfl

/-- The table of `emptyTableVm` after `mappages` maps page `0` to `0x80000000` with
`perm = 0x402`. -/
def bit10Mapped : VmState :=
  match (mappages 0x87FFD000 0 4096 0x80000000 0x402).run emptyTableVm with
  | .ok (_, s) => s
  | .error _ => emptyTableVm

lemma mappages_bit10 :
    (mappages 0x87FFD000 0 4096 0x80000000 0x402).run emptyTableVm = .ok (0, bit10Mapped) :=
  eq_ok_zero emptyTableVm (by decide +kernel)

/-- A `perm` with `PTE_W` and bit 10, the lowest bit of the PPN field: `mappages` on the empty
table returns `0`, but page `0` is mapped to the next frame `0x80001000` with flags `0x003`, not to
`0x80000000` with `perm | PTE_V`. -/
theorem mappages_perm_bit10 :
    Sep emptyTableVm 0x87FFD000 [0x87FFE000, 0x87FFF000] ∧ Leaf (permBits 0x402) ∧
      (mappages 0x87FFD000 0 4096 0x80000000 0x402).run emptyTableVm = .ok (0, bit10Mapped) ∧
      lookup bit10Mapped.mem 0x87FFD000 0 = some (0x80001000, 0x003) ∧
      ((0x80001000 : UInt64), (0x003 : UInt64)) ≠ (0x80000000, permBits 0x402 ||| PTE_V) :=
  ⟨emptyTableVm_sep, by decide +kernel, mappages_bit10, by decide +kernel, by decide +kernel⟩

end Mappages

/-! ## A store through `copyout` into a page mapped without `PTE_W` -/

section ReadOnly

/-- The table of `emptyTableVm` with page `0` mapped to `0x80000000` as program text:
`PTE_R | PTE_X | PTE_U`, without `PTE_W`. -/
def textMapped : VmState :=
  finalState ((mappages 0x87FFD000 0 4096 0x80000000 0x1A).run emptyTableVm) emptyTableVm

lemma mappages_text :
    (mappages 0x87FFD000 0 4096 0x80000000 0x1A).run emptyTableVm = .ok (0, textMapped) :=
  eq_ok_zero emptyTableVm (by decide +kernel)

/-- `textMapped` after `copyout` of the byte `42` to virtual address `0`. -/
def textWritten : VmState :=
  finalState ((copyout 0x87FFD000 0 [42] 1).run textMapped) textMapped

/-- `copyout` looks a page up with `walkaddr`, which checks `PTE_V` and `PTE_U` only. On the page
of program text mapped at `0`, whose flags `0x01B` lack `PTE_W`, `copyout` of one byte returns
`0` and stores the byte into the text frame. -/
theorem copyout_writes_text_page :
    lookup textMapped.mem 0x87FFD000 0 = some (0x80000000, 0x01B) ∧
      (0x01B : UInt64) &&& PTE_W = 0 ∧
      (copyout 0x87FFD000 0 [42] 1).run textMapped = .ok (0, textWritten) ∧
      textMapped.mem (frame 0x80000000) ⟨0, by decide⟩ = 0 ∧
      textWritten.mem (frame 0x80000000) ⟨0, by decide⟩ = 42 :=
  ⟨by decide +kernel, by decide +kernel, eq_ok_zero textMapped (by decide +kernel),
    by decide +kernel, by decide +kernel⟩

end ReadOnly

end Vm

end Xv6
