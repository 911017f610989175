import Xv6.Fs.FileBytes

/-!
# Truncating a file

`itrunc` of `kernel/fs.c` frees the blocks of an inode and sets its size to 0: the direct
blocks in one loop, the blocks its indirect block lists in another, then the indirect block.
On an inode whose blocks satisfy `FileBlocks`, no `bfree` of it panics, and the call frees
exactly the blocks the file holds (`Holds`): their bits are cleared and no other bit changes.
The entry's address table is cleared, its size is 0 and the inode is written back, and
`FileBlocks` holds at size 0 (`itrunc_spec`).

Both loops are carried by `Cleared s t B`: `t` is `s` with the bits of the blocks `B` cleared
and the blocks outside the bitmap as they were. A `bfree` of a block that was in use and is not
in `B` finds its bit set (`Cleared.bfree`). A block the file lists is in use and listed once, so
each round frees a block no earlier round freed.
-/

namespace Xv6.Fs

open StateExcept

variable {s t : FsState} {ip : Fin NINODE} {len : Nat}

/-- Block `y` belongs to the file `d`: one of its data blocks, or its indirect block. -/
def Holds (disk : Disk) (d : DInode) (y : Nat) : Prop :=
  (∃ bn, addrOf disk d bn ≠ 0 ∧ (addrOf disk d bn).toNat = y) ∨
    (d.addrs (Fin.last NDIRECT) ≠ 0 ∧ (d.addrs (Fin.last NDIRECT)).toNat = y)

lemma addrOf_castSucc (disk : Disk) (d : DInode) (i : Fin NDIRECT) :
    addrOf disk d i.val = d.addrs i.castSucc := by
  rw [addrOf, dif_pos i.isLt]
  rfl

lemma addrOf_indirect (disk : Disk) {d : DInode} (hind : d.addrs (Fin.last NDIRECT) ≠ 0) (j : Nat) :
    addrOf disk d (NDIRECT + j) = indirectAt (disk (d.addrs (Fin.last NDIRECT)).toNat) j := by
  rw [addrOf, dif_neg (by omega), if_neg hind, Nat.add_sub_cancel_left]

/-- An inode without addresses maps no block. -/
lemma addrOf_of_addrs_zero (disk : Disk) {d : DInode} (h : ∀ k, d.addrs k = 0) (bn : Nat) :
    addrOf disk d bn = 0 := by
  unfold addrOf
  split
  · exact h _
  · rw [if_pos (h _)]

/-- The blocks a file holds, as `itrunc` meets them: the direct blocks, the blocks the indirect
block lists, and the indirect block. -/
lemma holds_iff (disk : Disk) (d : DInode) (y : Nat) :
    Holds disk d y ↔
      (∃ i : Fin NDIRECT, d.addrs i.castSucc ≠ 0 ∧ (d.addrs i.castSucc).toNat = y) ∨
        (d.addrs (Fin.last NDIRECT) ≠ 0 ∧
          ((∃ j < NINDIRECT, indirectAt (disk (d.addrs (Fin.last NDIRECT)).toNat) j ≠ 0 ∧
              (indirectAt (disk (d.addrs (Fin.last NDIRECT)).toNat) j).toNat = y) ∨
            (d.addrs (Fin.last NDIRECT)).toNat = y)) := by
  constructor
  · rintro (⟨bn, hne, hy⟩ | ⟨hind, hy⟩)
    · -- a data block: direct below `NDIRECT`, listed by the indirect block above
      have hmax := lt_MAXFILE_of_addrOf_ne_zero hne
      by_cases hbn : bn < NDIRECT
      · refine .inl ⟨⟨bn, hbn⟩, ?_, ?_⟩ <;> rwa [← addrOf_castSucc disk d ⟨bn, hbn⟩]
      · have hind : d.addrs (Fin.last NDIRECT) ≠ 0 := fun h0 => hne (by
          rw [addrOf, dif_neg hbn, if_pos h0])
        have e : addrOf disk d bn = indirectAt (disk (d.addrs (Fin.last NDIRECT)).toNat) (bn - NDIRECT) := by
          rw [← addrOf_indirect disk hind, Nat.add_sub_cancel' (by omega)]
        rw [e] at hne hy
        exact .inr ⟨hind, .inl ⟨bn - NDIRECT, by rw [MAXFILE] at hmax; omega, hne, hy⟩⟩
    · exact .inr ⟨hind, .inr hy⟩
  · rintro (⟨i, hne, hy⟩ | ⟨hind, ⟨j, hj, hne, hy⟩ | hy⟩)
    · exact .inl ⟨i.val, by rwa [addrOf_castSucc], by rwa [addrOf_castSucc]⟩
    · exact .inl ⟨NDIRECT + j, by rwa [addrOf_indirect disk hind], by rwa [addrOf_indirect disk hind]⟩
    · exact .inr ⟨hind, hy⟩

/-! ## Clearing bits -/

/-- `t` is `s` with the bits of the blocks `B` cleared: the same superblock, the same blocks
outside the bitmap, the bits of `B` clear and every other bit as it was. -/
structure Cleared (s t : FsState) (B : Nat → Prop) : Prop where
  sb : t.sb = s.sb
  bits : ∀ y, used t y = true ↔ used s y = true ∧ ¬B y
  disk : ∀ b, b < s.sb.bmapstart ∨ dataStart s.sb ≤ b → t.disk b = s.disk b

lemma Cleared.refl (s : FsState) : Cleared s s fun _ => False :=
  ⟨rfl, fun _ => (and_iff_left not_false).symm, fun _ _ => rfl⟩

/-- The bits read the superblock and the disk only: a store into the inode table keeps them. -/
lemma Cleared.setInode {B : Nat → Prop} (h : Cleared s t B) (f : Fin NINODE → Inode) :
    Cleared s { t with inode := f } B :=
  ⟨h.sb, h.bits, h.disk⟩

lemma Cleared.congr {B B' : Nat → Prop} (h : Cleared s t B) (hB : ∀ y, B y ↔ B' y) :
    Cleared s t B' :=
  ⟨h.sb, fun y => by rw [h.bits, hB], h.disk⟩

/-- `bfree` of a block of the disk that was in use and whose bit is not cleared yet: it finds
the bit set and clears it. -/
lemma Cleared.bfree {B : Nat → Prop} (h : Cleared s t B) (hds : dataStart s.sb ≤ s.sb.size)
    (hsize : s.sb.size < 2 ^ 32) (dev : Nat) {a : UInt32}
    (ha : a.toNat < s.sb.size) (hs : used s a.toNat = true) (hB : ¬B a.toNat) :
    (bfree dev a).run t = .ok ((), clearBlock t a.toNat) ∧
      Cleared s (clearBlock t a.toNat) fun y => B y ∨ y = a.toNat := by
  have hused : used t a.toNat = true := (h.bits _).2 ⟨hs, hB⟩
  refine ⟨by rw [run_bfree, if_pos hused], ⟨by rw [clearBlock_sb, h.sb], fun y => ?_, fun b hb => ?_⟩⟩
  · rw [used_clearBlock _ a.toNat_lt, Bool.and_eq_true, h.bits, Bool.not_eq_true', decide_eq_false_iff_not]
    tauto
  · -- only the bitmap block of `a` changes
    have hB₁ := bmapstart_le_BBLOCK s.sb hds hsize a.toNat_lt
    have hB₂ := BBLOCK_lt_dataStart s.sb ha
    have hne : b ≠ BBLOCK a.toNat t.sb := by
      rw [h.sb]
      omega
    simp only [clearBlock, Function.update_of_ne hne]
    exact h.disk b hb

/-! ## The two loops -/

section Loops

variable (hb : FileBlocks s ip len)
include hb

/-- The address table after the first `ys` rounds of the direct loop. -/
def directAddrs (d : DInode) (ys : List (Fin NDIRECT)) : Fin (NDIRECT + 1) → UInt32 :=
  fun k => if k ∈ ys.map Fin.castSucc then 0 else d.addrs k

omit hb in
lemma directAddrs_nil (d : DInode) : directAddrs d [] = d.addrs := rfl

/-- What the first `ys` rounds of `itrunc`'s direct loop leave: the bits of the direct blocks
they met cleared, and those addresses zeroed. -/
def DirectDone (s : FsState) (ip : Fin NINODE) (ys : List (Fin NDIRECT)) (t : FsState) : Prop :=
  Cleared s t (fun y => ∃ i ∈ ys, (s.inode ip).di.addrs i.castSucc ≠ 0 ∧
      ((s.inode ip).di.addrs i.castSucc).toNat = y) ∧
    t.inode = Function.update s.inode ip
      { s.inode ip with di := { (s.inode ip).di with addrs := directAddrs (s.inode ip).di ys } }

/-- A direct block of the file is a data block in use. -/
lemma inData_direct {i : Fin NDIRECT} (hne : (s.inode ip).di.addrs i.castSucc ≠ 0) :
    InData s ((s.inode ip).di.addrs i.castSucc).toNat := by
  have := hb.data i.val (by rwa [addrOf_castSucc])
  rwa [addrOf_castSucc] at this

/-- Two direct blocks at different indices are different blocks. -/
lemma direct_toNat_ne {i i' : Fin NDIRECT} (hne : (s.inode ip).di.addrs i.castSucc ≠ 0)
    (hii : i' ≠ i) :
    ((s.inode ip).di.addrs i'.castSucc).toNat ≠ ((s.inode ip).di.addrs i.castSucc).toNat := by
  intro e
  have e' := UInt32.toNat_inj.mp e
  rw [← addrOf_castSucc s.disk, ← addrOf_castSucc s.disk] at e'
  exact hii (Fin.ext (hb.inj i'.val i.val (by rw [e', addrOf_castSucc]; exact hne) e'))

/-- One round of the direct loop, at a direct block the earlier rounds did not meet. -/
lemma DirectDone.step {ys : List (Fin NDIRECT)} {i : Fin NDIRECT} (hi : i ∉ ys)
    (h : DirectDone s ip ys t) :
    ∃ t', (do
        let x := (← get).inode ip
        if x.di.addrs i.castSucc != 0 then do
          bfree x.dev (x.di.addrs i.castSucc)
          setAddr ip i.castSucc 0 : FsM Unit).run t = .ok ((), t') ∧
      DirectDone s ip (ys ++ [i]) t' := by
  obtain ⟨hc, hinode⟩ := h
  have hnot : i.castSucc ∉ ys.map Fin.castSucc := fun hm => by
    obtain ⟨i', hi', e⟩ := List.mem_map.1 hm
    exact hi (Fin.castSucc_injective _ e ▸ hi')
  -- the round reads the entry's address at `i`, which no earlier round changed
  have hx : (t.inode ip).di.addrs i.castSucc = (s.inode ip).di.addrs i.castSucc := by
    rw [hinode, Function.update_self]
    simp only [directAddrs, if_neg hnot]
  have hdev : (t.inode ip).dev = (s.inode ip).dev := by
    rw [hinode, Function.update_self]
  have haddrs : directAddrs (s.inode ip).di (ys ++ [i]) =
      Function.update (directAddrs (s.inode ip).di ys) i.castSucc 0 := by
    funext k
    by_cases hk : k = i.castSucc
    · subst hk
      simp [directAddrs]
    · simp [directAddrs, hk, eq_comm]
  simp only [run_get_bind, hx, hdev]
  by_cases ha : (s.inode ip).di.addrs i.castSucc = 0
  · -- a hole: nothing to free, and the address is 0 already
    refine ⟨t, by simp only [ha, bne_self_eq_false, Bool.false_eq_true, ↓reduceIte]; rfl,
      hc.congr fun y => ?_, ?_⟩
    · simp only [List.mem_append, List.mem_singleton]
      constructor
      · rintro ⟨i', hi', hne, hy⟩
        exact ⟨i', .inl hi', hne, hy⟩
      · rintro ⟨i', hi' | rfl, hne, hy⟩
        · exact ⟨i', hi', hne, hy⟩
        · exact absurd ha hne
    · have h0 : directAddrs (s.inode ip).di ys i.castSucc = 0 := by
        simp only [directAddrs, if_neg hnot, ha]
      rw [hinode, haddrs, ← h0, Function.update_eq_self]
  · have hd := inData_direct hb ha
    have hfresh : ¬∃ i' ∈ ys, (s.inode ip).di.addrs i'.castSucc ≠ 0 ∧
        ((s.inode ip).di.addrs i'.castSucc).toNat = ((s.inode ip).di.addrs i.castSucc).toNat := by
      rintro ⟨i', hi', -, e⟩
      exact direct_toNat_ne hb ha (fun e' => hi (e' ▸ hi')) e
    obtain ⟨hfree, hc'⟩ := hc.bfree hb.dataStart_le hb.size_lt (s.inode ip).dev hd.lt_size hd.in_use hfresh
    refine ⟨{ clearBlock t ((s.inode ip).di.addrs i.castSucc).toNat with
        inode := Function.update t.inode ip { t.inode ip with di := { (t.inode ip).di with
          addrs := Function.update (t.inode ip).di.addrs i.castSucc 0 } } }, ?_,
      (hc'.setInode _).congr fun y => ?_, ?_⟩
    · rw [if_pos (bne_iff_ne.2 ha), run_bind_of_eq_ok hfree]
      rfl
    · simp only [List.mem_append, List.mem_singleton]
      constructor
      · rintro (⟨i', hi', hne, hy⟩ | rfl)
        · exact ⟨i', .inl hi', hne, hy⟩
        · exact ⟨i, .inr rfl, ha, rfl⟩
      · rintro ⟨i', hi' | rfl, hne, hy⟩
        · exact .inl ⟨i', hi', hne, hy⟩
        · exact .inr hy.symm
    · show Function.update t.inode ip _ = _
      rw [haddrs]
      simp only [hinode, Function.update_idem, Function.update_self]

/-- The blocks the direct loop frees. -/
def DirectBlocks (d : DInode) (y : Nat) : Prop :=
  ∃ i ∈ List.finRange NDIRECT, d.addrs i.castSucc ≠ 0 ∧ (d.addrs i.castSucc).toNat = y

/-- The blocks the indirect block `ind` lists in its entries `js`. -/
def ListedBlocks (blk : Block) (js : List Nat) (y : Nat) : Prop :=
  ∃ j ∈ js, indirectAt blk j ≠ 0 ∧ (indirectAt blk j).toNat = y

section Indirect

variable {u : FsState} (hind : (s.inode ip).di.addrs (Fin.last NDIRECT) ≠ 0)
include hind

/-- An entry of the indirect block names a block apart from every direct block and from every
other entry. -/
lemma listed_fresh {js : List Nat} {j : Nat} (hjs : j ∉ js)
    (hne : indirectAt (s.disk ((s.inode ip).di.addrs (Fin.last NDIRECT)).toNat) j ≠ 0) :
    ¬(DirectBlocks (s.inode ip).di
        (indirectAt (s.disk ((s.inode ip).di.addrs (Fin.last NDIRECT)).toNat) j).toNat ∨
      ListedBlocks (s.disk ((s.inode ip).di.addrs (Fin.last NDIRECT)).toNat) js
        (indirectAt (s.disk ((s.inode ip).di.addrs (Fin.last NDIRECT)).toNat) j).toNat) := by
  have hne' : addrOf s.disk (s.inode ip).di (NDIRECT + j) ≠ 0 := by rwa [addrOf_indirect _ hind]
  rintro (⟨i, -, -, e⟩ | ⟨j', hj', -, e⟩)
  · -- a direct block at the same address would be block `NDIRECT + j`
    rw [← addrOf_indirect _ hind, ← addrOf_castSucc s.disk] at e
    have := hb.inj _ _ hne' (UInt32.toNat_inj.mp e).symm
    omega
  · rw [← addrOf_indirect _ hind, ← addrOf_indirect _ hind] at e
    have := hb.inj _ _ hne' (UInt32.toNat_inj.mp e).symm
    exact hjs (by rwa [show j = j' by omega])

/-- One round of the indirect loop, at an entry the earlier rounds did not meet. -/
lemma listed_step {js : List Nat} {j : Nat} (hjs : j ∉ js)
    (hc : Cleared s t fun y => DirectBlocks (s.inode ip).di y ∨
      ListedBlocks (s.disk ((s.inode ip).di.addrs (Fin.last NDIRECT)).toNat) js y) (dev : Nat) :
    ∃ t', (do
        let a := indirectAt (← bread dev ((s.inode ip).di.addrs (Fin.last NDIRECT)).toNat) j
        if a != 0 then bfree dev a : FsM Unit).run t = .ok ((), t') ∧ t'.inode = t.inode ∧
      Cleared s t' fun y => DirectBlocks (s.inode ip).di y ∨
        ListedBlocks (s.disk ((s.inode ip).di.addrs (Fin.last NDIRECT)).toNat) (js ++ [j]) y := by
  -- the round reads the indirect block, a data block that no `bfree` changes
  have hdata := hb.ind hind
  have hread : t.disk ((s.inode ip).di.addrs (Fin.last NDIRECT)).toNat =
      s.disk ((s.inode ip).di.addrs (Fin.last NDIRECT)).toNat := hc.disk _ (.inr hdata.start_le)
  have hlisted : ∀ y, ListedBlocks (s.disk ((s.inode ip).di.addrs (Fin.last NDIRECT)).toNat) (js ++ [j]) y ↔
      ListedBlocks (s.disk ((s.inode ip).di.addrs (Fin.last NDIRECT)).toNat) js y ∨
        (indirectAt (s.disk ((s.inode ip).di.addrs (Fin.last NDIRECT)).toNat) j ≠ 0 ∧
          (indirectAt (s.disk ((s.inode ip).di.addrs (Fin.last NDIRECT)).toNat) j).toNat = y) := by
    intro y
    simp only [ListedBlocks, List.mem_append, List.mem_singleton]
    constructor
    · rintro ⟨j', hj' | rfl, hne, hy⟩
      · exact .inl ⟨j', hj', hne, hy⟩
      · exact .inr ⟨hne, hy⟩
    · rintro (⟨j', hj', hne, hy⟩ | ⟨hne, hy⟩)
      · exact ⟨j', .inl hj', hne, hy⟩
      · exact ⟨j, .inr rfl, hne, hy⟩
  simp only [run_bind_of_eq_ok (run_bread _ _), hread]
  by_cases ha : indirectAt (s.disk ((s.inode ip).di.addrs (Fin.last NDIRECT)).toNat) j = 0
  · refine ⟨t, by simp only [ha, bne_self_eq_false, Bool.false_eq_true, ↓reduceIte]; rfl, rfl,
      hc.congr fun y => ?_⟩
    rw [hlisted]
    simp [ha]
  · -- a block the file lists: in use, and not freed before
    have hd : InData s (indirectAt (s.disk ((s.inode ip).di.addrs (Fin.last NDIRECT)).toNat) j).toNat := by
      have := hb.data (NDIRECT + j) (by rwa [addrOf_indirect _ hind])
      rwa [addrOf_indirect _ hind] at this
    obtain ⟨hfree, hc'⟩ := hc.bfree hb.dataStart_le hb.size_lt dev hd.lt_size hd.in_use (listed_fresh hb hind hjs ha)
    refine ⟨clearBlock t _, by rw [if_pos (bne_iff_ne.2 ha)]; exact hfree, rfl, hc'.congr fun y => ?_⟩
    rw [hlisted]
    constructor
    · rintro ((h | h) | rfl)
      · exact .inl h
      · exact .inr (.inl h)
      · exact .inr (.inr ⟨ha, rfl⟩)
    · rintro (h | h | ⟨-, rfl⟩)
      · exact .inl (.inl h)
      · exact .inl (.inr h)
      · exact .inr rfl

end Indirect

omit hb in
/-- A round of a loop over a list without repeats is at an element no earlier round met. -/
lemma not_mem_of_nodup_eq_append {α : Type} {l ys zs : List α} {x : α} (h : l.Nodup)
    (e : l = ys ++ x :: zs) : x ∉ ys := by
  rw [e, List.nodup_append] at h
  exact fun hx => h.2.2 x hx x List.mem_cons_self rfl

/-- The direct loop succeeds: it frees every direct block and zeroes the direct addresses. -/
lemma itruncDirect_spec : ∃ u, (itruncDirect ip).run s = .ok ((), u) ∧
    DirectDone s ip (List.finRange NDIRECT) u := by
  have h₀ : DirectDone s ip [] s := by
    refine ⟨(Cleared.refl s).congr fun y => ?_, ?_⟩
    · simp
    · rw [directAddrs_nil]
      exact (Function.update_eq_self ip s.inode).symm
  exact forM_ok (DirectDone s ip)
    (fun ys i zs e t ht => ht.step hb (not_mem_of_nodup_eq_append (List.nodup_finRange _) e)) h₀

omit hb in
/-- After the direct loop only the indirect address is left. -/
lemma directAddrs_finRange (d : DInode) (k : Fin (NDIRECT + 1)) :
    directAddrs d (List.finRange NDIRECT) k = if k = Fin.last NDIRECT then d.addrs k else 0 := by
  obtain ⟨j, rfl⟩ | rfl := Fin.eq_castSucc_or_eq_last k
  · simp [directAddrs, Fin.castSucc_ne_last]
  · simp [directAddrs, Fin.castSucc_ne_last]

/-- The indirect part succeeds: it frees the blocks the indirect block lists and the indirect
block, so that with the direct loop every block the file holds is freed, and it zeroes the
indirect address. -/
lemma itruncIndirect_spec {u : FsState} (hu : DirectDone s ip (List.finRange NDIRECT) u) :
    ∃ v, (itruncIndirect ip).run u = .ok ((), v) ∧ Cleared s v (Holds s.disk (s.inode ip).di) ∧
      v.inode = Function.update s.inode ip
        { s.inode ip with di := { (s.inode ip).di with addrs := fun _ => 0 } } := by
  obtain ⟨hc, hinode⟩ := hu
  have hx : u.inode ip = { s.inode ip with
      di := { (s.inode ip).di with addrs := directAddrs (s.inode ip).di (List.finRange NDIRECT) } } := by
    rw [hinode, Function.update_self]
  have hind_u : (u.inode ip).di.addrs (Fin.last NDIRECT) = (s.inode ip).di.addrs (Fin.last NDIRECT) := by
    rw [hx]
    simp [directAddrs_finRange]
  have hdev : (u.inode ip).dev = (s.inode ip).dev := by rw [hx]
  have hdirect : ∀ y, (∃ i ∈ List.finRange NDIRECT, (s.inode ip).di.addrs i.castSucc ≠ 0 ∧
      ((s.inode ip).di.addrs i.castSucc).toNat = y) ↔ DirectBlocks (s.inode ip).di y := fun _ => Iff.rfl
  simp only [itruncIndirect, run_get_bind, hind_u, hdev]
  by_cases hind : (s.inode ip).di.addrs (Fin.last NDIRECT) = 0
  · -- no indirect block: the direct loop freed every block
    refine ⟨u, by simp only [hind, bne_self_eq_false, Bool.false_eq_true, ↓reduceIte]; rfl,
      hc.congr fun y => ?_, ?_⟩
    · simp [holds_iff, hind]
    · have hall : directAddrs (s.inode ip).di (List.finRange NDIRECT) = fun _ => 0 := by
        funext k
        rw [directAddrs_finRange]
        split
        · subst k
          exact hind
        · rfl
      rw [hinode, hall]
  · rw [if_pos (bne_iff_ne.2 hind)]
    -- the loop over the entries of the indirect block
    obtain ⟨t, ht, hct, hint⟩ := forM_ok (fun js t => (Cleared s t fun y =>
        DirectBlocks (s.inode ip).di y ∨
          ListedBlocks (s.disk ((s.inode ip).di.addrs (Fin.last NDIRECT)).toNat) js y) ∧
        t.inode = u.inode)
      (fun js j zs e t ⟨hct, hint⟩ => by
        obtain ⟨t', h, hi, hc'⟩ := listed_step hb hind
          (not_mem_of_nodup_eq_append List.nodup_range e) hct (s.inode ip).dev
        exact ⟨t', h, hc', hi.trans hint⟩)
      (s := u) ⟨hc.congr fun y => by simp [ListedBlocks, DirectBlocks], rfl⟩
    -- then the indirect block itself, which is none of the blocks freed so far
    have hfresh : ¬(DirectBlocks (s.inode ip).di ((s.inode ip).di.addrs (Fin.last NDIRECT)).toNat ∨
        ListedBlocks (s.disk ((s.inode ip).di.addrs (Fin.last NDIRECT)).toNat) (List.range NINDIRECT)
          ((s.inode ip).di.addrs (Fin.last NDIRECT)).toNat) := by
      rintro (⟨i, -, hne, e⟩ | ⟨j, -, hne, e⟩)
      · rw [← addrOf_castSucc s.disk] at hne e
        exact hb.ne_ind _ hne (UInt32.toNat_inj.mp e)
      · rw [← addrOf_indirect _ hind] at hne e
        exact hb.ne_ind _ hne (UInt32.toNat_inj.mp e)
    obtain ⟨hfree, hc'⟩ := hct.bfree hb.dataStart_le hb.size_lt (s.inode ip).dev (hb.ind hind).lt_size (hb.ind hind).in_use hfresh
    refine ⟨{ clearBlock t ((s.inode ip).di.addrs (Fin.last NDIRECT)).toNat with
        inode := Function.update t.inode ip { t.inode ip with di := { (t.inode ip).di with
          addrs := Function.update (t.inode ip).di.addrs (Fin.last NDIRECT) 0 } } }, ?_,
      (hc'.setInode _).congr fun y => ?_, ?_⟩
    · rw [run_bind_of_eq_ok ht, run_bind_of_eq_ok hfree]
      rfl
    · rw [holds_iff]
      simp only [DirectBlocks, ListedBlocks, List.mem_finRange, true_and, List.mem_range, hind,
        ne_eq, not_false_eq_true]
      constructor
      · rintro ((h | h) | rfl)
        · exact .inl h
        · exact .inr (.inl h)
        · exact .inr (.inr rfl)
      · rintro (h | h | h)
        · exact .inl (.inl h)
        · exact .inl (.inr h)
        · exact .inr h.symm
    · have hall : Function.update (directAddrs (s.inode ip).di (List.finRange NDIRECT)) (Fin.last NDIRECT) 0 =
          fun _ => 0 := by
        funext k
        by_cases hk : k = Fin.last NDIRECT
        · subst hk
          exact Function.update_self _ _ _
        · rw [Function.update_of_ne hk, directAddrs_finRange, if_neg hk]
      show Function.update t.inode ip _ = _
      rw [hint, hinode, Function.update_idem, Function.update_self]
      simp only [hall]

/-- A block the file holds is a data block in use. -/
lemma inData_of_holds {y : Nat} (h : Holds s.disk (s.inode ip).di y) : InData s y := by
  rcases h with ⟨bn, hne, rfl⟩ | ⟨hind, rfl⟩
  · exact hb.data bn hne
  · exact hb.ind hind

end Loops

/-- `itrunc` of an inode whose blocks satisfy `FileBlocks` succeeds and frees exactly the blocks
the file holds: afterwards a block is in use when it was and the file does not hold it. The
entry's addresses are all 0 and its size is 0, the inode is written back to its slot, and the
entry satisfies `FileBlocks` at size 0. -/
theorem itrunc_spec (hb : FileBlocks s ip len) :
    ∃ s', (itrunc ip).run s = .ok ((), s') ∧
      (∀ y, used s' y = true ↔ used s y = true ∧ ¬Holds s.disk (s.inode ip).di y) ∧
      s'.inode = Function.update s.inode ip
        { s.inode ip with di := { (s.inode ip).di with addrs := fun _ => 0, size := 0 } } ∧
      dinodeAt (s'.disk (IBLOCK (s.inode ip).inum s.sb)) (s.inode ip).inum = (s'.inode ip).di ∧
      FileBlocks s' ip 0 := by
  obtain ⟨u, hu, hdu⟩ := itruncDirect_spec hb
  obtain ⟨v, hv, hcv, hinv⟩ := itruncIndirect_spec hb hdu
  -- the size set to 0, then the entry written to its slot
  let w : FsState := { v with
    inode := Function.update v.inode ip { v.inode ip with di := { (v.inode ip).di with size := 0 } } }
  have hwinode : w.inode = Function.update s.inode ip
      { s.inode ip with di := { (s.inode ip).di with addrs := fun _ => 0, size := 0 } } := by
    simp only [w, hinv, Function.update_idem, Function.update_self]
  have hentry : w.inode ip = { s.inode ip with di := { (s.inode ip).di with addrs := fun _ => 0, size := 0 } } := by
    rw [hwinode, Function.update_self]
  have hsb : w.sb = s.sb := hcv.sb
  let s' : FsState := { w with
    disk := Function.update w.disk (IBLOCK (w.inode ip).inum w.sb)
      (setDinodeAt (w.disk (IBLOCK (w.inode ip).inum w.sb)) (w.inode ip).inum (w.inode ip).di)
    logged := w.logged ++ [IBLOCK (w.inode ip).inum w.sb] }
  -- the inode's block lies below the bitmap, so writing it back keeps every bit
  have hbits : ∀ y, used s' y = true ↔ used s y = true ∧ ¬Holds s.disk (s.inode ip).di y := by
    intro y
    by_cases hy : y < 2 ^ 32
    · have hne : BBLOCK y v.sb ≠ IBLOCK (w.inode ip).inum w.sb := by
        rw [hentry, hsb]
        exact Nat.ne_of_gt (lt_of_lt_of_le hb.iblock (bmapstart_le_BBLOCK s.sb hb.dataStart_le hb.size_lt hy))
      rw [← hcv.bits y, used_congr s' v rfl (Function.update_of_ne hne _ _)]
    · rw [← hcv.bits y, used_of_not_lt hy, used_of_not_lt hy]
  refine ⟨s', ?_, hbits, hwinode, ?_, ?_⟩
  · rw [itrunc, run_bind_of_eq_ok hu, run_bind_of_eq_ok hv, run_bind_of_eq_ok (run_modifyInode _ _),
      run_iupdate]
  · have hinum : (w.inode ip).inum = (s.inode ip).inum := by rw [hentry]
    show dinodeAt (Function.update w.disk (IBLOCK (w.inode ip).inum w.sb)
      (setDinodeAt (w.disk (IBLOCK (w.inode ip).inum w.sb)) (w.inode ip).inum (w.inode ip).di)
      (IBLOCK (s.inode ip).inum s.sb)) (s.inode ip).inum = (w.inode ip).di
    rw [← hsb, ← hinum, Function.update_self, dinodeAt_setDinodeAt_self]
  · -- the entry lists no block any more
    have hzero : ∀ k, (s'.inode ip).di.addrs k = 0 := fun k => by
      show (w.inode ip).di.addrs k = 0
      rw [hentry]
    have hnone : ∀ bn, addrOf s'.disk (s'.inode ip).di bn = 0 := addrOf_of_addrs_zero _ hzero
    have hsb' : s'.sb = s.sb := hsb
    refine ⟨Nat.zero_le _, fun bn h => absurd h (Nat.not_lt_zero _), fun bn h => absurd (hnone bn) h,
      fun h => absurd (hzero _) h, fun bn _ h => absurd (hnone bn) h, fun bn h => absurd (hnone bn) h,
      fun b hlt => ?_, hsb' ▸ hb.dataStart_le, ?_, hsb' ▸ hb.size_lt⟩
    · -- the metadata stays in use: the file held none of it
      rw [hsb'] at hlt
      exact (hbits b).2 ⟨hb.metadata b hlt, fun h => absurd (inData_of_holds hb h).start_le (by omega)⟩
    · show IBLOCK (w.inode ip).inum s'.sb < s'.sb.bmapstart
      rw [hentry, hsb']
      exact hb.iblock

/-- Truncating the 1000-byte file of `fileState` frees its one block, block 46. -/
theorem itrunc_spec_file :
    ∃ s', (itrunc fileIp).run fileState = .ok ((), s') ∧ used fileState 46 = true ∧ used s' 46 = false ∧
      FileBlocks s' fileIp 0 := by
  obtain ⟨s', h, hbits, -, -, hb'⟩ := itrunc_spec fileBlocks_fileState
  have hholds : Holds fileState.disk (fileState.inode fileIp).di 46 := .inl ⟨0, by decide, by decide⟩
  refine ⟨s', h, by decide, ?_, hb'⟩
  cases hu : used s' 46
  · rfl
  · exact absurd hholds ((hbits 46).1 hu).2

end Xv6.Fs
