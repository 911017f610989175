import Xv6.Fs.Sysfile

/-!
# Link counts and reachability

The file tree as the disk holds it: the inode in each slot (`dinode`), the entries of a directory
(`entries`, its contents cut into `struct dirent`s), the inodes reachable from the root through
entries that name a child (`Reach`), and the link count an inode should have (`linkCount`): the
live entries naming it in reachable directories, `.` entries not counted. `LinkInv` is the
accounting these give: every allocated inode's `nlink` is its link count, every live entry of a
reachable directory names an allocated inode, and every allocated inode is reachable or held in
the inode table.

`sys_unlink` lets a process unlink its own working directory: the directory must only be empty.
`create` then adds entries to that directory, which nothing reaches. The file created there
has `nlink = 1` and no reachable entry (`create_in_unlinked_cwd`).
-/

namespace Xv6

/-- A live entry other than `.` and `..`: one that names a child of its directory. -/
def Dirent.child (de : Dirent) : Bool :=
  de.inum != 0 && Fs.namecmp de.name dot != 0 && Fs.namecmp de.name dotdot != 0

/-- A live entry naming `i` that `i`'s link count counts: every one but `.`. -/
def Dirent.counts (de : Dirent) (i : Nat) : Bool :=
  de.inum != 0 && de.inum.toNat == i && Fs.namecmp de.name dot != 0

namespace Fs

/-- The inode `i` as its slot on disk holds it. -/
def dinode (s : FsState) (i : Nat) : DInode := dinodeAt (s.disk (IBLOCK i s.sb)) i

/-- The entries of the directory `d`: its contents cut into `struct dirent`s. -/
def entries (disk : Disk) (d : DInode) : List Dirent :=
  (List.range (d.size.toNat / sizeofDirent)).map fun k =>
    Dirent.ofBytes (((content disk d).drop (sizeofDirent * k)).take sizeofDirent)

/-- The inodes reachable from the root through the children of directories. -/
inductive Reach (s : FsState) : Nat → Prop where
  | root : Reach s ROOTINO
  | child {i : Nat} {de : Dirent} : Reach s i → (dinode s i).type = T_DIR →
      de ∈ entries s.disk (dinode s i) → de.child → Reach s de.inum.toNat

/-- Every set that holds the root and the children of its directories holds every reachable
inode. -/
@[elab_as_elim]
theorem Reach.subset {s : FsState} {S : Nat → Prop} (hroot : S ROOTINO)
    (hchild : ∀ i de, S i → (dinode s i).type = T_DIR → de ∈ entries s.disk (dinode s i) →
      de.child → S de.inum.toNat) {j : Nat} (h : Reach s j) : S j := by
  induction h with
  | root => exact hroot
  | child _ hdir hmem hde ih => exact hchild _ _ ih hdir hmem hde

open Classical in
/-- The link count of inode `i`: the live entries naming it in reachable directories, not
counting `.` entries. -/
noncomputable def linkCount (s : FsState) (i : Nat) : Nat :=
  ∑ j ∈ Finset.range s.sb.ninodes,
    if Reach s j ∧ (dinode s j).type = T_DIR then
      ((entries s.disk (dinode s j)).filter (·.counts i)).length
    else 0

/-- The link count of `i` as a sum over the reachable directories, when they are the finite set
`T`. -/
theorem linkCount_eq_sum {s : FsState} {T : Finset Nat} (hT : T ⊆ Finset.range s.sb.ninodes)
    (hdirs : ∀ j, (Reach s j ∧ (dinode s j).type = T_DIR) ↔ j ∈ T) (i : Nat) :
    linkCount s i = ∑ j ∈ T, ((entries s.disk (dinode s j)).filter (·.counts i)).length := by
  classical
  unfold linkCount
  rw [← Finset.sum_subset hT fun j _ hj => if_neg (mt (hdirs j).1 hj)]
  exact Finset.sum_congr rfl fun j hj => if_pos ((hdirs j).2 hj)

/-- The link accounting of the file tree. -/
structure LinkInv (s : FsState) : Prop where
  /-- Every allocated inode's `nlink` is its link count. -/
  nlink : ∀ i, 0 < i → i < s.sb.ninodes → (dinode s i).type ≠ 0 →
    (dinode s i).nlink.toInt = linkCount s i
  /-- Every live entry of a reachable directory names an allocated inode. -/
  named : ∀ j de, Reach s j → (dinode s j).type = T_DIR → de ∈ entries s.disk (dinode s j) →
    de.inum ≠ 0 → (dinode s de.inum.toNat).type ≠ 0
  /-- Every allocated inode is reachable or has an entry with references in the inode table. -/
  held : ∀ i, 0 < i → i < s.sb.ninodes → (dinode s i).type ≠ 0 →
    Reach s i ∨ ∃ e, 0 < (s.inode e).ref ∧ (s.inode e).inum = i

/-! ## The failing run -/

/-- Directory entry bytes as `dirlink` writes them. -/
def direntBytes (inum : UInt16) (name : List UInt8) : List UInt8 :=
  Dirent.toBytes ⟨inum, strncpy name DIRSIZ⟩

/-- The root (inode 1, in block 46): `.`, `..` and `d`; it has `nlink = 2`, one for its own
`..` and one for `d`'s. -/
def treeRoot : DInode := ⟨T_DIR, 0, 0, 2, 48, fun k => if k.val = 0 then 46 else 0⟩

/-- The directory `d` (inode 2, in block 47): `.` and `..`. -/
def treeD : DInode := ⟨T_DIR, 0, 0, 1, 32, fun k => if k.val = 0 then 47 else 0⟩

/-- The disk of a file system of 2000 blocks whose tree is `/` and `/d`. -/
def treeDisk : Disk := fun b =>
  if b = 32 then setDinodeAt (setDinodeAt (fun _ => 0) 1 treeRoot) 2 treeD
  else if b = 45 then fun i => if i.val < 6 then 0xFF else 0
  else if b = 46 then Bytes.setBytes (fun _ => 0) 0
    (direntBytes 1 dot ++ direntBytes 1 dotdot ++ direntBytes 2 [100])
  else if b = 47 then Bytes.setBytes (fun _ => 0) 0 (direntBytes 2 dot ++ direntBytes 1 dotdot)
  else fun _ => 0

/-- An unused slot of the process table. -/
def treeProc : Proc := ⟨.UNUSED, none, 0, 0, 0, none, 0, 0, 0, fun _ => none, none⟩

/-- The kernel state: process 0 runs with working directory `/d`, held by inode-table entry 0. -/
def treeState : KState :=
  ⟨⟨⟨FSMAGIC, 2000, 1954, 200, 30, 2, 32, 45⟩, treeDisk,
      fun i => if i.val = 0 then ⟨ROOTDEV, 2, 1, false, DInode.zero⟩ else ⟨0, 0, 0, false, DInode.zero⟩,
      []⟩,
    fun _ => ⟨.FD_NONE, 0, false, false, 0, none, 0, 0⟩,
    fun p => if p.val = 0 then { treeProc with state := .RUNNING, pid := 1, cwd := some ⟨0, NINODE_pos⟩ }
      else treeProc,
    ⟨fun _ _ => 0, 0, 0, 0⟩, 2, some ⟨0, NPROC_pos⟩⟩

/-- Process 0 unlinks its working directory `/d`, then creates `f` in it. -/
def unlinkCwdThenCreate : KM (List Int) := do
  let r₁ ← Sysfile.sys_unlink ⟨0, NPROC_pos⟩ [47, 100]
  let r₂ ← Sysfile.sys_open ⟨0, NPROC_pos⟩ [102] (O_CREATE ||| O_RDWR)
  pure [r₁, r₂]

/-- The tree `/`, `/d` keeps the link accounting. -/
theorem treeState_linkInv : LinkInv treeState.fs := by
  have hdir1 : (dinode treeState.fs ROOTINO).type = T_DIR := by decide +kernel
  have hdir2 : (dinode treeState.fs 2).type = T_DIR := by decide +kernel
  have hroot : entries treeState.fs.disk (dinode treeState.fs ROOTINO) =
      [⟨1, strncpy dot DIRSIZ⟩, ⟨1, strncpy dotdot DIRSIZ⟩, ⟨2, strncpy [100] DIRSIZ⟩] := by
    decide +kernel
  have hd : entries treeState.fs.disk (dinode treeState.fs 2) =
      [⟨2, strncpy dot DIRSIZ⟩, ⟨1, strncpy dotdot DIRSIZ⟩] := by
    decide +kernel
  -- the only allocated inodes are `/` and `/d` ...
  have halloc : ∀ i, i < 200 → (dinode treeState.fs i).type ≠ 0 → i = ROOTINO ∨ i = 2 := by
    decide +kernel
  -- ... and both are reachable, `/d` through the root's third entry
  have hreach : ∀ j, Reach treeState.fs j ↔ j = ROOTINO ∨ j = 2 := by
    intro j
    constructor
    · intro h
      refine Reach.subset (.inl rfl) ?_ h
      intro i de hi _ hmem
      rcases hi with rfl | rfl
      · rw [hroot] at hmem
        revert de
        decide +kernel
      · rw [hd] at hmem
        revert de
        decide +kernel
    · rintro (rfl | rfl)
      · exact .root
      · have hmem : (⟨2, strncpy [100] DIRSIZ⟩ : Dirent) ∈
            entries treeState.fs.disk (dinode treeState.fs ROOTINO) := by
          rw [hroot]
          exact List.mem_cons_of_mem _ (List.mem_cons_of_mem _ List.mem_cons_self)
        exact Reach.child .root hdir1 hmem (by decide +kernel)
  have hdirs : ∀ j, (Reach treeState.fs j ∧ (dinode treeState.fs j).type = T_DIR) ↔
      j ∈ ({ROOTINO, 2} : Finset Nat) := by
    intro j
    rw [hreach, Finset.mem_insert, Finset.mem_singleton]
    constructor
    · exact And.left
    · rintro (rfl | rfl)
      · exact ⟨.inl rfl, hdir1⟩
      · exact ⟨.inr rfl, hdir2⟩
  refine ⟨?_, ?_, ?_⟩
  · intro i _ hi htype
    rw [linkCount_eq_sum (by decide) hdirs, Finset.sum_pair (by decide), hroot, hd]
    rcases halloc i hi htype with rfl | rfl <;> decide +kernel
  · intro j de hj _ hmem
    rcases (hreach j).1 hj with rfl | rfl
    · rw [hroot] at hmem
      revert de
      decide +kernel
    · rw [hd] at hmem
      revert de
      decide +kernel
  · intro i _ hi htype
    exact .inl ((hreach i).2 (halloc i hi htype))

/-- Unlinking the working directory `/d` and creating `f` in it both succeed, from a tree that
keeps the link accounting, and leave `f` allocated with `nlink = 1` and no entry in a reachable
directory. -/
theorem create_in_unlinked_cwd :
    LinkInv treeState.fs ∧
      ∃ k', unlinkCwdThenCreate.run treeState = .ok ([0, 0], k') ∧ ¬LinkInv k'.fs := by
  refine ⟨treeState_linkInv, ?_⟩
  -- what the run leaves: the root's inode and block, and the new inode 3
  have hobs₁ : (unlinkCwdThenCreate.run treeState).map (fun r => (r.1,
      (dinode r.2.fs ROOTINO).type, (dinode r.2.fs ROOTINO).size, (dinode r.2.fs ROOTINO).addrs 0)) =
      .ok ([0, 0], T_DIR, 48, 46) := by
    decide +kernel
  have hobs₂ : (unlinkCwdThenCreate.run treeState).map (fun r =>
      ((r.2.fs.disk (46 : UInt32).toNat).getBytes 0 (48 : UInt32).toNat,
        (dinode r.2.fs 3).type, (dinode r.2.fs 3).nlink, r.2.fs.sb.ninodes)) =
      .ok (direntBytes 1 dot ++ direntBytes 1 dotdot ++ List.replicate 16 0, T_FILE, 1, 200) := by
    decide +kernel
  cases hrun : unlinkCwdThenCreate.run treeState with
  | error e =>
    rw [hrun] at hobs₁
    cases hobs₁
  | ok r =>
    obtain ⟨rs, k'⟩ := r
    rw [hrun] at hobs₁ hobs₂
    simp only [Except.map, Except.ok.injEq, Prod.mk.injEq] at hobs₁ hobs₂
    obtain ⟨rfl, hdir, hsize, haddr⟩ := hobs₁
    obtain ⟨hbytes, htype, hnlink, hninodes⟩ := hobs₂
    refine ⟨k', rfl, fun hinv => ?_⟩
    -- the root's entry for `d` is cleared
    have hroot : entries k'.fs.disk (dinode k'.fs ROOTINO) =
        [⟨1, strncpy dot DIRSIZ⟩, ⟨1, strncpy dotdot DIRSIZ⟩, ⟨0, List.replicate DIRSIZ 0⟩] := by
      rw [entries, content_of_le_BSIZE _ (by rw [hsize]; decide), haddr, hsize, hbytes]
      decide +kernel
    -- so the root is the only reachable inode
    have hdirs : ∀ j, (Reach k'.fs j ∧ (dinode k'.fs j).type = T_DIR) ↔
        j ∈ ({ROOTINO} : Finset Nat) := by
      intro j
      rw [Finset.mem_singleton]
      constructor
      · rintro ⟨h, -⟩
        refine Reach.subset rfl ?_ h
        rintro i de rfl _ hmem
        rw [hroot] at hmem
        revert de
        decide +kernel
      · rintro rfl
        exact ⟨.root, hdir⟩
    have hcount : linkCount k'.fs 3 = 0 := by
      rw [linkCount_eq_sum (by rw [hninodes]; decide) hdirs, Finset.sum_singleton, hroot]
      decide +kernel
    have h3 := hinv.nlink 3 (by decide) (by rw [hninodes]; decide) (by rw [htype]; decide)
    rw [hnlink, hcount] at h3
    exact absurd h3 (by decide)

end Fs

end Xv6
