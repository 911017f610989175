import Xv6.Fs.Links
import Xv6.Fs.FileBytes

/-!
# Directories as lists of entries

A directory's contents cut into `struct dirent`s are its `entries` (of `Xv6.Fs.Links`). On a
directory whose blocks satisfy `FileBlocks` and whose size is a whole number of entries
(`DirBlocks`), the two loops of `kernel/fs.c` over a directory are searches of that list:

* `dirlookup_spec`: `dirlookup` finds the first live entry for the name (`firstNamed`) and
  takes its inode with `iget`; the state is otherwise unchanged.
* `dirlinkLoop_eq`: the offset `dirlink` writes at is that of the first free entry, or the end
  of the directory (`freeSlot`).
* `dirlink_spec`: a `dirlink` that succeeds found no live entry for the name, wrote the new
  entry into that slot of the list, and kept `DirBlocks`; a `dirlookup` of the name then finds
  the new entry.

Both loops read one entry a round with `readi` (`DirBlocks.readi_entry`, from `readi_spec`), and
the write of `dirlink` is `writei_spec` at an entry boundary, which overwrites one entry of the
list (`Splice.map_range_chunks_splice`).
-/

namespace Xv6

@[simp] lemma length_strncpy (t : List UInt8) (n : Nat) : (strncpy t n).length = n := by
  induction n generalizing t with
  | zero => rfl
  | succ n ih =>
    by_cases h : t.headD 0 = 0
    · rw [strncpy, if_pos (beq_iff_eq.2 h), List.length_replicate]
    · rw [strncpy, if_neg (fun e => h (beq_iff_eq.1 e)), List.length_cons, ih]

/-- A name compares equal to its `strncpy` copy: the copy agrees with it up to its NUL, where
both read 0. -/
lemma strncmp_strncpy (p : List UInt8) (n : Nat) : strncmp p (strncpy p n) n = 0 := by
  induction n generalizing p with
  | zero => rfl
  | succ n ih =>
    by_cases h : p.headD 0 = 0
    · -- at the NUL the copy is zeros
      rw [strncpy, if_pos (beq_iff_eq.2 h), strncmp, if_neg (by rw [h]; simp), h]
      simp [List.replicate_succ]
    · rw [strncpy, if_neg (fun e => h (beq_iff_eq.1 e)), strncmp,
        if_pos (by rw [List.headD_cons]; simpa using h), List.tail_cons, ih]

/-- A live entry whose name is `name` under `namecmp`: where `dirlookup`'s loop stops. -/
def Dirent.names (de : Dirent) (name : List UInt8) : Bool :=
  de.inum != 0 && Fs.namecmp name de.name == 0

namespace Fs

open StateExcept Splice

/-! ## Entries, and the searches the loops make -/

/-- Entry `k` of the inode `d`: the `sizeofDirent` bytes of its contents from
`sizeofDirent * k`, decoded. -/
def entry (disk : Disk) (d : DInode) (k : Nat) : Dirent :=
  Dirent.ofBytes (((content disk d).drop (sizeofDirent * k)).take sizeofDirent)

lemma entries_eq (disk : Disk) (d : DInode) :
    entries disk d = (List.range (d.size.toNat / sizeofDirent)).map (entry disk d) := rfl

lemma drop_entries {disk : Disk} {d : DInode} {k : Nat} (hk : k < d.size.toNat / sizeofDirent) :
    (entries disk d).drop k = entry disk d k :: (entries disk d).drop (k + 1) := by
  rw [List.drop_eq_getElem_cons (by simpa [entries_eq] using hk)]
  simp [entries_eq]

lemma drop_entries_of_le {disk : Disk} {d : DInode} {k : Nat}
    (hk : d.size.toNat / sizeofDirent ≤ k) : (entries disk d).drop k = [] :=
  List.drop_eq_nil_of_le (by simpa [entries_eq] using hk)

/-- The first live entry for `name` among `des`, numbered from `k`, with its number. -/
def firstNamed (name : List UInt8) (des : List Dirent) (k : Nat) : Option (Dirent × Nat) :=
  (des.zipIdx k).find? fun e => e.1.names name

lemma firstNamed_cons (name : List UInt8) (de : Dirent) (des : List Dirent) (k : Nat) :
    firstNamed name (de :: des) k =
      if de.names name then some (de, k) else firstNamed name des (k + 1) := by
  simp only [firstNamed, List.zipIdx_cons, List.find?_cons]
  cases de.names name <;> rfl

lemma firstNamed_append (name : List UInt8) (l₁ l₂ : List Dirent) (k : Nat) :
    firstNamed name (l₁ ++ l₂) k = (firstNamed name l₁ k).or (firstNamed name l₂ (k + l₁.length)) := by
  simp only [firstNamed, List.zipIdx_append, List.find?_append]

/-- With no live entry for `name` in `des`, an entry for it written into slot `i` is the first. -/
lemma firstNamed_splice {name : List UInt8} {des : List Dirent} {de : Dirent} {i : Nat}
    (hnone : firstNamed name des 0 = none) (hde : de.names name) (hi : i ≤ des.length) :
    firstNamed name (splice des i [de]) 0 = some (de, i) := by
  have htake : firstNamed name (des.take i) 0 = none := by
    rw [← List.take_append_drop i des, firstNamed_append] at hnone
    exact (Option.or_eq_none_iff.1 hnone).1
  rw [splice, List.append_assoc, firstNamed_append, htake, Option.none_or, List.singleton_append,
    firstNamed_cons, if_pos hde, List.length_take_of_le hi, Nat.zero_add]

/-- The number of the first free entry of `des`, or `des.length` if none is free: the slot
`dirlink` writes. -/
def freeSlot (des : List Dirent) : Nat := des.findIdx fun de => de.inum == 0

lemma freeSlot_cons (de : Dirent) (des : List Dirent) :
    freeSlot (de :: des) = if de.inum = 0 then 0 else freeSlot des + 1 := by
  simp only [freeSlot, List.findIdx_cons]
  by_cases h : de.inum = 0
  · simp [h]
  · rw [if_neg h, beq_false_of_ne h, cond_false]

/-- What `dirlookup` makes of the entry it found, numbered `k`: its inode from `iget`, and its
offset. -/
def lookupResult (dev : Nat) : Option (Dirent × Nat) → FsM (Option (Fin NINODE × UInt32))
  | some (de, k) => do
    let ip ← iget dev de.inum.toNat
    pure (some (ip, UInt32.ofNat (sizeofDirent * k)))
  | none => pure none

/-- The offset after entry `k`. -/
lemma entryOff_succ (k : Nat) :
    UInt32.ofNat (sizeofDirent * k) + direntSize = UInt32.ofNat (sizeofDirent * (k + 1)) := by
  rw [Nat.mul_succ, UInt32.ofNat_add]
  rfl

/-! ## Directories whose blocks are well formed -/

/-- A directory whose blocks satisfy `FileBlocks` and whose size is a whole number of entries. -/
structure DirBlocks (s : FsState) (dp : Fin NINODE) : Prop where
  blocks : FileBlocks s dp (s.inode dp).di.size.toNat
  dir : (s.inode dp).di.type = T_DIR
  aligned : (s.inode dp).di.size.toNat % sizeofDirent = 0

variable {s s' : FsState} {dp : Fin NINODE} {name : List UInt8}

/-- The offset of an entry up to the end of a directory does not wrap. -/
lemma toNat_entryOff {k : Nat} (hk : k ≤ (s.inode dp).di.size.toNat / sizeofDirent) :
    (UInt32.ofNat (sizeofDirent * k)).toNat = sizeofDirent * k := by
  have := (s.inode dp).di.size.toNat_lt
  rw [sizeofDirent_eq] at hk ⊢
  exact UInt32.toNat_ofNat_of_lt' (by rw [UInt32.size]; omega)

namespace DirBlocks

variable (hd : DirBlocks s dp)
include hd

lemma entryOff_lt_iff {k : Nat} (hk : k ≤ (s.inode dp).di.size.toNat / sizeofDirent) :
    UInt32.ofNat (sizeofDirent * k) < (s.inode dp).di.size ↔
      k < (s.inode dp).di.size.toNat / sizeofDirent := by
  have := hd.aligned
  rw [UInt32.lt_iff_toNat_lt, toNat_entryOff hk]
  rw [sizeofDirent_eq] at this ⊢
  omega

/-- `readi` of an entry inside the directory reads all of its bytes and changes nothing. -/
lemma readi_entry {k : Nat} (hk : k < (s.inode dp).di.size.toNat / sizeofDirent) :
    (readi dp (.kernel []) (UInt32.ofNat (sizeofDirent * k)) direntSize).run s =
      .ok ((((sizeofDirent : Nat) : Int),
        .kernel (((content s.disk (s.inode dp).di).drop (sizeofDirent * k)).take sizeofDirent)), s) := by
  have hoff := toNat_entryOff hk.le
  have hn : direntSize.toNat = sizeofDirent := rfl
  have hend : sizeofDirent * k + sizeofDirent ≤ (s.inode dp).di.size.toNat := by
    rw [sizeofDirent_eq] at hk ⊢
    omega
  have hlt := (s.inode dp).di.size.toNat_lt
  have hle : UInt32.ofNat (sizeofDirent * k) ≤ (s.inode dp).di.size := by
    rw [UInt32.le_iff_toNat_le, hoff]
    omega
  have hwrap : UInt32.ofNat (sizeofDirent * k) ≤ UInt32.ofNat (sizeofDirent * k) + direntSize := by
    rw [UInt32.le_iff_toNat_le, toNat_add_of_lt (by rw [hoff, hn]; omega), hoff, hn]
    omega
  rw [readi_spec hd.blocks hle hwrap, hoff, hn]
  congr
  omega

end DirBlocks

/-! ## `dirlookup` -/

/-- One round of `dirlookup`'s loop, at entry `k` inside the directory. -/
lemma dirlookupLoop_entry (hd : DirBlocks s dp) {k : Nat}
    (hk : k < (s.inode dp).di.size.toNat / sizeofDirent) (fuel : Nat) :
    (dirlookupLoop dp name (fuel + 1) (UInt32.ofNat (sizeofDirent * k))).run s =
      if (entry s.disk (s.inode dp).di k).names name then
        (lookupResult (s.inode dp).dev (some (entry s.disk (s.inode dp).di k, k))).run s
      else (dirlookupLoop dp name fuel (UInt32.ofNat (sizeofDirent * (k + 1)))).run s := by
  -- the entry the round decodes is entry `k`, and its two tests are those of `Dirent.names`
  have he : Dirent.ofBytes (Dst.kernel (((content s.disk (s.inode dp).di).drop (sizeofDirent * k)).take
      sizeofDirent)).kernelBuf = entry s.disk (s.inode dp).di k := rfl
  simp only [dirlookupLoop, run_get_bind, (hd.entryOff_lt_iff hk.le).2 hk, ↓reduceIte,
    run_bind_of_eq_ok (hd.readi_entry hk), bne_self_eq_false, Bool.false_eq_true, entryOff_succ, he]
  by_cases h0 : (entry s.disk (s.inode dp).di k).inum = 0
  · simp [Dirent.names, h0]
  · by_cases hn : namecmp name (entry s.disk (s.inode dp).di k).name = 0
    · simp [Dirent.names, h0, hn, lookupResult]
    · simp [Dirent.names, h0, hn]

/-- Past the last entry the loop ends. -/
lemma dirlookupLoop_end (hd : DirBlocks s dp) (fuel : Nat) :
    (dirlookupLoop dp name fuel
      (UInt32.ofNat (sizeofDirent * ((s.inode dp).di.size.toNat / sizeofDirent)))).run s =
      .ok (none, s) := by
  cases fuel with
  | zero => rfl
  | succ fuel =>
    simp only [dirlookupLoop, run_get_bind, hd.entryOff_lt_iff le_rfl, lt_irrefl, ↓reduceIte,
      run_pure]

/-- `dirlookup`'s loop from entry `k`, with a round for every entry left: the first live entry
for `name` from `k` on. -/
theorem dirlookupLoop_eq (hd : DirBlocks s dp) (name : List UInt8) :
    ∀ fuel k, (s.inode dp).di.size.toNat / sizeofDirent - k < fuel →
      k ≤ (s.inode dp).di.size.toNat / sizeofDirent →
      (dirlookupLoop dp name fuel (UInt32.ofNat (sizeofDirent * k))).run s =
        (lookupResult (s.inode dp).dev
          (firstNamed name ((entries s.disk (s.inode dp).di).drop k) k)).run s
  | 0, _, hf, _ => absurd hf (Nat.not_lt_zero _)
  | fuel + 1, k, hf, hk => by
    rcases Nat.lt_or_ge k ((s.inode dp).di.size.toNat / sizeofDirent) with hlt | hge
    · rw [dirlookupLoop_entry hd hlt, drop_entries hlt, firstNamed_cons]
      by_cases hn : (entry s.disk (s.inode dp).di k).names name
      · rw [if_pos hn, if_pos hn]
      · rw [if_neg hn, if_neg hn, dirlookupLoop_eq hd name fuel (k + 1) (by omega) hlt]
    · -- at the end: no entry is left to search
      obtain rfl := le_antisymm hk hge
      rw [dirlookupLoop_end hd, drop_entries_of_le le_rfl]
      rfl

/-- A directory's `dirlookup` is its loop from offset 0, with a round per entry and one more. -/
lemma dirlookup_eq_loop (hdir : (s.inode dp).di.type = T_DIR) :
    (dirlookup dp name).run s =
      (dirlookupLoop dp name ((s.inode dp).di.size.toNat / sizeofDirent + 1) 0).run s := by
  simp only [dirlookup, run_get_bind, hdir, bne_self_eq_false, Bool.false_eq_true, ↓reduceIte]

lemma dirlookupLoop_zero_eq (hd : DirBlocks s dp) :
    (dirlookupLoop dp name ((s.inode dp).di.size.toNat / sizeofDirent + 1) 0).run s =
      (lookupResult (s.inode dp).dev (firstNamed name (entries s.disk (s.inode dp).di) 0)).run s := by
  have := dirlookupLoop_eq hd name ((s.inode dp).di.size.toNat / sizeofDirent + 1) 0
    (Nat.lt_succ_of_le (Nat.sub_le _ _)) (Nat.zero_le _)
  rwa [Nat.mul_zero, List.drop_zero] at this

/-- `dirlookup` of a well-formed directory: the first live entry for `name`, its inode taken by
`iget`, and its offset; nothing when there is none, and then the state is unchanged. -/
theorem dirlookup_spec (hd : DirBlocks s dp) (name : List UInt8) :
    (dirlookup dp name).run s =
      (lookupResult (s.inode dp).dev (firstNamed name (entries s.disk (s.inode dp).di) 0)).run s := by
  rw [dirlookup_eq_loop hd.dir, dirlookupLoop_zero_eq hd]

/-! ## `dirlink` -/

/-- One round of `dirlink`'s loop, at entry `k` inside the directory. -/
lemma dirlinkLoop_entry (hd : DirBlocks s dp) {k : Nat}
    (hk : k < (s.inode dp).di.size.toNat / sizeofDirent) (fuel : Nat) :
    (dirlinkLoop dp (fuel + 1) (UInt32.ofNat (sizeofDirent * k))).run s =
      if (entry s.disk (s.inode dp).di k).inum = 0 then .ok (UInt32.ofNat (sizeofDirent * k), s)
      else (dirlinkLoop dp fuel (UInt32.ofNat (sizeofDirent * (k + 1)))).run s := by
  have he : Dirent.ofBytes (Dst.kernel (((content s.disk (s.inode dp).di).drop (sizeofDirent * k)).take
      sizeofDirent)).kernelBuf = entry s.disk (s.inode dp).di k := rfl
  simp only [dirlinkLoop, run_get_bind, (hd.entryOff_lt_iff hk.le).2 hk, ↓reduceIte,
    run_bind_of_eq_ok (hd.readi_entry hk), bne_self_eq_false, Bool.false_eq_true, entryOff_succ, he]
  by_cases h0 : (entry s.disk (s.inode dp).di k).inum = 0
  · rw [if_pos (beq_iff_eq.2 h0), if_pos h0]
    rfl
  · rw [if_neg (fun e => h0 (beq_iff_eq.1 e)), if_neg h0]

lemma dirlinkLoop_end (hd : DirBlocks s dp) (fuel : Nat) :
    (dirlinkLoop dp fuel (UInt32.ofNat (sizeofDirent * ((s.inode dp).di.size.toNat / sizeofDirent)))).run s =
      .ok (UInt32.ofNat (sizeofDirent * ((s.inode dp).di.size.toNat / sizeofDirent)), s) := by
  cases fuel with
  | zero => rfl
  | succ fuel =>
    simp only [dirlinkLoop, run_get_bind, hd.entryOff_lt_iff le_rfl, lt_irrefl, ↓reduceIte, run_pure]

/-- `dirlink`'s loop from entry `k`, with a round for every entry left: the offset of the first
free entry from `k` on, or of the end. -/
theorem dirlinkLoop_eq (hd : DirBlocks s dp) :
    ∀ fuel k, (s.inode dp).di.size.toNat / sizeofDirent - k < fuel →
      k ≤ (s.inode dp).di.size.toNat / sizeofDirent →
      (dirlinkLoop dp fuel (UInt32.ofNat (sizeofDirent * k))).run s =
        .ok (UInt32.ofNat (sizeofDirent * (k + freeSlot ((entries s.disk (s.inode dp).di).drop k))), s)
  | 0, _, hf, _ => absurd hf (Nat.not_lt_zero _)
  | fuel + 1, k, hf, hk => by
    rcases Nat.lt_or_ge k ((s.inode dp).di.size.toNat / sizeofDirent) with hlt | hge
    · rw [dirlinkLoop_entry hd hlt, drop_entries hlt, freeSlot_cons]
      by_cases h0 : (entry s.disk (s.inode dp).di k).inum = 0
      · rw [if_pos h0, if_pos h0, Nat.add_zero]
      · rw [if_neg h0, if_neg h0, dirlinkLoop_eq hd fuel (k + 1) (by omega) hlt, Nat.add_assoc,
          Nat.add_comm 1]
    · obtain rfl := le_antisymm hk hge
      rw [dirlinkLoop_end hd, drop_entries_of_le le_rfl]
      rfl

/-- The entry `dirlink(dp, name, inum)` writes. -/
def linkEntry (name : List UInt8) (inum : Nat) : Dirent := ⟨UInt16.ofNat inum, strncpy name DIRSIZ⟩

lemma linkEntry_names (name : List UInt8) {inum : Nat} (h0 : 0 < inum) (h1 : inum < 2 ^ 16) :
    (linkEntry name inum).names name := by
  have hinum : (UInt16.ofNat inum).toNat = inum := UInt16.toNat_ofNat_of_lt' h1
  have hne : UInt16.ofNat inum ≠ 0 := fun h => by
    rw [h, UInt16.toNat_zero] at hinum
    omega
  simp [Dirent.names, linkEntry, hne, namecmp, strncmp_strncpy]

/-- The bytes `dirlink` writes decode to its entry. -/
lemma ofBytes_linkEntry (name : List UInt8) (inum : Nat) :
    Dirent.ofBytes (linkEntry name inum).toBytes = linkEntry name inum :=
  Dirent.ofBytes_toBytes _ (length_strncpy name DIRSIZ)

/-- A `dirlink` of `name` to inode `inum` that succeeds, in a directory whose blocks satisfy
`DirBlocks`: the directory had no live entry for `name`; the new entry went into the first free
slot, or was appended; `DirBlocks` holds after; and a `dirlookup` of `name` finds the new
entry, and `iget`s inode `inum`. -/
theorem dirlink_spec {inum : Nat} (hd : DirBlocks s dp) (h0 : 0 < inum) (h1 : inum < 2 ^ 16)
    (h : (dirlink dp name inum).run s = .ok (0, s')) :
    firstNamed name (entries s.disk (s.inode dp).di) 0 = none ∧ DirBlocks s' dp ∧
      entries s'.disk (s'.inode dp).di =
        splice (entries s.disk (s.inode dp).di) (freeSlot (entries s.disk (s.inode dp).di))
          [linkEntry name inum] ∧
      (dirlookup dp name).run s' =
        (do
          let ip ← iget (s.inode dp).dev inum
          pure (some (ip, UInt32.ofNat (sizeofDirent * freeSlot (entries s.disk (s.inode dp).di))))).run s' := by
  obtain ⟨r, s₁, hlook, h⟩ := run_bind_eq_ok.1 h
  cases r with
  | some p =>
    -- a name that is there already is refused
    obtain ⟨_, _, -, h⟩ := run_bind_eq_ok.1 h
    exact absurd (Except.ok.inj h) (by simp)
  | none =>
    -- the lookup found no entry for `name`, and changed nothing
    rw [dirlookup_eq_loop hd.dir, dirlookupLoop_zero_eq hd] at hlook
    have hnone : firstNamed name (entries s.disk (s.inode dp).di) 0 = none := by
      cases hf : firstNamed name (entries s.disk (s.inode dp).di) 0 with
      | none => rfl
      | some p =>
        rw [hf] at hlook
        obtain ⟨_, _, -, hlook⟩ := run_bind_eq_ok.1 hlook
        exact absurd (Except.ok.inj hlook) (by simp)
    rw [hnone] at hlook
    obtain rfl : s = s₁ := (Prod.mk.inj (Except.ok.inj hlook)).2
    -- the slot is the first free entry, or the end
    have hlink : (dirlinkLoop dp ((s.inode dp).di.size.toNat / sizeofDirent + 1) 0).run s =
        .ok (UInt32.ofNat (sizeofDirent * freeSlot (entries s.disk (s.inode dp).di)), s) := by
      have := dirlinkLoop_eq hd ((s.inode dp).di.size.toNat / sizeofDirent + 1) 0
        (Nat.lt_succ_of_le (Nat.sub_le _ _)) (Nat.zero_le _)
      rwa [Nat.mul_zero, List.drop_zero, Nat.zero_add] at this
    simp only at h
    rw [run_get_bind, run_bind_of_eq_ok hlink] at h
    obtain ⟨r, s₂, hw, h⟩ := run_bind_eq_ok.1 h
    have hr : r = sizeofDirent := by
      by_contra hne
      rw [if_pos (bne_iff_ne.2 hne)] at h
      exact absurd (Except.ok.inj h) (by simp)
    simp only [hr, bne_self_eq_false, Bool.false_eq_true, ↓reduceIte] at h
    obtain rfl : s' = s₂ := (Prod.mk.inj (Except.ok.inj h)).2.symm
    -- the write of the entry's 16 bytes at the slot
    have hw' : (writei dp (.kernel (linkEntry name inum).toBytes)
        (UInt32.ofNat (sizeofDirent * freeSlot (entries s.disk (s.inode dp).di))) direntSize).run s =
        .ok ((direntSize.toNat : Int), s') := by
      rw [hr] at hw
      exact hw
    have hslot : freeSlot (entries s.disk (s.inode dp).di) ≤ (entries s.disk (s.inode dp).di).length :=
      List.findIdx_le_length
    have hi : freeSlot (entries s.disk (s.inode dp).di) ≤ (s.inode dp).di.size.toNat / sizeofDirent := by
      simpa [entries_eq] using hslot
    obtain ⟨-, -, -, hbytes, hb', -, addrs, hinode⟩ := writei_spec hd.blocks hw'
    have hsize := writei_size hd.blocks hw'
    have hn : direntSize.toNat = sizeofDirent := rfl
    rw [toNat_entryOff hi, hn] at hsize hbytes
    have hentry : (s'.inode dp).di.type = (s.inode dp).di.type ∧ (s'.inode dp).dev = (s.inode dp).dev := by
      rw [hinode, Function.update_self]
      exact ⟨rfl, rfl⟩
    have hal := hd.aligned
    have hd' : DirBlocks s' dp := by
      refine ⟨hb', hentry.1.trans hd.dir, ?_⟩
      rw [hsize]
      rw [sizeofDirent_eq] at hal ⊢
      omega
    -- the bytes written decode to the entry, and fill slot `freeSlot` of the list
    have hlen : (linkEntry name inum).toBytes.length = sizeofDirent := by
      simp [linkEntry, DIRSIZ, sizeofDirent]
    have hbuf : ((Src.kernel (linkEntry name inum).toBytes).copyin 0 sizeofDirent).2 =
        (linkEntry name inum).toBytes := by
      rw [← hlen, Src.copyin_kernel_length]
    have hl : (content s.disk (s.inode dp).di).length =
        sizeofDirent * ((s.inode dp).di.size.toNat / sizeofDirent) := by
      rw [length_content]
      rw [sizeofDirent_eq] at hal ⊢
      omega
    have hcount : (s'.inode dp).di.size.toNat / sizeofDirent =
        max ((s.inode dp).di.size.toNat / sizeofDirent) (freeSlot (entries s.disk (s.inode dp).di) + 1) := by
      rw [hsize]
      rw [sizeofDirent_eq] at hal ⊢
      omega
    have hent : entries s'.disk (s'.inode dp).di =
        splice (entries s.disk (s.inode dp).di) (freeSlot (entries s.disk (s.inode dp).di))
          [linkEntry name inum] := by
      show (List.range _).map (fun k => Dirent.ofBytes
        (((content s'.disk (s'.inode dp).di).drop (sizeofDirent * k)).take sizeofDirent)) = _
      rw [hcount, hbytes, hbuf, map_range_chunks_splice Dirent.ofBytes hl hi hlen, ofBytes_linkEntry]
      rfl
    refine ⟨hnone, hd', hent, ?_⟩
    -- the lookup now stops at the new entry: none before it has the name
    rw [dirlookup_eq_loop hd'.dir, dirlookupLoop_zero_eq hd', hent,
      firstNamed_splice hnone (linkEntry_names name h0 h1) hslot, hentry.2]
    simp only [lookupResult, linkEntry, UInt16.toNat_ofNat_of_lt' h1]

/-! ## A directory to run them on -/

/-- Inode 1: a directory of three entries in block 46, `.`, `..` and `d` (inode 2). -/
def dirInode : DInode := ⟨T_DIR, 0, 0, 1, 48, fun k => if k.val = 0 then 46 else 0⟩

/-- The disk: inode 1 in its slot of block 32, blocks 0 to 46 in use in the bitmap (block 45),
and the directory's entries in block 46. -/
def dirDisk : Disk := fun b =>
  if b = 32 then setDinodeAt (fun _ => 0) 1 dirInode
  else if b = 45 then fun i => if i.val < 5 then 0xFF else if i.val = 5 then 0x7F else 0
  else if b = 46 then Bytes.setBytes (fun _ => 0) 0
    ((linkEntry dot 1).toBytes ++ (linkEntry dotdot 1).toBytes ++ (linkEntry [100] 2).toBytes)
  else fun _ => 0

/-- Inode-table entry 0 holds the directory, locked (`valid`). -/
def dirState : FsState :=
  ⟨⟨FSMAGIC, 2000, 1954, 200, 30, 2, 32, 45⟩, dirDisk,
    fun i => if i.val = 0 then ⟨ROOTDEV, 1, 1, true, dirInode⟩ else ⟨0, 0, 0, false, DInode.zero⟩, []⟩

/-- The entry of the directory. -/
def dirIp : Fin NINODE := ⟨0, NINODE_pos⟩

theorem dirBlocks_dirState : DirBlocks dirState dirIp :=
  ⟨FileBlocks.of_direct (by decide) (by decide) (by decide) (by decide) (by decide) (by decide)
    (by decide) (by decide) (by decide), by decide, by decide⟩

/-- A lookup of `d` stops at its entry, the third. -/
theorem dirlookup_spec_d :
    firstNamed [100] (entries dirState.disk (dirState.inode dirIp).di) 0 = some (linkEntry [100] 2, 2) ∧
      (dirlookup dirIp [100]).run dirState =
        (lookupResult ROOTDEV (some (linkEntry [100] 2, 2))).run dirState := by
  have hf : firstNamed [100] (entries dirState.disk (dirState.inode dirIp).di) 0 =
      some (linkEntry [100] 2, 2) := by
    decide
  refine ⟨hf, ?_⟩
  rw [dirlookup_spec dirBlocks_dirState, hf]
  rfl

/-- Linking `e` to inode 3 appends its entry after the three there, and a lookup of `e` then finds
it at offset 48. -/
theorem dirlink_spec_e :
    ∃ s', (dirlink dirIp [101] 3).run dirState = .ok (0, s') ∧
      entries s'.disk (s'.inode dirIp).di =
        entries dirState.disk (dirState.inode dirIp).di ++ [linkEntry [101] 3] ∧
      (dirlookup dirIp [101]).run s' = (do
        let ip ← iget ROOTDEV 3
        pure (some (ip, 48))).run s' := by
  obtain ⟨s', h⟩ : ∃ s', (dirlink dirIp [101] 3).run dirState = .ok (0, s') := ⟨_, rfl⟩
  obtain ⟨-, -, hent, hlook⟩ := dirlink_spec dirBlocks_dirState (by decide) (by decide) h
  have hslot : freeSlot (entries dirState.disk (dirState.inode dirIp).di) = 3 := by decide
  have happ : splice (entries dirState.disk (dirState.inode dirIp).di) 3 [linkEntry [101] 3] =
      entries dirState.disk (dirState.inode dirIp).di ++ [linkEntry [101] 3] := by
    decide
  rw [hslot] at hent hlook
  exact ⟨s', h, hent.trans happ, hlook⟩

end Fs

end Xv6
