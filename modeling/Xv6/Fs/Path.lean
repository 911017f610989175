import Xv6.Fs.Links
import Xv6.Fs.Directory

/-!
# Path names as lists of components

`namex` walks a path with `skipelem`. This module gives a path a meaning of its own, its
`components`: the maximal runs of bytes other than `'/'` before its NUL, each cut to `DIRSIZ`
bytes, as `runs` scans them with the open run as its carry. Iterating `skipelem` stops and
yields exactly the components (`skipelems_eq_components`).

`resolve` states what `namex` does with a list of components: lock the inode reached, fail on
one that is not a directory, and go on to the inode `dirlookup` finds for the component; for
`nameiparent`, stop before the last one. In a well-formed directory that inode is the one of the
first live entry whose name equals the component under `namecmp` (`run_resolve_dir`). `namex` is `resolve` over the components, from the
root for a path that starts with `'/'` and from the working directory otherwise
(`namex_eq_resolve`), so a path matters only through that choice and its components.
`nameiparent` of a path whose components are `cs ++ [c]` resolves `cs` as `namei` does, then
checks that what it reached is a directory, and names `c` (`resolve_parent_append`).
-/

namespace Xv6

namespace Fs


/-! ## Components -/

/-- The runs of bytes other than `'/'` in `path` up to its NUL; `cur` is the run open so far. -/
def runs : List UInt8 → List UInt8 → List (List UInt8)
  | [], cur => if cur = [] then [] else [cur]
  | c :: path, cur =>
    if c = 0 then (if cur = [] then [] else [cur])
    else if c = slash then (if cur = [] then runs path [] else cur :: runs path [])
    else runs path (cur ++ [c])

/-- The components of a path: its runs, each cut to the `DIRSIZ` bytes `skipelem` copies. -/
def components (path : List UInt8) : List (List UInt8) := (runs path []).map (·.take DIRSIZ)

example : components [47, 47, 97, 47, 98, 98, 47, 47] = [[97], [98, 98]] := by decide

/-- Leading slashes open no run. -/
lemma runs_dropWhile (path : List UInt8) : runs (path.dropWhile (· == slash)) [] = runs path [] := by
  induction path with
  | nil => rfl
  | cons c path ih =>
    by_cases hc : c = slash
    · subst hc
      simp only [List.dropWhile_cons, beq_self_eq_true, ↓reduceIte, ih]
      simp [runs, slash]
    · simp [hc]

/-- Bytes other than `'/'` and NUL join the open run. -/
lemma runs_append_of_forall {elem : List UInt8} (h : ∀ c ∈ elem, c ≠ slash ∧ c ≠ 0)
    (rest cur : List UInt8) : runs (elem ++ rest) cur = runs rest (cur ++ elem) := by
  induction elem generalizing cur with
  | nil => simp
  | cons c elem ih =>
    obtain ⟨hs, h0⟩ := h c List.mem_cons_self
    simp only [List.cons_append, runs, h0, hs, ↓reduceIte]
    rw [ih (fun c hc => h c (List.mem_cons_of_mem _ hc))]
    simp

/-- A `'/'`, a NUL or the end closes the open run. -/
lemma runs_stop {elem : List UInt8} (he : elem ≠ []) :
    ∀ {rest : List UInt8}, (∀ c, rest.head? = some c → c = slash ∨ c = 0) →
      runs rest elem = elem :: runs (rest.dropWhile (· == slash)) []
  | [], _ => by simp [runs, he]
  | c :: rest, h => by
    rcases h c rfl with rfl | rfl
    · rw [List.dropWhile_cons_of_pos (by simp), runs_dropWhile]
      simp [runs, he, slash]
    · simp [runs, he, slash]

/-! ### What one `skipelem` does -/

lemma drop_length_takeWhile (p : UInt8 → Bool) (l : List UInt8) :
    l.drop (l.takeWhile p).length = l.dropWhile p := by
  induction l with
  | nil => rfl
  | cons c l ih => by_cases h : p c <;> simp [h, ih]

lemma dropWhile_dropWhile (p : UInt8 → Bool) (l : List UInt8) :
    (l.dropWhile p).dropWhile p = l.dropWhile p := by
  induction l with
  | nil => rfl
  | cons c l ih => by_cases h : p c <;> simp [h, ih]

/-- A path on which `skipelem` finds no element has no components. -/
lemma components_of_skipelem_none {path : List UInt8} (h : skipelem path = none) :
    components path = [] := by
  unfold skipelem at h
  dsimp only at h
  rw [components, ← runs_dropWhile]
  split at h
  · rename_i h0
    cases hp : path.dropWhile (· == slash) with
    | nil => rfl
    | cons c t =>
      rw [hp] at h0
      simp only [List.headD_cons, beq_iff_eq] at h0
      simp [runs, h0]
  · cases h

/-- The element `skipelem` returns is the first component, and the rest it returns is shorter
than the path, holds the other components, and does not start with `'/'`. -/
theorem components_of_skipelem_some {path rest name : List UInt8}
    (h : skipelem path = some (rest, name)) :
    components path = name :: components rest ∧ rest.length < path.length ∧
      rest.dropWhile (· == slash) = rest := by
  unfold skipelem at h
  dsimp only at h
  split at h
  · cases h
  rename_i h0
  simp only [Option.some.injEq, Prod.mk.injEq] at h
  obtain ⟨rfl, rfl⟩ := h
  generalize hp : path.dropWhile (· == slash) = p at h0
  -- the element is the run of bytes other than `'/'` and NUL at the front of `p`
  obtain ⟨c, t, rfl⟩ : ∃ c t, p = c :: t := by
    cases p with
    | nil => simp at h0
    | cons c t => exact ⟨c, t, rfl⟩
  have hc0 : c ≠ 0 := by simpa using h0
  have hcs : c ≠ slash := by
    have := List.head_dropWhile_not (· == slash) (by rw [hp]; simp : path.dropWhile (· == slash) ≠ [])
    simp only [hp, List.head_cons] at this
    simpa using this
  -- `elem` is the run at the front of `p`; what follows it starts with `'/'` or NUL, or is empty
  set q : UInt8 → Bool := fun c => c != slash && c != 0 with hq
  have helem : ∀ x ∈ (c :: t).takeWhile q, x ≠ slash ∧ x ≠ 0 := by
    intro x hx
    simpa [hq] using List.mem_takeWhile_imp hx
  have hne : (c :: t).takeWhile q ≠ [] := by simp [hq, hc0, hcs]
  have hstop : ∀ x, ((c :: t).dropWhile q).head? = some x → x = slash ∨ x = 0 := by
    intro x hx
    have := List.head?_dropWhile_not q (c :: t)
    rw [hx] at this
    simp only [hq, Bool.and_eq_false_iff, bne_eq_false_iff_eq] at this
    rcases this with h | h <;> simp_all
  have hsplit : (c :: t).takeWhile q ++ (c :: t).dropWhile q = c :: t :=
    List.takeWhile_append_dropWhile
  have hruns : runs path [] = (c :: t).takeWhile q :: runs (((c :: t).dropWhile q).dropWhile (· == slash)) [] := by
    rw [← runs_dropWhile, hp]
    conv_lhs => rw [← hsplit]
    rw [runs_append_of_forall helem, List.nil_append, runs_stop hne hstop]
  have hlen : ((c :: t).dropWhile q).length < path.length := by
    have h₁ := congrArg List.length hsplit
    have h₂ : 0 < ((c :: t).takeWhile q).length := List.length_pos_iff.2 hne
    have h₃ : (c :: t).length ≤ path.length := hp ▸ List.length_dropWhile_le _ _
    rw [List.length_append] at h₁
    omega
  rw [drop_length_takeWhile]
  refine ⟨?_, lt_of_le_of_lt (List.length_dropWhile_le _ _) hlen, dropWhile_dropWhile _ _⟩
  rw [components, hruns, List.map_cons]
  rfl

/-- `namex`'s test `*path == '\0'` on a rest that `skipelem` returned: no components are left. -/
lemma components_eq_nil_iff {rest : List UInt8} (h : rest.dropWhile (· == slash) = rest) :
    components rest = [] ↔ rest.headD 0 = 0 := by
  cases hs : skipelem rest with
  | none =>
    refine ⟨fun _ => ?_, fun _ => components_of_skipelem_none hs⟩
    unfold skipelem at hs
    dsimp only at hs
    rw [h] at hs
    split at hs
    · rename_i h0
      simpa using h0
    · cases hs
  | some r =>
    obtain ⟨rest', name⟩ := r
    rw [(components_of_skipelem_some hs).1]
    refine ⟨(nomatch ·), fun h0 => ?_⟩
    unfold skipelem at hs
    dsimp only at hs
    rw [h, h0] at hs
    cases hs

/-- The elements that iterating `skipelem` on `path` yields. Each round shortens the path, so
the iteration stops. -/
def skipelems (path : List UInt8) : List (List UInt8) :=
  match h : skipelem path with
  | none => []
  | some (rest, name) =>
    have : rest.length < path.length := (components_of_skipelem_some h).2.1
    name :: skipelems rest
termination_by path.length

theorem skipelems_eq_components (path : List UInt8) : skipelems path = components path := by
  induction path using skipelems.induct with
  | case1 path h =>
    rw [skipelems, components_of_skipelem_none h]
    split <;> simp_all
  | case2 path rest name h _ ih =>
    rw [skipelems, (components_of_skipelem_some h).1, ← ih]
    split <;> simp_all

/-! ## `namex` over the components -/

/-- What `namex` does with the components `cs` from the inode `ip`, `name` the last element
read: the inode reached must be a directory, and the walk goes on to the inode `dirlookup`
finds for the component; for `nameiparent` it stops at the last component. -/
def resolve (nameiparent : Bool) :
    Fin NINODE → List (List UInt8) → List UInt8 → FsM (Option (Fin NINODE) × List UInt8)
  | ip, [], name =>
    if nameiparent then do
      iput ip
      pure (none, name)
    else pure (some ip, name)
  | ip, c :: cs, _ => do
    ilock ip
    if ((← get).inode ip).di.type != T_DIR then do
      iunlockput ip
      pure (none, c)
    else if nameiparent && cs.isEmpty then do
      iunlock ip
      pure (some ip, c)
    else do
      match ← dirlookup ip c with
      | none => do
        iunlockput ip
        pure (none, c)
      | some (next, _) => do
        iunlockput ip
        resolve nameiparent next cs c

/-- The loop of `namex` is `resolve` over the components of the rest of the path, given one
round of fuel for each byte. -/
theorem namexLoop_eq_resolve (nameiparent : Bool) :
    ∀ (fuel : Nat) (ip : Fin NINODE) (path name : List UInt8), path.length < fuel →
      namexLoop nameiparent fuel ip path name = resolve nameiparent ip (components path) name
  | 0, _, _, _, h => absurd h (Nat.not_lt_zero _)
  | fuel + 1, ip, path, name, h => by
    -- the loop's two branches are `skipelem`'s two results
    cases hs : skipelem path with
    | none =>
      rw [components_of_skipelem_none hs, namexLoop.eq_def]
      dsimp only
      rw [hs]
      rfl
    | some r =>
      obtain ⟨rest, name'⟩ := r
      obtain ⟨hc, hlen, hrest⟩ := components_of_skipelem_some hs
      have ih : ∀ ip name, namexLoop nameiparent fuel ip rest name =
          resolve nameiparent ip (components rest) name :=
        fun ip name => namexLoop_eq_resolve nameiparent fuel ip rest name (by omega)
      have hnil : (rest.headD 0 == 0) = (components rest).isEmpty := by
        rw [Bool.eq_iff_iff, beq_iff_eq, List.isEmpty_iff, components_eq_nil_iff hrest]
      rw [hc, namexLoop.eq_def]
      dsimp only
      rw [hs]
      simp only [hnil, ih]
      rfl

/-- Where `namex` starts: the root for a path that starts with `'/'`, the working directory
otherwise, with a new reference. -/
def pathStart (cwd : Fin NINODE) (path : List UInt8) : FsM (Fin NINODE) :=
  if path.headD 0 == slash then iget ROOTDEV ROOTINO else idup cwd

/-- `namex` resolves the components of the path from where the path starts. -/
theorem namex_eq_resolve (cwd : Fin NINODE) (path : List UInt8) (nameiparent : Bool) :
    namex cwd path nameiparent =
      pathStart cwd path >>= fun ip => resolve nameiparent ip (components path) [] := by
  unfold namex pathStart
  by_cases h : (path.headD 0 == slash) = true <;>
    simp only [h, Bool.false_eq_true, ↓reduceIte, namexLoop_eq_resolve nameiparent _ _ path [] (Nat.lt_succ_self _)]

/-- Two paths that both start with `'/'`, or both do not, and have the same components are the
same program to `namex`. -/
theorem namex_congr (cwd : Fin NINODE) {p q : List UInt8} (nameiparent : Bool)
    (habs : (p.headD 0 == slash) = (q.headD 0 == slash)) (hc : components p = components q) :
    namex cwd p nameiparent = namex cwd q nameiparent := by
  rw [namex_eq_resolve, namex_eq_resolve, pathStart, pathStart, habs, hc]

/-- The last step of `nameiparent`, after the other components are resolved: what they reached
must be a directory, and it is returned unlocked with the last component `c`. -/
def lastDir (c : List UInt8) :
    Option (Fin NINODE) × List UInt8 → FsM (Option (Fin NINODE) × List UInt8)
  | (none, name) => pure (none, name)
  | (some ip, _) => do
    ilock ip
    if ((← get).inode ip).di.type != T_DIR then do
      iunlockput ip
      pure (none, c)
    else do
      iunlock ip
      pure (some ip, c)

/-- `nameiparent` over `cs ++ [c]` is `namei` over `cs` followed by `lastDir c`. -/
theorem resolve_parent_append (c : List UInt8) :
    ∀ (cs : List (List UInt8)) (ip : Fin NINODE) (name : List UInt8),
      resolve true ip (cs ++ [c]) name = resolve false ip cs name >>= lastDir c
  | [], ip, name => by
    simp [resolve, lastDir]
  | c' :: cs, ip, name => by
    have ih := resolve_parent_append c cs
    have hne : (cs ++ [c]).isEmpty = false := by simp
    simp only [List.cons_append, resolve, bind_assoc, ih, hne, Bool.true_and, Bool.false_and,
      Bool.false_eq_true, ↓reduceIte]
    refine congrArg (ilock ip >>= ·) (funext fun _ => congrArg (get >>= ·) (funext fun s => ?_))
    split
    · simp only [bind_assoc, pure_bind, lastDir]
    · simp only [bind_assoc]
      refine congrArg (dirlookup ip c' >>= ·) (funext fun r => ?_)
      rcases r with _ | ⟨next, _⟩ <;> simp only [bind_assoc, pure_bind, lastDir]

/-- One step of `resolve` from an inode that is held, holds a well-formed directory, and is not
the last one `nameiparent` stops at: it moves to the first live entry whose name equals the
component under `namecmp`, and fails when there is none. -/
lemma run_resolve_dir {s : FsState} {ip : Fin NINODE} {c name : List UInt8}
    {cs : List (List UInt8)} {nameiparent : Bool} (href : 1 ≤ (s.inode ip).ref)
    (hv : (s.inode ip).valid = true) (hd : DirBlocks s ip) (hlast : (nameiparent && cs.isEmpty) = false) :
    (resolve nameiparent ip (c :: cs) name).run s =
      (lookupResult (s.inode ip).dev (firstNamed c (entries s.disk (s.inode ip).di) 0) >>= fun r =>
        r.elim (iunlockput ip >>= fun _ => pure (none, c))
          (fun e => iunlockput ip >>= fun _ => resolve nameiparent e.1 cs c)).run s := by
  simp only [resolve, StateExcept.run_bind_of_eq_ok (run_ilock_of_valid href hv),
    StateExcept.run_get_bind, hd.dir, bne_self_eq_false, Bool.false_eq_true, ↓reduceIte, hlast]
  -- `dirlookup` of the well-formed directory is the `namecmp` search of its entries
  rw [StateExcept.run_bind, dirlookup_eq_loop hd.dir, dirlookupLoop_zero_eq hd,
    ← StateExcept.run_bind]
  refine congrArg (fun k => (lookupResult _ _ >>= k).run s) (funext fun r => ?_)
  rcases r with _ | ⟨next, _⟩ <;> rfl

/-- Path resolution: iterating `skipelem` yields the components; `namex` resolves them from the
root or the working directory; each step from a well-formed directory moves to the first live
entry named by the component under `namecmp`; `nameiparent` returns `0` on a path without
components and otherwise checks the inode `namei` reaches for all but the last component; and the
result depends on the path only through its first byte and its components. -/
theorem path_resolution :
    (∀ path, skipelems path = components path) ∧
    (∀ cwd path nameiparent, namex cwd path nameiparent =
      pathStart cwd path >>= fun ip => resolve nameiparent ip (components path) []) ∧
    (∀ (s : FsState) (nameiparent : Bool) ip c cs name, 1 ≤ (s.inode ip).ref →
      (s.inode ip).valid = true → DirBlocks s ip → (nameiparent && cs.isEmpty) = false →
      (resolve nameiparent ip (c :: cs) name).run s =
        (lookupResult (s.inode ip).dev (firstNamed c (entries s.disk (s.inode ip).di) 0) >>= fun r =>
          r.elim (iunlockput ip >>= fun _ => pure (none, c))
            (fun e => iunlockput ip >>= fun _ => resolve nameiparent e.1 cs c)).run s) ∧
    (∀ cwd path, components path = [] → nameiparent cwd path =
      pathStart cwd path >>= fun ip => iput ip >>= fun _ => pure (none, [])) ∧
    (∀ cwd path cs c, components path = cs ++ [c] → nameiparent cwd path =
      pathStart cwd path >>= fun ip => resolve false ip cs [] >>= lastDir c) ∧
    (∀ cwd p q nameiparent, (p.headD 0 == slash) = (q.headD 0 == slash) →
      components p = components q → namex cwd p nameiparent = namex cwd q nameiparent) := by
  refine ⟨skipelems_eq_components, namex_eq_resolve,
    fun _ _ _ _ _ _ href hv hd hlast => run_resolve_dir href hv hd hlast, ?_, ?_,
    fun cwd p q b => namex_congr cwd b⟩
  · intro cwd path h
    rw [nameiparent, namex_eq_resolve, h]
    rfl
  · intro cwd path cs c h
    rw [nameiparent, namex_eq_resolve, h]
    simp only [resolve_parent_append]

end Fs

end Xv6

