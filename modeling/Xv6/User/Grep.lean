import Mathlib

/-!
# The matcher of `grep`

Model of the regular-expression matcher of `user/grep.c` (Kernighan and Pike): `match`,
`matchhere` and `matchstar`. As in `Xv6.Fs.Dir`, a C string is the list of its bytes and
`headD 0` reads `*p`; the matcher reads a NUL as the end of the text.

`matchhere` tests in the order of the C code, its cases in turn: the end of the pattern, a `*`
after the first byte, a `$` that ends the pattern, and a single byte. The pattern shrinks at every call of `matchhere`,
and the text at every round of `matchstar` and of `match`, so all three are structurally
recursive: they terminate on every input. `matchstar` is the loop over the text with
`matchhere re` as a parameter.

The semantics is the one of the pattern read into items (`items`): a byte, a byte starred, or
`$` at the end. The language of the items (`Lang`) is the standard one, and `matchhere` decides
whether a prefix of the text is in it, the whole text when the pattern ends in `$`
(`matchhere_iff`); `match` tries every suffix of the text unless the pattern starts with `^`
(`matchLoop_iff`).
-/

namespace Xv6

namespace Grep

/-- The loop of `matchstar(c, re, text)`, with `matchhere(re, ·)` as `m`. -/
def matchstarLoop (m : List UInt8 → Bool) (c : UInt8) : List UInt8 → Bool
  | [] => m []
  | t :: text => m (t :: text) || (t != 0 && (t == c || c == 46) && matchstarLoop m c text)

/-- `matchhere(re, text)`: `re` matches at the beginning of `text`. The bytes are `'*' = 42`,
`'$' = 36` and `'.' = 46`. -/
def matchhere : List UInt8 → List UInt8 → Bool
  | [], _ => true
  | c :: 42 :: re, text => matchstarLoop (matchhere re) c text
  | [36], text => text.headD 0 == 0
  | c :: re, text => text.headD 0 != 0 && (c == 46 || c == text.headD 0) && matchhere re text.tail

-- `$*` is a star of `$`, not an anchor
example : matchhere [36, 42] [36, 36] = true := by decide

/-- `matchstar(c, re, text)`: `c*re` matches at the beginning of `text`. -/
def matchstar (c : UInt8) (re text : List UInt8) : Bool := matchstarLoop (matchhere re) c text

/-- The loop of `match`: `re` matches at the beginning of `text` or of a later suffix. -/
def matchLoop (re : List UInt8) : List UInt8 → Bool
  | [] => matchhere re []
  | t :: text => matchhere re (t :: text) || (t != 0 && matchLoop re text)

/-- `match(re, text)`: `re` matches somewhere in `text`; `'^' = 94`. -/
def «match» (re text : List UInt8) : Bool :=
  if re.headD 0 == 94 then matchhere re.tail text else matchLoop re text

lemma matchhere_nil (text : List UInt8) : matchhere [] text = true := matchhere.eq_1 text

lemma matchhere_star (c : UInt8) (re text : List UInt8) :
    matchhere (c :: 42 :: re) text = matchstar c re text := matchhere.eq_2 text c re

/-- The last case of `matchhere`: the second byte is not `*` and the pattern is not `$` alone. -/
lemma matchhere_atom {c : UInt8} {re text : List UInt8} (h42 : re.headD 0 ≠ 42) (h36 : c = 36 → re ≠ []) :
    matchhere (c :: re) text =
      (text.headD 0 != 0 && (c == 46 || c == text.headD 0) && matchhere re text.tail) :=
  matchhere.eq_4 text c re (fun _ e => h42 (by rw [e]; rfl)) h36

/-! ## Patterns as items -/

/-- An item of a pattern. -/
inductive Item where
  /-- A byte, `.` for any byte. -/
  | atom (c : UInt8)
  /-- A byte starred. -/
  | star (c : UInt8)
  /-- `$` at the end of the pattern. -/
  | eol
  deriving DecidableEq, Repr

/-- The items of a pattern, read from the left: `c*`, then `$` as the last byte, then a byte. -/
def items : List UInt8 → List Item
  | [] => []
  | c :: 42 :: re => .star c :: items re
  | [36] => [.eol]
  | c :: re => .atom c :: items re

lemma items_atom {c : UInt8} {re : List UInt8} (h42 : re.headD 0 ≠ 42) (h36 : c = 36 → re ≠ []) :
    items (c :: re) = .atom c :: items re :=
  items.eq_4 c re (fun _ e => h42 (by rw [e]; rfl)) h36

/-- Whether the items end in `$`. -/
def anchored (is : List Item) : Bool := is.getLast? == some .eol

/-- The atom `c` matches the byte `t`: `.` any byte but NUL, any other byte itself. -/
def Matches (c t : UInt8) : Prop := if c = 46 then t ≠ 0 else t = c

/-- The language of a list of items: a word of each item in turn; `$` is the empty word. -/
def Lang : List Item → List UInt8 → Prop
  | [], w => w = []
  | .atom c :: is, w => ∃ t w', w = t :: w' ∧ Matches c t ∧ Lang is w'
  | .star c :: is, w => ∃ u v, w = u ++ v ∧ (∀ t ∈ u, Matches c t) ∧ Lang is v
  | .eol :: is, w => Lang is w

/-- A prefix of `text` is in the language of `is`, all of `text` when `is` ends in `$`. -/
def PrefixIn (is : List Item) (text : List UInt8) : Prop :=
  ∃ p s, text = p ++ s ∧ Lang is p ∧ (anchored is = true → s = [])

section Semantics

variable {c t : UInt8} {is : List Item} {text : List UInt8}

/-- The test of `matchhere` on a byte that is not NUL: `re[0] == '.' || re[0] == *text`. -/
lemma matches_iff_here (ht : t ≠ 0) : Matches c t ↔ (c == 46 || c == t) = true := by
  rw [Bool.or_eq_true, beq_iff_eq, beq_iff_eq]
  unfold Matches
  by_cases hc : c = 46
  · rw [if_pos hc]
    exact iff_of_true ht (.inl hc)
  · rw [if_neg hc]
    exact ⟨fun e => .inr e.symm, fun h => h.elim (fun e => absurd e hc) Eq.symm⟩

/-- The test of `matchstar` on a byte that is not NUL: `*text++ == c || c == '.'`. -/
lemma matches_iff_star (ht : t ≠ 0) : Matches c t ↔ (t == c || c == 46) = true := by
  rw [matches_iff_here ht, Bool.or_eq_true, Bool.or_eq_true, beq_iff_eq, beq_iff_eq, beq_iff_eq, or_comm]
  exact or_congr_left ⟨Eq.symm, Eq.symm⟩

/-- The first byte of a text without NUL is not NUL. -/
lemma ne_zero_of_cons {text : List UInt8} (h : 0 ∉ t :: text) : t ≠ 0 := fun e => by
  rw [e] at h
  exact h List.mem_cons_self

lemma not_mem_of_cons {text : List UInt8} (h : 0 ∉ t :: text) : 0 ∉ text :=
  fun h' => h (List.mem_cons_of_mem t h')

@[simp] lemma anchored_nil : anchored [] = false := rfl

lemma anchored_cons {x : Item} (hx : x ≠ .eol) : anchored (x :: is) = anchored is := by
  cases is with
  | nil => simp [anchored, hx]
  | cons y is => simp [anchored, List.getLast?_cons_cons]

lemma prefixIn_nil (text : List UInt8) : PrefixIn [] text :=
  ⟨[], text, rfl, rfl, fun h => absurd h (by rw [anchored_nil]; exact Bool.false_ne_true)⟩

lemma prefixIn_eol : PrefixIn [.eol] text ↔ text = [] := by
  constructor
  · rintro ⟨p, s, rfl, hp, hs⟩
    rw [hs rfl, show p = [] from hp]
    rfl
  · rintro rfl
    exact ⟨[], [], rfl, rfl, fun _ => rfl⟩

lemma prefixIn_atom :
    PrefixIn (.atom c :: is) text ↔ ∃ t text', text = t :: text' ∧ Matches c t ∧ PrefixIn is text' := by
  rw [PrefixIn, anchored_cons (by simp)]
  constructor
  · rintro ⟨p, s, rfl, ⟨t, p', rfl, hm, hp⟩, hs⟩
    exact ⟨t, p' ++ s, rfl, hm, p', s, rfl, hp, hs⟩
  · rintro ⟨t, _, rfl, hm, p', s, rfl, hp, hs⟩
    exact ⟨t :: p', s, rfl, ⟨t, p', rfl, hm, hp⟩, hs⟩

lemma prefixIn_star :
    PrefixIn (.star c :: is) text ↔
      ∃ u v, text = u ++ v ∧ (∀ t ∈ u, Matches c t) ∧ PrefixIn is v := by
  rw [PrefixIn, anchored_cons (by simp)]
  constructor
  · rintro ⟨p, s, rfl, ⟨u, v, rfl, hu, hv⟩, hs⟩
    exact ⟨u, v ++ s, List.append_assoc u v s, hu, v, s, rfl, hv, hs⟩
  · rintro ⟨u, _, rfl, hu, v, s, rfl, hv, hs⟩
    exact ⟨u ++ v, s, (List.append_assoc u v s).symm, ⟨u, v, rfl, hu, hv⟩, hs⟩

end Semantics

/-! ## The matcher decides its semantics -/

/-- The loop of `matchstar` over a text without NUL: some run of bytes matching `c` at the start
of the text leaves a rest that `m` accepts. -/
lemma matchstarLoop_iff (m : List UInt8 → Bool) (c : UInt8) :
    ∀ {text : List UInt8}, 0 ∉ text →
      (matchstarLoop m c text = true ↔ ∃ u v, text = u ++ v ∧ (∀ t ∈ u, Matches c t) ∧ m v = true)
  | [], _ => by
    simp only [matchstarLoop, List.nil_eq_append_iff]
    constructor
    · intro h
      exact ⟨[], [], ⟨rfl, rfl⟩, fun _ h => absurd h List.not_mem_nil, h⟩
    · rintro ⟨u, v, ⟨rfl, rfl⟩, -, h⟩
      exact h
  | t :: text, h => by
    have ht := ne_zero_of_cons h
    rw [matchstarLoop, Bool.or_eq_true, Bool.and_eq_true, Bool.and_eq_true, bne_iff_ne,
      ← matches_iff_star ht, matchstarLoop_iff m c (not_mem_of_cons h)]
    constructor
    · -- no byte for the star, or one more byte `t` before the rest of the run
      rintro (hm | ⟨⟨-, hc⟩, u, v, rfl, hu, hv⟩)
      · exact ⟨[], t :: text, rfl, fun _ h => absurd h List.not_mem_nil, hm⟩
      · refine ⟨t :: u, v, rfl, fun t' ht' => ?_, hv⟩
        rcases List.mem_cons.mp ht' with rfl | ht'
        · exact hc
        · exact hu t' ht'
    · rintro ⟨u, v, e, hu, hv⟩
      cases u with
      | nil => exact .inl (by rw [e]; exact hv)
      | cons t' u =>
        obtain ⟨rfl, rfl⟩ := List.cons.inj e
        exact .inr ⟨⟨ht, hu t List.mem_cons_self⟩, u, v, rfl,
          fun t'' h'' => hu t'' (List.mem_cons_of_mem t h''), hv⟩

/-- An atom at the start of a text without NUL, as `matchhere` tests it. -/
lemma atom_test_iff (c : UInt8) (m : List UInt8 → Bool) {text : List UInt8} (h : 0 ∉ text) :
    (text.headD 0 != 0 && (c == 46 || c == text.headD 0) && m text.tail) = true ↔
      ∃ t text', text = t :: text' ∧ Matches c t ∧ m text' = true := by
  cases text with
  | nil =>
    refine iff_of_false ?_ fun ⟨_, _, e, _⟩ => List.cons_ne_nil _ _ e.symm
    rw [List.headD_nil, bne_self_eq_false, Bool.false_and, Bool.false_and]
    exact Bool.false_ne_true
  | cons t text =>
    have ht := ne_zero_of_cons h
    rw [List.headD_cons, List.tail_cons, Bool.and_eq_true, Bool.and_eq_true, bne_iff_ne,
      ← matches_iff_here ht]
    constructor
    · rintro ⟨⟨-, hc⟩, hm⟩
      exact ⟨t, text, rfl, hc, hm⟩
    · rintro ⟨_, _, e, hc, hm⟩
      obtain ⟨rfl, rfl⟩ := List.cons.inj e
      exact ⟨⟨ht, hc⟩, hm⟩

/-- `matchhere` decides whether a prefix of a text without NUL is in the language of the
pattern's items, the whole text when the pattern ends in `$`. By recursion on the pattern, as
`matchhere` recurses. -/
lemma matchhere_iff : ∀ (re : List UInt8) {text : List UInt8}, 0 ∉ text →
    (matchhere re text = true ↔ PrefixIn (items re) text)
  | [], text, _ => by
    rw [matchhere, items]
    exact iff_of_true rfl (prefixIn_nil text)
  | [c], text, h => by
    by_cases hc : c = 36
    · -- `$` at the end: the text must be over
      subst hc
      rw [matchhere, items, prefixIn_eol]
      cases text with
      | nil => exact iff_of_true (beq_self_eq_true 0) rfl
      | cons t text =>
        exact iff_of_false (mt beq_iff_eq.mp (ne_zero_of_cons h)) (List.cons_ne_nil t text)
    · rw [matchhere_atom (by decide) (absurd · hc), items_atom (by decide) (absurd · hc),
        atom_test_iff c _ h, prefixIn_atom]
      exact exists_congr fun _ => exists_congr fun _ => and_congr_right fun _ =>
        and_congr_right fun _ => iff_of_true (matchhere_nil _) (prefixIn_nil _)
  | c :: d :: re, text, h => by
    by_cases hd : d = 42
    · -- `c*`: a run of `c` and then the rest of the pattern
      subst hd
      rw [matchhere, items, matchstarLoop_iff _ c h, prefixIn_star]
      refine exists_congr fun u => exists_congr fun v => and_congr_right fun e =>
        and_congr_right fun _ => matchhere_iff re fun h' => h ?_
      rw [e]
      exact List.mem_append_right u h'
    · have hd' : (d :: re).headD 0 ≠ 42 := hd
      rw [matchhere_atom hd' fun _ => List.cons_ne_nil d re, items_atom hd' fun _ => List.cons_ne_nil d re,
        atom_test_iff c _ h, prefixIn_atom]
      refine exists_congr fun t => exists_congr fun text' => and_congr_right fun e =>
        and_congr_right fun _ => matchhere_iff (d :: re) fun h' => h ?_
      rw [e]
      exact List.mem_cons_of_mem t h'

/-- The loop of `match` over a text without NUL tries every suffix, the empty one included. -/
lemma matchLoop_iff (re : List UInt8) :
    ∀ {text : List UInt8}, 0 ∉ text → (matchLoop re text = true ↔ ∃ t, t <:+ text ∧ matchhere re t = true)
  | [], _ => by
    rw [matchLoop]
    constructor
    · exact fun hm => ⟨[], List.suffix_refl _, hm⟩
    · rintro ⟨t, ht, hm⟩
      rwa [List.suffix_nil.mp ht] at hm
  | t :: text, h => by
    rw [matchLoop, Bool.or_eq_true, Bool.and_eq_true, bne_iff_ne, matchLoop_iff re (not_mem_of_cons h)]
    constructor
    · rintro (hm | ⟨-, s, hs, hm⟩)
      · exact ⟨t :: text, List.suffix_refl _, hm⟩
      · exact ⟨s, hs.trans (List.suffix_cons t text), hm⟩
    · rintro ⟨s, hs, hm⟩
      rcases List.suffix_cons_iff.mp hs with rfl | hs
      · exact .inl hm
      · exact .inr ⟨ne_zero_of_cons h, s, hs, hm⟩

/-- The matcher of `grep` on a text without NUL: `matchhere` holds exactly when a prefix of the
text is in the language of the pattern's items (all of the text when the pattern ends in `$`);
`match` is `matchhere` after a leading `^`, and otherwise holds exactly when `matchhere` holds
at some suffix of the text, the empty one included. -/
theorem grep_matcher_semantics (re text : List UInt8) (htext : 0 ∉ text) :
    (matchhere re text = true ↔
      ∃ p s, text = p ++ s ∧ Lang (items re) p ∧ (anchored (items re) = true → s = [])) ∧
    (re.headD 0 = 94 → «match» re text = matchhere re.tail text) ∧
    (re.headD 0 ≠ 94 → («match» re text = true ↔ ∃ t, t <:+ text ∧ matchhere re t = true)) := by
  refine ⟨matchhere_iff re htext, fun h => ?_, fun h => ?_⟩
  · rw [«match», if_pos (beq_iff_eq.mpr h)]
  · rw [«match», if_neg (mt beq_iff_eq.mp h), matchLoop_iff re htext]

/-- `grep_matcher_semantics` at the pattern `a*b$` and the text `aab`. -/
theorem grep_matcher_semantics_aab :
    (0 : UInt8) ∉ [97, 97, 98] ∧
    (matchhere [97, 42, 98, 36] [97, 97, 98] = true ↔
      ∃ p s, [97, 97, 98] = p ++ s ∧ Lang (items [97, 42, 98, 36]) p ∧
        (anchored (items [97, 42, 98, 36]) = true → s = [])) ∧
    (([97, 42, 98, 36] : List UInt8).headD 0 = 94 →
      «match» [97, 42, 98, 36] [97, 97, 98] = matchhere ([97, 42, 98, 36] : List UInt8).tail [97, 97, 98]) ∧
    (([97, 42, 98, 36] : List UInt8).headD 0 ≠ 94 → («match» [97, 42, 98, 36] [97, 97, 98] = true ↔
      ∃ t, t <:+ [97, 97, 98] ∧ matchhere [97, 42, 98, 36] t = true)) :=
  ⟨by decide +kernel, grep_matcher_semantics [97, 42, 98, 36] [97, 97, 98] (by decide +kernel)⟩

/-! ## The read loop

`grep(pattern, fd)` reads the stream into `buf[1024]` and hands every line that a `'\n' = 10`
ends to `match`. `lineLoop` is the inner loop over the bytes held, `grepLoop` the outer loop over
the reads, with the bytes `held` in the buffer as a list: the `memmove(buf, p, m)` that moves the
unfinished line to the front of `buf` is correct for overlapping regions
(`Xv6.Memmove.umemmove_moved`), so the list is what the buffer holds.

`grepSpec` is what `grep` should write, the lines that `match` accepts, each with its `\n`. The
read loop does so whenever every line is at most 1022 bytes long, however `read` cuts the stream
(`grep_eq_grepSpec`). A longer line fills the 1023 bytes the buffer has for data without a `\n`:
the next `read` is asked for 0 bytes, returns 0, and `grep` stops (`grep_stops_at_long_line`).
-/

/-- `strchr(s, c)`: the offset of the first `c` in the C string `s`, read up to its NUL. -/
def strchr : List UInt8 → UInt8 → Option Nat
  | [], _ => none
  | b :: s, c => if b = 0 then none else if b = c then some 0 else (strchr s c).map (· + 1)

/-- The inner loop of `grep` from `p` on: `strchr` finds each `\n`, and the line before it is
written with its `\n` when it matches; what follows the last `\n` is left over. The fuel bounds
the rounds. -/
def lineLoop (re : List UInt8) : Nat → List UInt8 → List UInt8 × List UInt8
  | 0, p => ([], p)
  | fuel + 1, p =>
    match strchr p 10 with
    | some k =>
      -- `*q = 0` ends the line for `match`; `*q = '\n'` puts it back for `write(1, p, q + 1 - p)`
      let w := if «match» re (p.take k) then p.take (k + 1) else []
      let r := lineLoop re fuel (p.drop (k + 1))
      (w ++ r.1, r.2)
    | none => ([], p)

/-- The outer loop of `grep`, with the `m` bytes `held` at the start of `buf` and the stream
`rest` still unread. The `i`-th `read(fd, buf + m, sizeof(buf) - m - 1)` returns the next
`min (split i) (1023 - m) rest.length` bytes: `split` is how `read` cuts the stream. -/
def grepLoop (re : List UInt8) : Nat → (Nat → Nat) → List UInt8 → List UInt8 → List UInt8
  | 0, _, _, _ => []
  | fuel + 1, split, held, rest =>
    let n := min (split 0) (min (1024 - held.length - 1) rest.length)
    if 0 < n then
      -- `m += n; buf[m] = '\0'`, the lines, then `memmove(buf, p, m)` (`m > 0` here)
      let r := lineLoop re (held.length + n + 1) (held ++ rest.take n)
      r.1 ++ grepLoop re fuel (fun i => split (i + 1)) r.2 (rest.drop n)
    else []

/-- `grep(pattern, fd)` on the stream `input`, read in the pieces that `split` gives. -/
def grep (re : List UInt8) (split : Nat → Nat) (input : List UInt8) : List UInt8 :=
  grepLoop re (input.length + 1) split [] input

/-- The lines of a stream that a `\n` ends, without it, with `cur` the start of the first; an
unterminated last line is left out. -/
def linesFrom (cur : List UInt8) : List UInt8 → List (List UInt8)
  | [] => []
  | b :: s => if b = 10 then cur :: linesFrom [] s else linesFrom (cur ++ [b]) s

/-- The bytes after the last `\n`, with `cur` before the stream. -/
def lastLine (cur : List UInt8) : List UInt8 → List UInt8
  | [] => cur
  | b :: s => if b = 10 then lastLine [] s else lastLine (cur ++ [b]) s

/-- The lines of `ls` that `match` accepts, each with its `\n`. -/
def matching (re : List UInt8) (ls : List (List UInt8)) : List UInt8 :=
  ls.flatMap fun l => if «match» re l then l ++ [10] else []

/-- What `grep` should write: the newline-terminated lines of `input` that `match` accepts, each
with its `\n`, in order. -/
def grepSpec (re input : List UInt8) : List UInt8 := matching re (linesFrom [] input)

/-! ### Lines -/

theorem linesFrom_append (cur p s : List UInt8) :
    linesFrom cur (p ++ s) = linesFrom cur p ++ linesFrom (lastLine cur p) s := by
  induction p generalizing cur with
  | nil => rfl
  | cons b p ih =>
    by_cases hb : b = 10
    · simp [linesFrom, lastLine, hb, ih]
    · simp [linesFrom, lastLine, hb, ih]

theorem lastLine_append (cur p s : List UInt8) :
    lastLine cur (p ++ s) = lastLine (lastLine cur p) s := by
  induction p generalizing cur with
  | nil => rfl
  | cons b p ih =>
    by_cases hb : b = 10
    · simp [lastLine, hb, ih]
    · simp [lastLine, hb, ih]

theorem linesFrom_of_not_mem {p : List UInt8} (h : 10 ∉ p) (cur : List UInt8) : linesFrom cur p = [] := by
  induction p generalizing cur with
  | nil => rfl
  | cons b p ih =>
    rw [linesFrom, if_neg (Ne.symm (List.ne_of_not_mem_cons h)), ih (List.not_mem_of_not_mem_cons h)]

theorem lastLine_of_not_mem {p : List UInt8} (h : 10 ∉ p) (cur : List UInt8) : lastLine cur p = cur ++ p := by
  induction p generalizing cur with
  | nil => simp [lastLine]
  | cons b p ih =>
    rw [lastLine, if_neg (Ne.symm (List.ne_of_not_mem_cons h)), ih (List.not_mem_of_not_mem_cons h)]
    simp

/-- A line `l` and its `\n`. -/
theorem linesFrom_line {l : List UInt8} (h : 10 ∉ l) (cur s : List UInt8) :
    linesFrom cur (l ++ 10 :: s) = (cur ++ l) :: linesFrom [] s ∧ lastLine cur (l ++ 10 :: s) = lastLine [] s := by
  rw [linesFrom_append, lastLine_append, linesFrom_of_not_mem h, lastLine_of_not_mem h]
  simp [linesFrom, lastLine]

/-- Bytes without `\n` in front of the stream go to the first line. -/
theorem linesFrom_prefix {l : List UInt8} (h : 10 ∉ l) (cur s : List UInt8) :
    linesFrom cur (l ++ s) = linesFrom (cur ++ l) s ∧ lastLine cur (l ++ s) = lastLine (cur ++ l) s := by
  rw [linesFrom_append, lastLine_append, linesFrom_of_not_mem h, lastLine_of_not_mem h]
  exact ⟨rfl, rfl⟩

theorem lastLine_not_mem {cur : List UInt8} (h : 10 ∉ cur) (p : List UInt8) : 10 ∉ lastLine cur p := by
  induction p generalizing cur with
  | nil => exact h
  | cons b p ih =>
    by_cases hb : b = 10
    · rw [lastLine, if_pos hb]
      exact ih List.not_mem_nil
    · rw [lastLine, if_neg hb]
      exact ih (by simp [h, Ne.symm hb])

theorem mem_lastLine {cur p : List UInt8} {x : UInt8} (h : x ∈ lastLine cur p) : x ∈ cur ∨ x ∈ p := by
  induction p generalizing cur with
  | nil => exact .inl h
  | cons b p ih =>
    by_cases hb : b = 10
    · rw [lastLine, if_pos hb] at h
      rcases ih h with h | h
      · simp at h
      · exact .inr (List.mem_cons_of_mem _ h)
    · rw [lastLine, if_neg hb] at h
      rcases ih h with h | h
      · rcases List.mem_append.mp h with h | h
        · exact .inl h
        · simp at h
          exact .inr (h ▸ List.mem_cons_self ..)
      · exact .inr (List.mem_cons_of_mem _ h)

theorem length_lastLine_le (cur p : List UInt8) : (lastLine cur p).length ≤ cur.length + p.length := by
  induction p generalizing cur with
  | nil => simp [lastLine]
  | cons b p ih =>
    by_cases hb : b = 10
    · rw [lastLine, if_pos hb]
      have := ih []
      simp at this ⊢
      omega
    · rw [lastLine, if_neg hb]
      have := ih (cur ++ [b])
      simp at this ⊢
      omega

theorem matching_append (re : List UInt8) (ls ls' : List (List UInt8)) :
    matching re (ls ++ ls') = matching re ls ++ matching re ls' := by
  simp [matching]

/-! ### The inner loop -/

/-- `strchr` stops at the first `c`: before it is a line without `c`. -/
theorem strchr_some {p : List UInt8} {c : UInt8} {k : Nat} (h : strchr p c = some k) :
    ∃ l s, p = l ++ c :: s ∧ c ∉ l ∧ k = l.length := by
  induction p generalizing k with
  | nil => simp [strchr] at h
  | cons b p ih =>
    simp only [strchr] at h
    by_cases h0 : b = 0
    · simp [h0] at h
    by_cases hc : b = c
    · rw [if_neg h0, if_pos hc] at h
      exact ⟨[], p, by simp [hc], List.not_mem_nil, (Option.some.inj h).symm⟩
    · rw [if_neg h0, if_neg hc] at h
      obtain ⟨k, hk, rfl⟩ := Option.map_eq_some_iff.mp h
      obtain ⟨l, s, rfl, hn, rfl⟩ := ih hk
      exact ⟨b :: l, s, rfl, by simp [Ne.symm hc, hn], rfl⟩

/-- Without NUL, `strchr` finds no `c` only when there is none. -/
theorem strchr_none {p : List UInt8} {c : UInt8} (h0 : 0 ∉ p) (h : strchr p c = none) : c ∉ p := by
  induction p with
  | nil => exact List.not_mem_nil
  | cons b p ih =>
    have hb0 : b ≠ 0 := fun e => h0 (e ▸ List.mem_cons_self ..)
    simp only [strchr, if_neg hb0] at h
    split_ifs at h with hbc
    simp only [Option.map_eq_none_iff] at h
    simp only [List.mem_cons, not_or]
    exact ⟨fun e => hbc e.symm, ih (fun hm => h0 (List.mem_cons_of_mem _ hm)) h⟩

/-- The inner loop writes the matching lines that the held bytes complete, and leaves the
unfinished one. -/
theorem lineLoop_eq (re : List UInt8) :
    ∀ (fuel : Nat) (p : List UInt8), 0 ∉ p → p.length < fuel →
      lineLoop re fuel p = (matching re (linesFrom [] p), lastLine [] p)
  | 0, p, _, hlt => absurd hlt (Nat.not_lt_zero _)
  | fuel + 1, p, h0, hlt => by
    rw [lineLoop]
    cases hk : strchr p 10 with
    | none =>
      have hn := strchr_none h0 hk
      rw [linesFrom_of_not_mem hn, lastLine_of_not_mem hn]
      rfl
    | some k =>
      -- `p` is the line `l`, its `\n`, and the rest `s`
      obtain ⟨l, s, rfl, hn, rfl⟩ := strchr_some hk
      have hlen : s.length < fuel := by
        simp at hlt
        omega
      have hs0 : 0 ∉ s := fun hm => h0 (by simp [hm])
      obtain ⟨hl, hlast⟩ := linesFrom_line hn [] s
      have htake : (l ++ 10 :: s).take (l.length + 1) = l ++ [10] := by
        rw [List.take_append]
        simp
      have hdrop : (l ++ 10 :: s).drop (l.length + 1) = s := by
        rw [List.drop_append]
        simp
      simp only [htake, hdrop, List.take_left, lineLoop_eq re fuel s hs0 hlen, hl, hlast, matching,
        List.flatMap_cons, List.nil_append]

/-! ### The outer loop -/

/-- What the read loop keeps of the bytes `held` at the start of `buf` and the stream `rest`
still unread: the held bytes are an unfinished line that leaves room for the NUL, no NUL is
left to read, and no line to come is longer than 1022 bytes. -/
structure Held (held rest : List UInt8) : Prop where
  no_nl : 10 ∉ held
  no_nul : 0 ∉ held ++ rest
  room : held.length ≤ 1023
  short : ∀ l ∈ linesFrom held rest, l.length ≤ 1022

/-- A read of `n` bytes that fit in the buffer keeps `Held`: what is held next is the unfinished
line after them. -/
theorem Held.read {held rest : List UInt8} (h : Held held rest) (n : Nat)
    (hn : held.length + n ≤ 1023) : Held (lastLine held (rest.take n)) (rest.drop n) where
  no_nl := lastLine_not_mem h.no_nl _
  no_nul hm := by
    rcases List.mem_append.mp hm with hm | hm
    · rcases mem_lastLine hm with hm | hm
      · exact h.no_nul (List.mem_append_left _ hm)
      · exact h.no_nul (List.mem_append_right _ (List.mem_of_mem_take hm))
    · exact h.no_nul (List.mem_append_right _ (List.mem_of_mem_drop hm))
  room := by
    have := length_lastLine_le held (rest.take n)
    simp only [List.length_take] at this
    omega
  short l hl := h.short l (by
    rw [← List.take_append_drop n rest, linesFrom_append]
    exact List.mem_append_right _ hl)

/-- A held line that fills the buffer's 1023 bytes for data is never ended: the stream has no
`\n` left. -/
theorem Held.no_nl_of_full {held rest : List UInt8} (h : Held held rest)
    (hfull : held.length = 1023) : 10 ∉ rest := by
  intro hm
  -- the first `\n` of the stream would end a line of more than 1022 bytes
  obtain ⟨l, s, rfl, hl⟩ := List.eq_append_cons_of_mem hm
  have := h.short (held ++ l) (by rw [(linesFrom_line hl held s).1]; exact List.mem_cons_self ..)
  simp only [List.length_append] at this
  omega

/-- The read loop writes what `grepSpec` asks of the held bytes and the stream, as long as
`read` returns at least one byte while it can. The induction is on the fuel, with `Held`
carried from one read to the next. -/
theorem grepLoop_eq (re : List UInt8) :
    ∀ (fuel : Nat) (split : Nat → Nat) (held rest : List UInt8), (∀ i, 0 < split i) →
      rest.length < fuel → Held held rest →
      grepLoop re fuel split held rest = matching re (linesFrom held rest)
  | 0, _, _, _, _, hlt, _ => absurd hlt (Nat.not_lt_zero _)
  | fuel + 1, split, held, rest, hsplit, hlt, h => by
    rw [grepLoop]
    dsimp only
    split_ifs with hn
    · -- a read of `n > 0` bytes: the lines they complete, then the loop on what is left
      set n := min (split 0) (min (1024 - held.length - 1) rest.length) with hn_def
      have h0' : 0 ∉ held ++ rest.take n := fun hm => h.no_nul (by
        rcases List.mem_append.mp hm with hm | hm
        · exact List.mem_append_left _ hm
        · exact List.mem_append_right _ (List.mem_of_mem_take hm))
      have hlen : (held ++ rest.take n).length < held.length + n + 1 := by
        simp only [List.length_append, List.length_take]
        omega
      rw [lineLoop_eq re _ _ h0' hlen]
      obtain ⟨hpl, hpt⟩ := linesFrom_prefix h.no_nl [] (rest.take n)
      simp only [List.nil_append] at hpl hpt
      have ih := grepLoop_eq re fuel (fun i => split (i + 1)) _ _ (fun i => hsplit (i + 1))
        (by rw [List.length_drop]; omega) (h.read n (by omega))
      rw [hpl, hpt, ih, ← matching_append, ← linesFrom_append, List.take_append_drop]
    · -- no byte read: the stream is over, or the held line fills the buffer and is too long
      have hcase : rest.length = 0 ∨ held.length = 1023 := by
        have := hsplit 0
        have := h.room
        omega
      rcases hcase with hr | hfull
      · rw [List.length_eq_zero_iff.mp hr]
        rfl
      · rw [linesFrom_of_not_mem (h.no_nl_of_full hfull)]
        rfl

/-- `grep` writes exactly the matching newline-terminated lines of a stream without NUL whose
lines are at most 1022 bytes long, however `read` cuts the stream. -/
theorem grep_eq_grepSpec (re : List UInt8) (split : Nat → Nat) (input : List UInt8)
    (hsplit : ∀ i, 0 < split i) (h0 : 0 ∉ input) (hlines : ∀ l ∈ linesFrom [] input, l.length ≤ 1022) :
    grep re split input = grepSpec re input :=
  grepLoop_eq re _ split [] input hsplit (Nat.lt_succ_self _) ⟨List.not_mem_nil, h0, Nat.zero_le _, hlines⟩

/-- The stream `ab\ncb\nd\n` read two bytes at a time, with the pattern `b`: every read but the
first ends inside a line, and `grep` writes the two lines that hold a `b`. -/
theorem grep_eq_grepSpec_pairs :
    (∀ _ : Nat, 0 < 2) ∧ (0 : UInt8) ∉ ([97, 98, 10, 99, 98, 10, 100, 10] : List UInt8) ∧
      (∀ l ∈ linesFrom [] [97, 98, 10, 99, 98, 10, 100, 10], l.length ≤ 1022) ∧
      grep [98] (fun _ => 2) [97, 98, 10, 99, 98, 10, 100, 10] =
        grepSpec [98] [97, 98, 10, 99, 98, 10, 100, 10] ∧
      grepSpec [98] [97, 98, 10, 99, 98, 10, 100, 10] = [97, 98, 10, 99, 98, 10] := by
  have hsplit : ∀ _ : Nat, 0 < 2 := fun _ => Nat.two_pos
  have h0 : (0 : UInt8) ∉ ([97, 98, 10, 99, 98, 10, 100, 10] : List UInt8) := by decide
  have hlines : ∀ l ∈ linesFrom [] [97, 98, 10, 99, 98, 10, 100, 10], l.length ≤ 1022 := by decide
  exact ⟨hsplit, h0, hlines, grep_eq_grepSpec [98] (fun _ => 2) _ hsplit h0 hlines, by decide +kernel⟩

/-- A line of 1023 bytes fills the buffer: with the pattern `x`, the stream of 1023 `a`s, a `\n`,
then `x\n` makes `grep` write nothing, where `x\n` is a matching line. -/
theorem grep_stops_at_long_line :
    grep [120] (fun _ => 1024) (List.replicate 1023 97 ++ [10, 120, 10]) = [] ∧
    grepSpec [120] (List.replicate 1023 97 ++ [10, 120, 10]) = [120, 10] := by
  decide +kernel

end Grep

end Xv6
