import Xv6.Fs.Sysfile
import Xv6.User.Grep

/-!
# The parser of the shell

Model of the command parser of `user/sh.c`: `gettoken` and `peek` over the input line, the five
mutually recursive `parseline`, `parsepipe`, `parseexec`, `parseblock` and `parseredirs`, and
`parsecmd` with `nulterminate`. `runcmd` and the constructors' `malloc` are not modelled: a
constructor always returns its node.

The line is the list of its bytes and `charAt buf s` reads `*s`, `0` past the end. The C code
moves a pointer `*ps` through the line and stops at `es`, the position of its NUL; here the
pointer is a position `s`, and every parse function returns the position where it left it
with its tree. A word of the tree is the pair `(q, eq)` of the positions where it starts and
ends, `argv[i]` and `eargv[i]`. `nulterminate` writes a NUL at every `eq`.

`strchr` is the one of `user/ulib.c`, modelled in `Xv6.Grep`; its result is only tested for
null here. A `panic` is an error with its message.

The parser terminates on every input. `parseredirs` and the `&` loop of `parseline` read a
symbol before they go round again. The word loop of `parseexec` may stay in place only as
`argc` grows to `MAXARGS`. Of the four mutually recursive functions, one calls another at the
same position only down the order `parseline`, `parsepipe`, `parseexec`, `parseblock`, and
every call back up that order comes after a symbol is read: the measures are lexicographic,
the bytes left and then the rank or `MAXARGS - argc`. The position each function returns is
one it never moves back from (`s ≤ t`), so that a call on the result of another is seen to
make progress.
-/

namespace Xv6.Sh

/-- `MAXARGS`: room for the words of a simple command and the null pointer after them. -/
def MAXARGS : Nat := 10

/-- `struct cmd` with its five kinds `EXEC`, `REDIR`, `PIPE`, `LIST` and `BACK`. A word is an
`α`: in the parser's tree the pair `(q, eq)` of its ends in the line, for `argv[i]` and
`eargv[i]` or `file` and `efile`. -/
inductive Cmd (α : Type) where
  | exec (argv : List α)
  | redir (cmd : Cmd α) (file : α) (mode fd : Int32)
  | pipe (left right : Cmd α)
  | list (left right : Cmd α)
  | back (cmd : Cmd α)
  deriving Repr, DecidableEq

/-- The same tree with every word mapped by `f`. -/
def Cmd.map {α β : Type} (f : α → β) : Cmd α → Cmd β
  | .exec argv => .exec (argv.map f)
  | .redir c file mode fd => .redir (c.map f) (f file) mode fd
  | .pipe l r => .pipe (l.map f) (r.map f)
  | .list l r => .list (l.map f) (r.map f)
  | .back c => .back (c.map f)

/-- The `EXEC` node under the redirections of `ret`, given its `argv`: `parseexec` wraps the
node in its redirections as it reads them and fills in `argv` afterwards, through its
pointer `cmd` to the node. -/
def Cmd.withArgv {α : Type} : Cmd α → List α → Cmd α
  | .exec _, argv => .exec argv
  | .redir c file mode fd, argv => .redir (c.withArgv argv) file mode fd
  | c, _ => c

/-- `*s` for `s` at position `s` of the line. -/
def charAt (buf : List UInt8) (s : Nat) : UInt8 := buf.getD s 0

@[simp] theorem charAt_cons_zero (b : UInt8) (buf : List UInt8) : charAt (b :: buf) 0 = b := rfl

@[simp] theorem charAt_cons_succ (b : UInt8) (buf : List UInt8) (i : Nat) :
    charAt (b :: buf) (i + 1) = charAt buf i := rfl

/-- `strlen` of `user/ulib.c`. -/
def strlen (buf : List UInt8) : Nat := (buf.takeWhile (· != 0)).length

/-- `whitespace = " \t\r\n\v"` and `symbols = "<|>&;()"`. -/
def whitespace : List UInt8 := [32, 9, 13, 10, 11]
def symbols : List UInt8 := [60, 124, 62, 38, 59, 40, 41]

/-- `strchr(whitespace, c)`, tested for null. -/
def isWs (c : UInt8) : Bool := (Grep.strchr whitespace c).isSome

/-- `!strchr(whitespace, c) && !strchr(symbols, c)`: `c` goes on in a word. -/
def isWordByte (c : UInt8) : Bool :=
  (Grep.strchr whitespace c).isNone && (Grep.strchr symbols c).isNone

/-- `while (s < es && p(*s)) s++`, the two loops of `gettoken`: over whitespace and over a
word. -/
def scan (buf : List UInt8) (es : Nat) (p : UInt8 → Bool) (s : Nat) : Nat :=
  if s < es ∧ p (charAt buf s) = true then scan buf es p (s + 1) else s
termination_by es - s
decreasing_by omega

lemma le_scan (buf : List UInt8) (es : Nat) (p : UInt8 → Bool) (s : Nat) :
    s ≤ scan buf es p s := by
  fun_induction scan buf es p s with
  | case1 s _ ih => omega
  | case2 s _ => exact Nat.le_refl s

/-- `gettoken(ps, es, &q, &eq)` at `s`, as `(ret, q, eq, s')`: the kind of the token after the
whitespace (`0` at the end, the symbol itself, `'+'` for `>>`, `'a'` for a word), where it
starts and ends, and the position after the whitespace that follows it, the new `*ps`. The
bytes are `'|' = 124`, `'(' = 40`, `')' = 41`, `';' = 59`, `'&' = 38`, `'<' = 60`,
`'>' = 62`, `'+' = 43` and `'a' = 97`. -/
def gettoken (buf : List UInt8) (es s : Nat) : UInt8 × Nat × Nat × Nat :=
  let s := scan buf es isWs s
  let c := charAt buf s
  -- the `switch (*s)`: the token's kind and its end
  let r : UInt8 × Nat :=
    if c = 0 then (0, s)
    else if c ∈ [124, 40, 41, 59, 38, 60] then (c, s + 1)
    else if c = 62 then (if charAt buf (s + 1) = 62 then (43, s + 2) else (62, s + 1))
    else (97, scan buf es isWordByte s)
  (r.1, s, r.2, scan buf es isWs r.2)

/-- `peek(ps, es, toks)` at `s`: whether the byte after the whitespace is one of `toks`, and
its position, the new `*ps`. -/
def peek (buf : List UInt8) (es s : Nat) (toks : List UInt8) : Bool × Nat :=
  let s := scan buf es isWs s
  (charAt buf s != 0 && (Grep.strchr toks (charAt buf s)).isSome, s)

/-! ## The scanning loops and the tokens -/

section Scan

variable {buf : List UInt8} {es : Nat} {p : UInt8 → Bool} {s : Nat}

lemma scan_of_not (h : ¬(s < es ∧ p (charAt buf s) = true)) : scan buf es p s = s := by
  rw [scan, if_neg h]

lemma scan_of_lt (h : s < es) (hp : p (charAt buf s) = true) :
    scan buf es p s = scan buf es p (s + 1) := by
  rw [scan, if_pos ⟨h, hp⟩]

lemma scan_le (h : s ≤ es) : scan buf es p s ≤ es := by
  fun_induction scan buf es p s with
  | case1 s hs ih => exact ih hs.1
  | case2 s _ => exact h

/-- Every byte the loop steps over satisfies `p`. -/
lemma scan_prop : ∀ i, s ≤ i → i < scan buf es p s → i < es ∧ p (charAt buf i) = true := by
  fun_induction scan buf es p s with
  | case1 s hs ih =>
    intro i hi hlt
    rcases Nat.lt_or_eq_of_le hi with hi | rfl
    · exact ih i hi hlt
    · exact hs
  | case2 s _ => intro i hi hlt; omega

/-- The loop stops at `es` or at a byte that fails `p`. -/
lemma scan_stop (h : scan buf es p s < es) : p (charAt buf (scan buf es p s)) = false := by
  fun_induction scan buf es p s with
  | case1 s _ ih => exact ih h
  | case2 s hs => simpa [h] using hs

end Scan

lemma strchr_isSome_iff {l : List UInt8} {c : UInt8} (h0 : 0 ∉ l) :
    (Grep.strchr l c).isSome = true ↔ c ∈ l := by
  constructor
  · intro h
    obtain ⟨k, hk⟩ := Option.isSome_iff_exists.mp h
    obtain ⟨l, r, rfl, -, -⟩ := Grep.strchr_some hk
    simp
  · intro hc
    cases hs : Grep.strchr l c with
    | none => exact absurd hc (Grep.strchr_none h0 hs)
    | some _ => rfl

lemma isWs_iff {c : UInt8} : isWs c = true ↔ c ∈ whitespace :=
  strchr_isSome_iff (by simp [whitespace])

lemma isWordByte_iff {c : UInt8} : isWordByte c = true ↔ c ∉ whitespace ∧ c ∉ symbols := by
  rw [isWordByte, Bool.and_eq_true, Option.isNone_iff_eq_none, Option.isNone_iff_eq_none,
    ← Option.not_isSome_iff_eq_none, ← Option.not_isSome_iff_eq_none,
    strchr_isSome_iff (by simp [whitespace]), strchr_isSome_iff (by simp [symbols])]

/-- `peek` sees one of `toks` after the whitespace, when `toks` has no NUL. -/
lemma peek_iff {buf : List UInt8} {es s : Nat} {toks : List UInt8} (h0 : 0 ∉ toks) :
    (peek buf es s toks).1 = true ↔ charAt buf (scan buf es isWs s) ∈ toks := by
  simp only [peek, Bool.and_eq_true, bne_iff_ne, strchr_isSome_iff h0]
  exact ⟨fun h => h.2, fun h => ⟨fun e => h0 (e ▸ h), h⟩⟩

/-! The five cases of the `switch` in `gettoken`, with `p` the position after the whitespace. -/

section Gettoken

variable {buf : List UInt8} {es s : Nat}

lemma gettoken_of_zero (hc : charAt buf (scan buf es isWs s) = 0) :
    gettoken buf es s = (0, scan buf es isWs s, scan buf es isWs s,
      scan buf es isWs (scan buf es isWs s)) := by
  simp only [gettoken, if_pos hc]

lemma gettoken_of_mem (hc : charAt buf (scan buf es isWs s) ∈ [124, 40, 41, 59, 38, 60]) :
    gettoken buf es s = (charAt buf (scan buf es isWs s), scan buf es isWs s,
      scan buf es isWs s + 1, scan buf es isWs (scan buf es isWs s + 1)) := by
  have h0 : charAt buf (scan buf es isWs s) ≠ 0 := fun e => by rw [e] at hc; simp at hc
  simp only [gettoken, if_neg h0, if_pos hc]

lemma gettoken_of_gtgt (hc : charAt buf (scan buf es isWs s) = 62)
    (hn : charAt buf (scan buf es isWs s + 1) = 62) :
    gettoken buf es s = (43, scan buf es isWs s, scan buf es isWs s + 2,
      scan buf es isWs (scan buf es isWs s + 2)) := by
  simp only [gettoken, hc, hn]
  simp

lemma gettoken_of_gt (hc : charAt buf (scan buf es isWs s) = 62)
    (hn : charAt buf (scan buf es isWs s + 1) ≠ 62) :
    gettoken buf es s = (62, scan buf es isWs s, scan buf es isWs s + 1,
      scan buf es isWs (scan buf es isWs s + 1)) := by
  simp only [gettoken, hc, if_neg hn]
  simp

lemma gettoken_of_word (h0 : charAt buf (scan buf es isWs s) ≠ 0)
    (hm : charAt buf (scan buf es isWs s) ∉ [124, 40, 41, 59, 38, 60])
    (h62 : charAt buf (scan buf es isWs s) ≠ 62) :
    gettoken buf es s = (97, scan buf es isWs s, scan buf es isWordByte (scan buf es isWs s),
      scan buf es isWs (scan buf es isWordByte (scan buf es isWs s))) := by
  simp only [gettoken, if_neg h0, if_neg hm, if_neg h62]

end Gettoken

/-! ## Progress -/

lemma le_gettoken (buf : List UInt8) (es s : Nat) : s ≤ (gettoken buf es s).2.2.2 := by
  have hs := le_scan buf es isWs s
  have he : scan buf es isWs s ≤ (gettoken buf es s).2.2.1 := by
    simp only [gettoken]
    split_ifs
    · exact Nat.le_refl _
    · exact Nat.le_succ _
    · omega
    · exact Nat.le_succ _
    · exact le_scan _ _ _ _
  exact Nat.le_trans hs (Nat.le_trans he (le_scan _ _ _ _))

/-- A byte of the line that is not `0` is inside it. -/
lemma lt_length_of_charAt_ne_zero {buf : List UInt8} {s : Nat} (h : charAt buf s ≠ 0) :
    s < buf.length := by
  by_contra hs
  exact h (by simp [charAt, List.getD_eq_getElem?_getD, List.getElem?_eq_none (Nat.le_of_not_lt hs)])

lemma mem_of_strchr_isSome {toks : List UInt8} {c : UInt8}
    (h : (Grep.strchr toks c).isSome = true) : c ∈ toks := by
  obtain ⟨k, hk⟩ := Option.isSome_iff_exists.mp h
  obtain ⟨l, r, rfl, -, -⟩ := Grep.strchr_some hk
  simp

/-- When `peek` sees a symbol, the next `gettoken` reads past it. -/
lemma gettoken_consumes {buf : List UInt8} {es s : Nat} {toks : List UInt8}
    (h : (peek buf es s toks).1 = true) (ht : ∀ c ∈ toks, c ∈ symbols) :
    buf.length - (gettoken buf es s).2.2.2 < buf.length - s := by
  simp only [peek, Bool.and_eq_true, bne_iff_ne] at h
  obtain ⟨h0, hc⟩ := h
  have hsym := ht _ (mem_of_strchr_isSome hc)
  have hlt := lt_length_of_charAt_ne_zero h0
  have hs := le_scan buf es isWs s
  -- a symbol is one of the cases of the `switch` that step over it
  have he : scan buf es isWs s + 1 ≤ (gettoken buf es s).2.2.1 := by
    simp only [gettoken, if_neg h0]
    simp only [symbols, List.mem_cons, List.not_mem_nil, or_false] at hsym
    split_ifs <;> simp_all
  have := le_scan buf es isWs (gettoken buf es s).2.2.1
  have hg : (gettoken buf es s).2.2.2 = scan buf es isWs (gettoken buf es s).2.2.1 := rfl
  omega

/-! The steps of the lexicographic measures `(buf.length - s, rank)` and
`(buf.length - s, MAXARGS - argc)`. -/

lemma lex_of_lt {a₁ a₂ : Nat} (b₁ b₂ : Nat) (h : a₁ < a₂) :
    Prod.Lex (· < ·) (· < ·) (a₁, b₁) (a₂, b₂) :=
  Prod.Lex.left _ _ h

lemma lex_of_le {a₁ a₂ b₁ b₂ : Nat} (ha : a₁ ≤ a₂) (hb : b₁ < b₂) :
    Prod.Lex (· < ·) (· < ·) (a₁, b₁) (a₂, b₂) := by
  rcases Nat.lt_or_eq_of_le ha with h | rfl
  · exact Prod.Lex.left _ _ h
  · exact Prod.Lex.right _ hb

/-! ## The parser -/

section Parser

variable (buf : List UInt8) (es : Nat)

/-- What a parse function returns at `s`: the tree and a position not before `s`, or the
message of the `panic`. -/
abbrev Res (s : Nat) := Except String (Cmd (Nat × Nat) × {t : Nat // s ≤ t})

/-- The loop of `parseline`: `while (peek(ps, es, "&")) { gettoken(ps, es, 0, 0);
cmd = backcmd(cmd); }`. -/
def backLoop (cmd : Cmd (Nat × Nat)) (s : Nat) : Cmd (Nat × Nat) × {t : Nat // s ≤ t} :=
  if (peek buf es s [38]).1 = true then
    let r := backLoop (.back cmd) (gettoken buf es s).2.2.2
    (r.1, ⟨r.2.1, Nat.le_trans (le_gettoken buf es s) r.2.2⟩)
  else (cmd, ⟨(peek buf es s [38]).2, le_scan buf es isWs s⟩)
termination_by buf.length - s
decreasing_by exact gettoken_consumes ‹_› (by simp [symbols])

/-- `parseredirs(cmd, ps, es)`: wrap `cmd` in every redirection that follows. -/
def parseredirs (cmd : Cmd (Nat × Nat)) (s : Nat) : Res s :=
  if (peek buf es s [60, 62]).1 = true then
    let tok := (gettoken buf es s).1
    let s2 := (gettoken buf es s).2.2.2
    let w := gettoken buf es s2
    if w.1 ≠ 97 then .error "missing file for redirection"
    else
      let cmd :=
        if tok = 60 then Cmd.redir cmd (w.2.1, w.2.2.1) O_RDONLY 0
        else if tok = 62 then Cmd.redir cmd (w.2.1, w.2.2.1) (O_WRONLY ||| O_CREATE ||| O_TRUNC) 1
        else if tok = 43 then Cmd.redir cmd (w.2.1, w.2.2.1) (O_WRONLY ||| O_CREATE) 1
        else cmd
      match parseredirs cmd w.2.2.2 with
      | .error e => .error e
      | .ok (c, t) =>
        .ok (c, ⟨t.1, Nat.le_trans (Nat.le_trans (le_gettoken buf es s) (le_gettoken buf es s2)) t.2⟩)
  else .ok (cmd, ⟨(peek buf es s [60, 62]).2, le_scan buf es isWs s⟩)
termination_by buf.length - s
decreasing_by
  exact Nat.lt_of_le_of_lt (Nat.sub_le_sub_left (le_gettoken buf es _) _)
    (gettoken_consumes ‹_› (by simp [symbols]))

/-- The loop of `parseexec` over the words of a simple command, with `ret` the tree so far
and `argv` the words read: `while (!peek(ps, es, "|)&;")) { ... }`. -/
def execLoop (ret : Cmd (Nat × Nat)) (argv : List (Nat × Nat)) (s : Nat) :
    Except String (Cmd (Nat × Nat) × List (Nat × Nat) × {t : Nat // s ≤ t}) :=
  if (peek buf es s [124, 41, 38, 59]).1 then
    .ok (ret, argv, ⟨(peek buf es s [124, 41, 38, 59]).2, le_scan buf es isWs s⟩)
  else
    let g := gettoken buf es s
    if g.1 = 0 then .ok (ret, argv, ⟨g.2.2.2, le_gettoken buf es s⟩)
    else if g.1 ≠ 97 then .error "syntax"
    -- `argc` is `argv.length`, one more after the word
    else if MAXARGS ≤ (argv ++ [(g.2.1, g.2.2.1)]).length then .error "too many args"
    else
      match parseredirs buf es ret g.2.2.2 with
      | .error e => .error e
      | .ok (ret, t) =>
        match execLoop ret (argv ++ [(g.2.1, g.2.2.1)]) t.1 with
        | .error e => .error e
        | .ok (ret, argv, t') =>
          .ok (ret, argv, ⟨t'.1, Nat.le_trans (Nat.le_trans (le_gettoken buf es s) t.2) t'.2⟩)
termination_by (buf.length - s, MAXARGS - argv.length)
decreasing_by
  refine lex_of_le (Nat.sub_le_sub_left (Nat.le_trans (le_gettoken buf es s) t.2) _) ?_
  have h : ¬MAXARGS ≤ (argv ++ [((gettoken buf es s).2.1, (gettoken buf es s).2.2.1)]).length :=
    ‹_›
  simp only [List.length_append, List.length_singleton] at h ⊢
  omega

mutual

/-- `parseblock(ps, es)`: a parenthesized line and its redirections. -/
def parseblock (s : Nat) : Res s :=
  if (peek buf es s [40]).1 = true then
    match parseline (gettoken buf es s).2.2.2 with
    | .error e => .error e
    | .ok (cmd, t) =>
      if (peek buf es t.1 [41]).1 then
        match parseredirs buf es cmd (gettoken buf es t.1).2.2.2 with
        | .error e => .error e
        | .ok (cmd, t') =>
          .ok (cmd, ⟨t'.1, Nat.le_trans (Nat.le_trans (Nat.le_trans (le_gettoken buf es s) t.2)
            (le_gettoken buf es t.1)) t'.2⟩)
      else .error "syntax - missing )"
  else .error "parseblock"
termination_by (buf.length - s, 0)
decreasing_by exact lex_of_lt _ _ (gettoken_consumes ‹_› (by simp [symbols]))

/-- `parseexec(ps, es)`: a block, or a simple command with its redirections. -/
def parseexec (s : Nat) : Res s :=
  if (peek buf es s [40]).1 then parseblock s
  else
    match parseredirs buf es (.exec []) s with
    | .error e => .error e
    | .ok (ret, t) =>
      match execLoop buf es ret [] t.1 with
      | .error e => .error e
      | .ok (ret, argv, t') => .ok (ret.withArgv argv, ⟨t'.1, Nat.le_trans t.2 t'.2⟩)
termination_by (buf.length - s, 1)
decreasing_by exact lex_of_le (Nat.le_refl _) Nat.zero_lt_one

/-- `parsepipe(ps, es)`: commands joined by `|`, to the right. -/
def parsepipe (s : Nat) : Res s :=
  match parseexec s with
  | .error e => .error e
  | .ok (cmd, t) =>
    if (peek buf es t.1 [124]).1 = true then
      match parsepipe (gettoken buf es t.1).2.2.2 with
      | .error e => .error e
      | .ok (right, t') =>
        .ok (.pipe cmd right, ⟨t'.1, Nat.le_trans (Nat.le_trans t.2 (le_gettoken buf es t.1)) t'.2⟩)
    else .ok (cmd, t)
termination_by (buf.length - s, 2)
decreasing_by
  · exact lex_of_le (Nat.le_refl _) Nat.one_lt_two
  · exact lex_of_lt _ _ (Nat.lt_of_lt_of_le (gettoken_consumes ‹_› (by simp [symbols]))
      (Nat.sub_le_sub_left t.2 _))

/-- `parseline(ps, es)`: a pipeline, the `&` after it, and the line after a `;`. -/
def parseline (s : Nat) : Res s :=
  match parsepipe s with
  | .error e => .error e
  | .ok (cmd, t) =>
    let b := backLoop buf es cmd t.1
    if (peek buf es b.2.1 [59]).1 = true then
      match parseline (gettoken buf es b.2.1).2.2.2 with
      | .error e => .error e
      | .ok (right, t') =>
        .ok (.list b.1 right, ⟨t'.1, Nat.le_trans (Nat.le_trans (Nat.le_trans t.2 b.2.2)
          (le_gettoken buf es b.2.1)) t'.2⟩)
    else .ok (b.1, ⟨b.2.1, Nat.le_trans t.2 b.2.2⟩)
termination_by (buf.length - s, 3)
decreasing_by
  · exact lex_of_le (Nat.le_refl _) (Nat.lt_succ_self 2)
  · exact lex_of_lt _ _ (Nat.lt_of_lt_of_le (gettoken_consumes ‹_› (by simp [symbols]))
      (Nat.sub_le_sub_left (Nat.le_trans t.2 (backLoop buf es cmd t.1).2.2) _))

end

/-- Induction along the four mutually recursive functions, in the order of their measure: the
property of `parseblock` at `s` may use the one of `parseline` where fewer bytes are left, the
one of `parseexec` that of `parseblock` at `s`, the one of `parsepipe` that of `parseexec` at
`s` and its own further on, and the one of `parseline` that of `parsepipe` at `s` and its own
further on. -/
theorem parse_induction {PB PE PP PL : Nat → Prop}
    (hB : ∀ s, (∀ s', buf.length - s' < buf.length - s → PL s') → PB s)
    (hE : ∀ s, PB s → PE s)
    (hP : ∀ s, PE s → (∀ s', buf.length - s' < buf.length - s → PP s') → PP s)
    (hL : ∀ s, PP s → (∀ s', buf.length - s' < buf.length - s → PL s') → PL s) (s : Nat) :
    PB s ∧ PE s ∧ PP s ∧ PL s := by
  suffices h : ∀ m s, buf.length - s = m → PB s ∧ PE s ∧ PP s ∧ PL s from h _ s rfl
  intro m
  induction m using Nat.strong_induction_on with
  | _ m ih =>
    intro s hs
    have hL' : ∀ s', buf.length - s' < buf.length - s → PL s' :=
      fun s' h => (ih _ (hs ▸ h) s' rfl).2.2.2
    have hP' : ∀ s', buf.length - s' < buf.length - s → PP s' :=
      fun s' h => (ih _ (hs ▸ h) s' rfl).2.2.1
    have hb := hB s hL'
    have hp := hP s (hE s hb) hP'
    exact ⟨hb, hE s hb, hp, hL s hp hL'⟩

end Parser

/-- `nulterminate(cmd)`: a NUL at the end of every word, `*eargv[i] = 0` and `*efile = 0`. -/
def nulterminate : Cmd (Nat × Nat) → List UInt8 → List UInt8
  | .exec argv, buf => argv.foldl (fun b w => b.set w.2 0) buf
  | .redir c file _ _, buf => (nulterminate c buf).set file.2 0
  | .pipe l r, buf => nulterminate r (nulterminate l buf)
  | .list l r, buf => nulterminate r (nulterminate l buf)
  | .back c, buf => nulterminate c buf

/-- `parsecmd(s)`: the tree of the whole line and the line after `nulterminate`, or the
`panic` of the parser; `"syntax"` when something is left over. -/
def parsecmd (buf : List UInt8) : Except String (Cmd (Nat × Nat) × List UInt8) :=
  let es := strlen buf
  match parseline buf es 0 with
  | .error e => .error e
  | .ok (cmd, t) =>
    if (peek buf es t.1 []).2 ≠ es then .error "syntax"
    else .ok (cmd, nulterminate cmd buf)

end Xv6.Sh
