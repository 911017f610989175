import Xv6.User.ShTree

/-!
# Printing a tree and parsing it back

A line for every well-formed tree (`print`): the words of a simple command with a blank
between them, and every other command with its parts in parentheses, `(l)|(r)`, `(l);(r)`,
`(c)&` and `(c)<file`. `parsecmd` reads the line back into the same tree: the C strings at its
`argv[i]` and `file` after `nulterminate` are the words that were printed (`parsecmd_print`).

The proof runs the parser along the line. The position lemmas say what `peek`, `gettoken` and
each parse function return at a position where known bytes stand (`Occurs`), with no
whitespace before them; the tree lemma then follows the printed tree, by induction on it, with
the line after it ending or going on with `)` (`Stop`).

The last section is about the lines `parsecmd` rejects: it rejects them with one of four syntax
messages (`parsecmd_error`).
-/

namespace Xv6.Sh

/-! ## The printer -/

/-- The symbol of a redirection: `<`, `>` or `>>`. -/
def redirOp (mode : Int32) : List UInt8 :=
  if mode = O_RDONLY then [60] else if mode = O_WRONLY ||| O_CREATE ||| O_TRUNC then [62] else [62, 62]

/-- A line that parses to the tree. -/
def print : Cmd (List UInt8) → List UInt8
  | .exec argv => [32].intercalate argv
  | .redir c file mode _ => 40 :: print c ++ 41 :: redirOp mode ++ file
  | .pipe l r => 40 :: print l ++ [41, 124, 40] ++ print r ++ [41]
  | .list l r => 40 :: print l ++ [41, 59, 40] ++ print r ++ [41]
  | .back c => 40 :: print c ++ [41, 38]

/-! ## Bytes at a position -/

/-- The bytes `x` stand in the line from `p` on. -/
def Occurs (buf : List UInt8) (p : Nat) (x : List UInt8) : Prop := x <+: buf.drop p

/-- After a tree the line ends, or goes on with `)`. -/
def Stop (buf : List UInt8) (q : Nat) : Prop := q = buf.length ∨ charAt buf q = 41

section Occurs

variable {buf : List UInt8} {p : Nat} {x y : List UInt8}

lemma occurs_append : Occurs buf p (x ++ y) ↔ Occurs buf p x ∧ Occurs buf (p + x.length) y := by
  simp only [Occurs]
  constructor
  · rintro ⟨t, ht⟩
    refine ⟨⟨y ++ t, by rw [← ht, List.append_assoc]⟩, ⟨t, ?_⟩⟩
    rw [← List.drop_drop, ← ht, List.append_assoc, List.drop_left]
  · rintro ⟨hx, hy⟩
    rw [← List.prefix_iff_eq_append.mp hx, List.drop_drop]
    exact (List.prefix_append_right_inj x).mpr hy

lemma occurs_cons {a : UInt8} : Occurs buf p (a :: x) ↔ Occurs buf p [a] ∧ Occurs buf (p + 1) x :=
  occurs_append (x := [a])

lemma Occurs.length_le (h : Occurs buf p x) : x.length ≤ buf.length - p := by
  simpa using List.IsPrefix.length_le h

lemma Occurs.charAt_eq (h : Occurs buf p x) {i : Nat} (hi : i < x.length) :
    charAt buf (p + i) = x[i] := by
  have hlt : i < (buf.drop p).length := Nat.lt_of_lt_of_le hi (List.IsPrefix.length_le h)
  rw [List.IsPrefix.getElem h hi, List.getElem_drop, charAt_eq_getD, List.getElem?_eq_getElem]
  rfl

lemma Occurs.charAt_head {a : UInt8} (h : Occurs buf p (a :: x)) : charAt buf p = a := by
  simpa using h.charAt_eq (i := 0) (Nat.zero_lt_succ _)

lemma Occurs.lt_length {a : UInt8} (h : Occurs buf p (a :: x)) : p < buf.length := by
  have := h.length_le
  simp only [List.length_cons] at this
  omega

lemma Occurs.slice_eq (h : Occurs buf p x) : slice buf (p, p + x.length) = x := by
  simp only [slice, Nat.add_sub_cancel_left]
  exact (List.prefix_iff_eq_take.mp h).symm

end Occurs

/-! ## Tokens at known bytes -/

lemma isWs_eq_false {c : UInt8} (h : c ∉ whitespace) : isWs c = false := by
  cases hc : isWs c
  · rfl
  · exact absurd (isWs_iff.mp hc) h

lemma not_ws_of_symbol {c : UInt8} (h : c ∈ symbols) : isWs c = false :=
  isWs_eq_false fun hw => by
    simp only [symbols, whitespace, List.mem_cons, List.not_mem_nil, or_false] at h hw
    rcases h with rfl | rfl | rfl | rfl | rfl | rfl | rfl <;> simp at hw

/-- The first byte of a word is neither whitespace nor a symbol. -/
lemma IsWord.head {a : UInt8} {w : List UInt8} (h : IsWord (a :: w)) :
    a ≠ 0 ∧ isWs a = false ∧ a ∉ symbols :=
  have h' := h.2 a (List.mem_cons_self ..)
  ⟨h'.1, isWs_eq_false h'.2.1, h'.2.2⟩

section Tokens

variable {buf : List UInt8} {es q : Nat}

lemma scan_ws_self (h : isWs (charAt buf q) = false) : scan buf es isWs q = q :=
  scan_of_not fun h' => by rw [h] at h'; exact Bool.false_ne_true h'.2

lemma peek_at (h : isWs (charAt buf q) = false) (toks : List UInt8) :
    peek buf es q toks = (charAt buf q != 0 && (Grep.strchr toks (charAt buf q)).isSome, q) := by
  simp only [peek, scan_ws_self h]

/-- A symbol other than `>` with no whitespace after it is one token. -/
lemma gettoken_sym (hc : charAt buf q ∈ [124, 40, 41, 59, 38, 60])
    (hn : isWs (charAt buf (q + 1)) = false) :
    gettoken buf es q = (charAt buf q, q, q + 1, q + 1) := by
  have hw : isWs (charAt buf q) = false := not_ws_of_symbol (by
    simp only [symbols, List.mem_cons, List.not_mem_nil, or_false] at hc ⊢; tauto)
  rw [gettoken_of_mem (by rwa [scan_ws_self hw]), scan_ws_self hw, scan_ws_self hn]

lemma gettoken_gt (hc : charAt buf q = 62) (hn : charAt buf (q + 1) ≠ 62)
    (hw : isWs (charAt buf (q + 1)) = false) : gettoken buf es q = (62, q, q + 1, q + 1) := by
  have h0 : isWs (charAt buf q) = false := by rw [hc]; decide
  rw [gettoken_of_gt (by rwa [scan_ws_self h0]) (by rwa [scan_ws_self h0]), scan_ws_self h0,
    scan_ws_self hw]

lemma gettoken_gtgt (hc : charAt buf q = 62) (hn : charAt buf (q + 1) = 62)
    (hw : isWs (charAt buf (q + 2)) = false) : gettoken buf es q = (43, q, q + 2, q + 2) := by
  have h0 : isWs (charAt buf q) = false := by rw [hc]; decide
  rw [gettoken_of_gtgt (by rwa [scan_ws_self h0]) (by rwa [scan_ws_self h0]), scan_ws_self h0,
    scan_ws_self hw]

/-- The loop over a word stops right after it. -/
lemma scan_word {w : List UInt8} (hx : Occurs buf q w) (hw : ∀ c ∈ w, isWordByte c = true)
    (hend : q + w.length = buf.length ∨ isWordByte (charAt buf (q + w.length)) = false) :
    scan buf buf.length isWordByte q = q + w.length := by
  induction w generalizing q with
  | nil =>
    refine scan_of_not fun h => ?_
    rcases hend with h' | h'
    · simp only [List.length_nil, Nat.add_zero] at h'; omega
    · simp only [List.length_nil, Nat.add_zero] at h'; rw [h'] at h; exact Bool.false_ne_true h.2
  | cons a w ih =>
    have hxa := occurs_cons.mp hx
    rw [scan_of_lt hx.lt_length (by rw [hx.charAt_head]; exact hw a (List.mem_cons_self ..)),
      ih hxa.2 (fun c hc => hw c (List.mem_cons_of_mem _ hc)) (by simpa [Nat.add_right_comm,
        Nat.add_assoc] using hend)]
    simp [Nat.add_right_comm, Nat.add_assoc]

/-- A word with no other word byte right after it is one token. -/
lemma gettoken_word_at {w : List UInt8} (hx : Occurs buf q w) (hw : IsWord w)
    (hend : q + w.length = buf.length ∨ isWordByte (charAt buf (q + w.length)) = false) :
    gettoken buf buf.length q =
      (97, q, q + w.length, scan buf buf.length isWs (q + w.length)) := by
  obtain ⟨a, w', rfl⟩ : ∃ a w', w = a :: w' := List.exists_cons_of_ne_nil hw.1
  obtain ⟨h0, hws, hsym⟩ := hw.head
  have ha := hx.charAt_head
  have hq : scan buf buf.length isWs q = q := scan_ws_self (by rw [ha]; exact hws)
  have hm : charAt buf (scan buf buf.length isWs q) ∉ [124, 40, 41, 59, 38, 60] := by
    rw [hq, ha]
    intro hm
    simp only [symbols, List.mem_cons, List.not_mem_nil, or_false] at hm hsym
    tauto
  have h62 : charAt buf (scan buf buf.length isWs q) ≠ 62 := by
    rw [hq, ha]
    rintro rfl
    exact hsym (by simp [symbols])
  rw [gettoken_of_word (by rwa [hq, ha]) hm h62, hq,
    scan_word hx (fun c hc => isWordByte_iff.mpr (hw.2 c hc).2) hend]

end Tokens

/-! ## The parse functions at known bytes -/

/-- `r` is the tree `c` with the position `q`. -/
def Yields {s : Nat} (r : Res s) (c : Cmd (Nat × Nat)) (q : Nat) : Prop :=
  ∃ h, r = .ok (c, ⟨q, h⟩)

/-- A call at a position given another way. -/
lemma Yields.congr_pos {f : (s : Nat) → Res s} {x y q : Nat} {c : Cmd (Nat × Nat)}
    (h : Yields (f y) c q) (e : x = y) : Yields (f x) c q :=
  e ▸ h

lemma Yields.congr_end {s : Nat} {r : Res s} {c : Cmd (Nat × Nat)} {q q' : Nat}
    (h : Yields r c q) (e : q = q') : Yields r c q' :=
  e ▸ h

lemma charAt_length (buf : List UInt8) : charAt buf buf.length = 0 := by
  simp [charAt_eq_getD]

/-- After a tree there is a NUL or `)`. -/
lemma Stop.byte {buf : List UInt8} {q : Nat} (h : Stop buf q) :
    charAt buf q = 0 ∨ charAt buf q = 41 := by
  rcases h with rfl | h
  · exact .inl (charAt_length buf)
  · exact .inr h

/-- Neither whitespace nor a word byte: it ends a word and is not skipped. -/
lemma Stop.not_ws {buf : List UInt8} {q : Nat} (h : Stop buf q) : isWs (charAt buf q) = false := by
  rcases h.byte with h | h <;> rw [h] <;> decide

lemma Stop.end_word {buf : List UInt8} {q : Nat} (h : Stop buf q) :
    q = buf.length ∨ isWordByte (charAt buf q) = false := by
  rcases h with h | h
  · exact .inl h
  · exact .inr (by rw [h]; decide)

lemma Stop.ne {buf : List UInt8} {q : Nat} {b : UInt8} (h : Stop buf q) (h0 : b ≠ 0) (h41 : b ≠ 41) :
    charAt buf q ≠ b := by
  rcases h.byte with h | h <;> rw [h]
  · exact h0.symm
  · exact h41.symm

lemma Stop.not_redir {buf : List UInt8} {q : Nat} (h : Stop buf q) : charAt buf q ∉ [60, 62] := by
  rcases h.byte with h | h <;> rw [h] <;> decide

/-! ## The printed line -/

lemma forall_mem_intercalate {P : UInt8 → Prop} {sep : List UInt8} (hs : ∀ x ∈ sep, P x)
    {ws : List (List UInt8)} (hw : ∀ w ∈ ws, ∀ x ∈ w, P x) : ∀ x ∈ sep.intercalate ws, P x := by
  induction ws with
  | nil => simp
  | cons w ws ih =>
    cases ws with
    | nil => simpa using hw
    | cons w' ws =>
      rw [List.intercalate_cons_cons]
      intro x hx
      simp only [List.mem_append] at hx
      rcases hx with (hx | hx) | hx
      · exact hw w (List.mem_cons_self ..) x hx
      · exact hs x hx
      · exact ih (fun v hv => hw v (List.mem_cons_of_mem _ hv)) x hx

/-- The printed line holds no NUL, so `strlen` reads all of it. -/
lemma zero_not_mem_print {c : Cmd (List UInt8)} (hc : c.Wf IsWord) : 0 ∉ print c := by
  induction c with
  | exec argv =>
    intro h
    exact forall_mem_intercalate (P := fun x => x ≠ 0) (by simp)
      (fun w hw x hx => ((hc.2 w hw).2 x hx).1) 0 h rfl
  | redir c file mode fd ih =>
    have hop : 0 ∉ redirOp mode := by
      unfold redirOp
      split_ifs <;> decide
    have hf : 0 ∉ file := fun h => (hc.2.1.2 0 h).1 rfl
    simp [print, ih hc.1, hop, hf]
  | pipe l r ihl ihr | list l r ihl ihr => simp [print, ihl hc.1, ihr hc.2]
  | back c ih => simp [print, ih hc]

/-- The printed line starts with no whitespace. -/
lemma print_head {c : Cmd (List UInt8)} (hc : c.Wf IsWord) {a : UInt8} {x : List UInt8}
    (h : print c = a :: x) : isWs a = false := by
  cases c with
  | exec argv =>
    cases argv with
    | nil => simp [print] at h
    | cons w ws =>
      obtain ⟨b, w', rfl⟩ := List.exists_cons_of_ne_nil (hc.2 w (List.mem_cons_self ..)).1
      simp only [print, List.intercalate_cons_cons_left, List.cons.injEq] at h
      rw [← h.1]
      exact (hc.2 _ (List.mem_cons_self ..)).head.2.1
  | redir c file mode fd | pipe l r | list l r | back c =>
    simp only [print, List.cons_append, List.cons.injEq] at h
    rw [← h.1]
    decide

/-- After `(` comes the printed tree or, for an empty one, `)`: no whitespace either way. -/
lemma Occurs.not_ws_print {buf : List UInt8} {q : Nat} {c : Cmd (List UInt8)} (hc : c.Wf IsWord)
    (hx : Occurs buf q (print c ++ [41])) : isWs (charAt buf q) = false := by
  cases h : print c with
  | nil =>
    rw [h, List.nil_append] at hx
    rw [hx.charAt_head]
    decide
  | cons a x =>
    rw [h, List.cons_append] at hx
    rw [hx.charAt_head]
    exact print_head hc h

/-- A tree in parentheses, and what follows it. -/
lemma occurs_paren_append {buf : List UInt8} {p : Nat} {c : Cmd (List UInt8)} {y : List UInt8}
    (hx : Occurs buf p ((40 :: print c ++ [41]) ++ y)) :
    Occurs buf p (40 :: print c ++ [41]) ∧ Occurs buf (p + (print c).length + 2) y := by
  obtain ⟨hxb, hy⟩ := occurs_append.mp hx
  have hq : p + (40 :: print c ++ [41]).length = p + (print c).length + 2 := by
    simp only [List.length_append, List.length_cons, List.length_nil]
    omega
  exact ⟨hxb, hq ▸ hy⟩

section Parse

variable {buf : List UInt8} {es p q : Nat}

/-- No redirection follows. -/
lemma parseredirs_none (cmd : Cmd (Nat × Nat)) (hw : isWs (charAt buf q) = false)
    (h : charAt buf q ∉ [60, 62]) : Yields (parseredirs buf es cmd q) cmd q := by
  refine ⟨Nat.le_refl q, ?_⟩
  rw [parseredirs, if_neg (by rw [peek_iff (by decide), scan_ws_self hw]; exact h)]
  simp only [peek, scan_ws_self hw]

lemma backLoop_none (cmd : Cmd (Nat × Nat)) (hw : isWs (charAt buf q) = false)
    (h : charAt buf q ≠ 38) : (backLoop buf es cmd q).1 = cmd ∧ (backLoop buf es cmd q).2.1 = q := by
  rw [backLoop, if_neg (by rw [peek_iff (by decide), scan_ws_self hw]; simpa using h)]
  exact ⟨rfl, scan_ws_self hw⟩

lemma parseblock_of {tc t' : Cmd (Nat × Nat)} {q' : Nat} (h40 : charAt buf p = 40)
    (hh : isWs (charAt buf (p + 1)) = false) (hline : Yields (parseline buf es (p + 1)) tc q)
    (h41 : charAt buf q = 41) (hn : isWs (charAt buf (q + 1)) = false)
    (hr : Yields (parseredirs buf es tc (q + 1)) t' q') : Yields (parseblock buf es p) t' q' := by
  have hp : isWs (charAt buf p) = false := by rw [h40]; decide
  have hq : isWs (charAt buf q) = false := by rw [h41]; decide
  -- the tokens `(` and `)` each end one byte on
  have hg : (gettoken buf es p).2.2.2 = p + 1 := by rw [gettoken_sym (by rw [h40]; decide) hh]
  have hg' : (gettoken buf es q).2.2.2 = q + 1 := by rw [gettoken_sym (by rw [h41]; decide) hn]
  rw [← hg] at hline
  rw [← hg'] at hr
  obtain ⟨hle₁, hl⟩ := hline
  obtain ⟨hle₂, hr⟩ := hr
  refine ⟨Nat.le_trans (le_gettoken buf es p) (Nat.le_trans hle₁ (Nat.le_trans (le_gettoken buf es q)
    hle₂)), ?_⟩
  rw [parseblock, if_pos (by rw [peek_iff (by decide), scan_ws_self hp, h40]; decide)]
  simp only [hl]
  rw [if_pos (by rw [peek_iff (by decide), scan_ws_self hq, h41]; decide)]
  simp only [hr]

lemma parseexec_of_block {t : Cmd (Nat × Nat)} (h40 : charAt buf p = 40)
    (hb : Yields (parseblock buf es p) t q) : Yields (parseexec buf es p) t q := by
  have hp : isWs (charAt buf p) = false := by rw [h40]; decide
  rw [Yields, parseexec, if_pos (by rw [peek_iff (by decide), scan_ws_self hp, h40]; decide)]
  exact hb

lemma parsepipe_of_exec {t : Cmd (Nat × Nat)} (he : Yields (parseexec buf es p) t q)
    (hw : isWs (charAt buf q) = false) (h : charAt buf q ≠ 124) : Yields (parsepipe buf es p) t q := by
  obtain ⟨hle, he⟩ := he
  refine ⟨hle, ?_⟩
  rw [parsepipe]
  simp only [he]
  rw [if_neg (by rw [peek_iff (by decide), scan_ws_self hw]; simpa using h)]

lemma parsepipe_pipe {tl tr : Cmd (Nat × Nat)} {q' : Nat} (he : Yields (parseexec buf es p) tl q)
    (h124 : charAt buf q = 124) (hw : isWs (charAt buf (q + 1)) = false)
    (hr : Yields (parsepipe buf es (q + 1)) tr q') : Yields (parsepipe buf es p) (.pipe tl tr) q' := by
  have hq : isWs (charAt buf q) = false := by rw [h124]; decide
  have hg : (gettoken buf es q).2.2.2 = q + 1 := by rw [gettoken_sym (by rw [h124]; decide) hw]
  rw [← hg] at hr
  obtain ⟨hle, he⟩ := he
  obtain ⟨hle', hr⟩ := hr
  refine ⟨Nat.le_trans hle (Nat.le_trans (le_gettoken buf es q) hle'), ?_⟩
  rw [parsepipe]
  simp only [he]
  rw [if_pos (by rw [peek_iff (by decide), scan_ws_self hq, h124]; decide)]
  simp only [hr]

lemma parseline_of_pipe {t : Cmd (Nat × Nat)} (hp : Yields (parsepipe buf es p) t q)
    (hw : isWs (charAt buf q) = false) (h38 : charAt buf q ≠ 38) (h59 : charAt buf q ≠ 59) :
    Yields (parseline buf es p) t q := by
  obtain ⟨hle, hp⟩ := hp
  refine ⟨hle, ?_⟩
  have hb := @backLoop_none buf es q t hw h38
  rw [parseline]
  simp only [hp]
  rw [if_neg (by rw [peek_iff (by decide), hb.2, scan_ws_self hw]; simpa using h59)]
  simp only [hb.1, hb.2]

lemma parseline_list {tl tr : Cmd (Nat × Nat)} {q' : Nat} (hp : Yields (parsepipe buf es p) tl q)
    (h59 : charAt buf q = 59) (hw : isWs (charAt buf (q + 1)) = false)
    (hr : Yields (parseline buf es (q + 1)) tr q') : Yields (parseline buf es p) (.list tl tr) q' := by
  have hq : isWs (charAt buf q) = false := by rw [h59]; decide
  have hb := @backLoop_none buf es q tl hq (by rw [h59]; decide)
  -- no `&`, then `;` and the line after it
  have hg : (gettoken buf es (backLoop buf es tl q).2.1).2.2.2 = q + 1 := by
    rw [hb.2, gettoken_sym (by rw [h59]; decide) hw]
  rw [← hg] at hr
  obtain ⟨hle, hp⟩ := hp
  obtain ⟨hle', hr⟩ := hr
  refine ⟨Nat.le_trans hle (Nat.le_trans (Nat.le_trans (backLoop buf es tl q).2.2
    (le_gettoken buf es _)) hle'), ?_⟩
  rw [parseline]
  simp only [hp]
  rw [if_pos (by rw [peek_iff (by decide), hb.2, scan_ws_self hq, h59]; decide)]
  simp only [hr, hb.1]

lemma parseline_back {tc : Cmd (Nat × Nat)} (hp : Yields (parsepipe buf es p) tc q)
    (h38 : charAt buf q = 38) (hw : isWs (charAt buf (q + 1)) = false)
    (h38' : charAt buf (q + 1) ≠ 38) (h59 : charAt buf (q + 1) ≠ 59) :
    Yields (parseline buf es p) (.back tc) (q + 1) := by
  have hq : isWs (charAt buf q) = false := by rw [h38]; decide
  obtain ⟨hle, hp⟩ := hp
  refine ⟨Nat.le_trans hle (Nat.le_succ q), ?_⟩
  -- one round of the `&` loop, then none
  have hb : (backLoop buf es tc q).1 = .back tc ∧ (backLoop buf es tc q).2.1 = q + 1 := by
    have hg : (gettoken buf es q).2.2.2 = q + 1 := by rw [gettoken_sym (by rw [h38]; decide) hw]
    have hnext := @backLoop_none buf es (q + 1) (Cmd.back tc) hw h38'
    rw [← hg] at hnext
    rw [backLoop, if_pos (by rw [peek_iff (by decide), scan_ws_self hq, h38]; decide)]
    exact ⟨hnext.1, hnext.2.trans hg⟩
  rw [parseline]
  simp only [hp]
  rw [if_neg (by rw [peek_iff (by decide), hb.2, scan_ws_self hw]; simpa using h59)]
  simp only [hb.1, hb.2]

/-- One redirection: its symbol token ends at `q + o`, where its word starts. -/
lemma parseredirs_one (cmd : Cmd (Nat × Nat)) {tok : UInt8} {o : Nat} {f : List UInt8}
    (hp : (peek buf buf.length q [60, 62]).1 = true)
    (ht : gettoken buf buf.length q = (tok, q, q + o, q + o))
    (hf : IsWord f) (hx : Occurs buf (q + o) f) (hs : Stop buf (q + o + f.length)) :
    Yields (parseredirs buf buf.length cmd q)
      (if tok = 60 then Cmd.redir cmd (q + o, q + o + f.length) O_RDONLY 0
        else if tok = 62 then Cmd.redir cmd (q + o, q + o + f.length) (O_WRONLY ||| O_CREATE ||| O_TRUNC) 1
        else if tok = 43 then Cmd.redir cmd (q + o, q + o + f.length) (O_WRONLY ||| O_CREATE) 1
        else cmd) (q + o + f.length) := by
  have hw := gettoken_word_at hx hf hs.end_word
  rw [scan_ws_self hs.not_ws] at hw
  have hs2 : (gettoken buf buf.length q).2.2.2 = q + o := by rw [ht]
  -- the word token after the symbol, and no redirection after the word
  have h1 : (gettoken buf buf.length (gettoken buf buf.length q).2.2.2).1 = 97 := by rw [hs2, hw]
  have h2 : (gettoken buf buf.length (gettoken buf buf.length q).2.2.2).2.1 = q + o := by rw [hs2, hw]
  have h3 : (gettoken buf buf.length (gettoken buf buf.length q).2.2.2).2.2.1 = q + o + f.length := by
    rw [hs2, hw]
  have h4 : (gettoken buf buf.length (gettoken buf buf.length q).2.2.2).2.2.2 = q + o + f.length := by
    rw [hs2, hw]
  have htok : (gettoken buf buf.length q).1 = tok := by rw [ht]
  rw [Yields, parseredirs, if_pos hp]
  simp only [h1, h2, h3, htok, ne_eq, not_true_eq_false, ↓reduceIte]
  obtain ⟨hle, hr⟩ := Yields.congr_pos (f := fun s => parseredirs buf buf.length _ s)
    (@parseredirs_none buf buf.length _ (if tok = 60 then Cmd.redir cmd (q + o, q + o + f.length) O_RDONLY 0
        else if tok = 62 then Cmd.redir cmd (q + o, q + o + f.length) (O_WRONLY ||| O_CREATE ||| O_TRUNC) 1
        else if tok = 43 then Cmd.redir cmd (q + o, q + o + f.length) (O_WRONLY ||| O_CREATE) 1
        else cmd) hs.not_ws hs.not_redir) h4
  refine ⟨Nat.le_trans (le_gettoken _ _ _) (Nat.le_trans (le_gettoken _ _ _) hle), ?_⟩
  simp only [hr]

/-- A redirection `<f`, `>f` or `>>f` with the line ending after it or going on with `)`. -/
lemma parseredirs_redir (cmd : Cmd (Nat × Nat)) {f : List UInt8} {mode fd : Int32}
    (hm : (mode, fd) ∈ redirModes) (hf : IsWord f) (hx : Occurs buf q (redirOp mode ++ f))
    (hs : Stop buf (q + (redirOp mode).length + f.length)) :
    Yields (parseredirs buf buf.length cmd q)
      (.redir cmd (q + (redirOp mode).length, q + (redirOp mode).length + f.length) mode fd)
      (q + (redirOp mode).length + f.length) := by
  obtain ⟨hxo, hxf⟩ := occurs_append.mp hx
  obtain ⟨a, f', rfl⟩ := List.exists_cons_of_ne_nil hf.1
  obtain ⟨_, hwa, hsym⟩ := hf.head
  have ha : charAt buf (q + (redirOp mode).length) = a := hxf.charAt_head
  have hna : isWs (charAt buf (q + (redirOp mode).length)) = false := by rw [ha]; exact hwa
  simp only [redirModes, List.mem_cons, Prod.mk.injEq, List.not_mem_nil, or_false] at hm
  rcases hm with ⟨rfl, rfl⟩ | ⟨rfl, rfl⟩ | ⟨rfl, rfl⟩
  · -- `<`
    have hop : redirOp O_RDONLY = [60] := by decide
    rw [hop] at hxo ha hna hs ⊢
    have h60 : charAt buf q = 60 := by simpa using hxo.charAt_head
    have hp : (peek buf buf.length q [60, 62]).1 = true := by
      rw [peek_iff (by decide), scan_ws_self (by rw [h60]; decide), h60]
      decide
    simpa [h60] using parseredirs_one cmd hp (gettoken_sym (by rw [h60]; decide) hna) hf hxf hs
  · -- `>`
    have hop : redirOp (O_WRONLY ||| O_CREATE ||| O_TRUNC) = [62] := by decide
    rw [hop] at hxo ha hna hs ⊢
    have h62 : charAt buf q = 62 := by simpa using hxo.charAt_head
    have hp : (peek buf buf.length q [60, 62]).1 = true := by
      rw [peek_iff (by decide), scan_ws_self (by rw [h62]; decide), h62]
      decide
    have hn : charAt buf (q + 1) ≠ 62 := by
      have ha' : charAt buf (q + 1) = a := by simpa using ha
      rw [ha']
      rintro rfl
      exact hsym (by simp [symbols])
    simpa using parseredirs_one cmd hp (gettoken_gt h62 hn hna) hf hxf hs
  · -- `>>`
    have hop : redirOp (O_WRONLY ||| O_CREATE) = [62, 62] := by decide
    rw [hop] at hxo ha hna hs ⊢
    have h62 : charAt buf q = 62 := by simpa using hxo.charAt_head
    have h62' : charAt buf (q + 1) = 62 := by simpa using hxo.charAt_eq (i := 1) (by decide)
    have hp : (peek buf buf.length q [60, 62]).1 = true := by
      rw [peek_iff (by decide), scan_ws_self (by rw [h62]; decide), h62]
      decide
    simpa using parseredirs_one cmd hp (gettoken_gtgt h62 h62' hna) hf hxf hs

/-- A word byte is not one of the symbols `peek` looks for. -/
lemma not_mem_of_not_symbol {a : UInt8} (h : a ∉ symbols) {toks : List UInt8}
    (ht : ∀ c ∈ toks, c ∈ symbols) : a ∉ toks :=
  fun hm => h (ht a hm)

/-- One round of the word loop: a word token, no redirection after it, and the loop from
the position after it. -/
lemma execLoop_word (ret : Cmd (Nat × Nat)) {acc argv : List (Nat × Nat)} {w : Nat × Nat}
    {e E : Nat} (hpk : ¬(peek buf es p [124, 41, 38, 59]).1 = true)
    (hg : gettoken buf es p = (97, w.1, w.2, e)) (hn : acc.length + 1 < MAXARGS)
    (he : isWs (charAt buf e) = false) (he' : charAt buf e ∉ [60, 62]) {h : e ≤ E}
    (hl : execLoop buf es ret (acc ++ [w]) e = .ok (ret, argv, ⟨E, h⟩)) :
    ∃ h, execLoop buf es ret acc p = .ok (ret, argv, ⟨E, h⟩) := by
  have h1 : (gettoken buf es p).1 = 97 := by rw [hg]
  have h2 : ((gettoken buf es p).2.1, (gettoken buf es p).2.2.1) = w := by rw [hg]
  have h4 : (gettoken buf es p).2.2.2 = e := by rw [hg]
  obtain ⟨hle, hr⟩ := Yields.congr_pos (f := fun s => parseredirs buf es ret s)
    (parseredirs_none ret he he') h4
  refine ⟨Nat.le_trans (le_gettoken buf es p) (Nat.le_trans hle (h4 ▸ h)), ?_⟩
  rw [execLoop, if_neg hpk]
  simp only [h1, h2, ne_eq, not_true_eq_false, ↓reduceIte, List.length_append, List.length_singleton]
  rw [if_neg (show ¬MAXARGS ≤ acc.length + 1 by omega)]
  simp only [hr, hl]
  rw [if_neg (show (97 : UInt8) ≠ 0 by decide)]

/-- The word loop over the words of a simple command printed with blanks between them. -/
lemma execLoop_words (ret : Cmd (Nat × Nat)) {ws : List (List UInt8)} :
    ∀ {acc : List (Nat × Nat)} {p : Nat}, (∀ w ∈ ws, IsWord w) → acc.length + ws.length < MAXARGS →
      Occurs buf p ([32].intercalate ws) → Stop buf (p + ([32].intercalate ws).length) →
      ∃ spans h, execLoop buf buf.length ret acc p =
        .ok (ret, acc ++ spans, ⟨p + ([32].intercalate ws).length, h⟩) ∧ spans.map (slice buf) = ws := by
  induction ws with
  | nil =>
    intro acc p _ _ _ hs
    simp only [List.intercalate_nil, List.length_nil, Nat.add_zero] at hs ⊢
    have hw := hs.not_ws
    refine ⟨[], Nat.le_refl p, ?_, rfl⟩
    rw [List.append_nil, execLoop]
    rcases hs.byte with h | h
    · -- the end of the line: `gettoken` returns `0`
      rw [if_neg (by rw [peek_iff (by decide), scan_ws_self hw, h]; decide)]
      have hg : gettoken buf buf.length p = (0, p, p, p) := by
        rw [gettoken_of_zero (by rw [scan_ws_self hw, h]), scan_ws_self hw, scan_ws_self hw]
      have h1 : (gettoken buf buf.length p).1 = 0 := by rw [hg]
      have h4 : (gettoken buf buf.length p).2.2.2 = p := by rw [hg]
      simp only [h1, ↓reduceIte, h4]
    · -- `)` stops the loop
      rw [if_pos (by rw [peek_iff (by decide), scan_ws_self hw, h]; decide)]
      simp only [peek, scan_ws_self hw]
  | cons w ws ih =>
    intro acc p hws hn hx hs
    have hw := hws w (List.mem_cons_self ..)
    obtain ⟨a, w', rfl⟩ := List.exists_cons_of_ne_nil hw.1
    obtain ⟨_, hwa, hsym⟩ := hw.head
    have hxw : Occurs buf p (a :: w') := by
      cases ws with
      | nil => simpa using hx
      | cons w₂ ws => exact (occurs_append.mp (by simpa only [List.intercalate_cons_cons,
          List.append_assoc] using hx)).1
    have ha : charAt buf p = a := hxw.charAt_head
    have hpk : ¬(peek buf buf.length p [124, 41, 38, 59]).1 = true := by
      rw [peek_iff (by decide), scan_ws_self (by rw [ha]; exact hwa), ha]
      exact not_mem_of_not_symbol hsym (by simp [symbols])
    have hnw : acc.length + 1 < MAXARGS := by simp only [List.length_cons] at hn; omega
    cases ws with
    | nil =>
      -- the last word, and the line ends after it or goes on with `)`
      simp only [List.intercalate_singleton] at hx hs ⊢
      have hg := gettoken_word_at hx hw hs.end_word
      rw [scan_ws_self hs.not_ws] at hg
      obtain ⟨spans, h, hl, hsp⟩ := @ih (acc ++ [(p, p + (a :: w').length)]) _
        (by simp) (by simp only [List.length_append, List.length_nil]; omega)
        (by simp [Occurs]) (by simpa using hs)
      obtain ⟨h', hl'⟩ := execLoop_word ret hpk hg hnw hs.not_ws
        hs.not_redir hl
      simp only [List.map_eq_nil_iff] at hsp
      subst hsp
      refine ⟨[(p, p + (a :: w').length)], by simp, by simpa using hl', ?_⟩
      simpa using hx.slice_eq
    | cons w₂ ws =>
      -- a blank, then the next word
      have hw₂ := hws w₂ (by simp)
      obtain ⟨b, w₂', rfl⟩ := List.exists_cons_of_ne_nil hw₂.1
      obtain ⟨_, hwb, hsymb⟩ := hw₂.head
      rw [List.intercalate_cons_cons, List.append_assoc] at hx hs ⊢
      obtain ⟨hxw, hx'⟩ := occurs_append.mp hx
      obtain ⟨hx32, hrest⟩ := occurs_append.mp hx'
      have hrest' : Occurs buf (p + (a :: w').length + 1) ([32].intercalate ((b :: w₂') :: ws)) :=
        hrest
      have h32 : charAt buf (p + (a :: w').length) = 32 := hx32.charAt_head
      have hb : charAt buf (p + (a :: w').length + 1) = b := by
        have h := hrest'
        rw [List.intercalate_cons_cons_left] at h
        exact h.charAt_head
      have hsc : scan buf buf.length isWs (p + (a :: w').length) = p + (a :: w').length + 1 := by
        rw [scan_of_lt hx32.lt_length (by rw [h32]; decide), scan_ws_self (by rw [hb]; exact hwb)]
      have hg := gettoken_word_at hxw hw (.inr (by rw [h32]; decide))
      rw [hsc] at hg
      have hlen : p + ((a :: w') ++ ([32] ++ [32].intercalate ((b :: w₂') :: ws))).length =
          p + (a :: w').length + 1 + ([32].intercalate ((b :: w₂') :: ws)).length := by
        simp only [List.length_append, List.length_singleton]
        omega
      obtain ⟨spans, h, hl, hsp⟩ := @ih (acc ++ [(p, p + (a :: w').length)]) _
        (fun w hm => hws w (List.mem_cons_of_mem _ hm))
        (by simp only [List.length_append, List.length_cons, List.length_nil] at hn ⊢; omega)
        hrest' (hlen ▸ hs)
      obtain ⟨h', hl'⟩ := execLoop_word ret hpk hg hnw (by rw [hb]; exact hwb)
        (by rw [hb]; exact not_mem_of_not_symbol hsymb (by simp [symbols])) hl
      refine ⟨(p, p + (a :: w').length) :: spans, hlen ▸ h', ?_, ?_⟩
      · rw [hl', List.append_assoc, List.singleton_append]
        congr 3
        exact Subtype.ext hlen.symm
      · simpa [hsp] using hxw.slice_eq

/-- A simple command: no block, no redirection before its words, and the word loop. -/
lemma parseexec_words {ws : List (List UInt8)} (hws : ∀ w ∈ ws, IsWord w)
    (hn : ws.length < MAXARGS) (hx : Occurs buf p (print (.exec ws)))
    (hs : Stop buf (p + (print (.exec ws)).length)) :
    ∃ spans, Yields (parseexec buf buf.length p) (.exec spans) (p + (print (.exec ws)).length) ∧
      spans.map (slice buf) = ws := by
  -- the first byte is the first byte of a word, or the one after the command
  have hfirst : isWs (charAt buf p) = false ∧ charAt buf p ∉ symbols ∨ Stop buf p := by
    cases ws with
    | nil => exact .inr (by simpa [print] using hs)
    | cons w ws =>
      obtain ⟨a, w', rfl⟩ := List.exists_cons_of_ne_nil (hws w (List.mem_cons_self ..)).1
      obtain ⟨_, hwa, hsym⟩ := (hws _ (List.mem_cons_self ..)).head
      have ha : charAt buf p = a := by
        simp only [print, List.intercalate_cons_cons_left] at hx
        exact hx.charAt_head
      exact .inl ⟨ha ▸ hwa, ha ▸ hsym⟩
  have hw : isWs (charAt buf p) = false := by
    rcases hfirst with h | h
    · exact h.1
    · exact h.not_ws
  have h40 : charAt buf p ∉ [40] := by
    rcases hfirst with h | h
    · exact not_mem_of_not_symbol h.2 (by simp [symbols])
    · rcases h.byte with h | h <;> rw [h] <;> decide
  have hlg : charAt buf p ∉ [60, 62] := by
    rcases hfirst with h | h
    · exact not_mem_of_not_symbol h.2 (by simp [symbols])
    · exact h.not_redir
  obtain ⟨hle, hr⟩ := @parseredirs_none buf buf.length _ (Cmd.exec []) hw hlg
  obtain ⟨spans, h, hl, hsp⟩ := @execLoop_words buf (Cmd.exec []) _ [] _ hws (by simpa using hn) hx hs
  refine ⟨spans, ⟨h, ?_⟩, hsp⟩
  rw [parseexec, if_neg (by rw [peek_iff (by decide), scan_ws_self hw]; exact h40)]
  simp only [hr, hl, List.nil_append]
  rfl

/-- `parseline` reads the tree `c` back from every position where it is printed, up to its
last byte, when the line ends after it or goes on with `)`. -/
def Reads (buf : List UInt8) (c : Cmd (List UInt8)) : Prop :=
  ∀ {p : Nat}, Occurs buf p (print c) → Stop buf (p + (print c).length) →
    ∃ t, Yields (parseline buf buf.length p) t (p + (print c).length) ∧ t.map (slice buf) = c

/-- A tree in parentheses is a block: the tree read inside, then the redirections after `)`. -/
lemma parseblock_paren {c : Cmd (List UInt8)} (hc : c.Wf IsWord) (ih : Reads buf c)
    (hx : Occurs buf p (40 :: print c ++ [41]))
    (hn : isWs (charAt buf (p + (print c).length + 2)) = false) :
    ∃ tc, tc.map (slice buf) = c ∧ ∀ {t' : Cmd (Nat × Nat)} {q' : Nat},
      Yields (parseredirs buf buf.length tc (p + (print c).length + 2)) t' q' →
        Yields (parseblock buf buf.length p) t' q' := by
  obtain ⟨h40, hx'⟩ := occurs_cons.mp hx
  obtain ⟨hxc, h41⟩ := occurs_append.mp hx'
  obtain ⟨tc, hl, htc⟩ := ih hxc (.inr h41.charAt_head)
  have he : p + 1 + (print c).length + 1 = p + (print c).length + 2 := by omega
  refine ⟨tc, htc, fun hr => ?_⟩
  exact parseblock_of h40.charAt_head (hx'.not_ws_print hc) hl h41.charAt_head (by rw [he]; exact hn)
    (Yields.congr_pos (f := fun s => parseredirs buf buf.length tc s) hr he)

/-- A tree in parentheses with no redirection after `)` is read by `parseexec`. -/
lemma parseexec_paren {c : Cmd (List UInt8)} (hc : c.Wf IsWord) (ih : Reads buf c)
    (hx : Occurs buf p (40 :: print c ++ [41]))
    (hn : isWs (charAt buf (p + (print c).length + 2)) = false)
    (hr : charAt buf (p + (print c).length + 2) ∉ [60, 62]) :
    ∃ t, Yields (parseexec buf buf.length p) t (p + (print c).length + 2) ∧ t.map (slice buf) = c := by
  obtain ⟨tc, htc, hb⟩ := parseblock_paren hc ih hx hn
  exact ⟨tc, parseexec_of_block (occurs_cons.mp hx).1.charAt_head (hb (parseredirs_none tc hn hr)), htc⟩

/-- The same with the line ending after `)` or going on with `)`: `parsepipe` reads it. -/
lemma parsepipe_paren {c : Cmd (List UInt8)} (hc : c.Wf IsWord) (ih : Reads buf c)
    (hx : Occurs buf p (40 :: print c ++ [41])) (hs : Stop buf (p + (print c).length + 2)) :
    ∃ t, Yields (parsepipe buf buf.length p) t (p + (print c).length + 2) ∧ t.map (slice buf) = c := by
  obtain ⟨t, he, ht⟩ := parseexec_paren hc ih hx hs.not_ws hs.not_redir
  exact ⟨t, parsepipe_of_exec he hs.not_ws (hs.ne (by decide) (by decide)), ht⟩

/-- What a `parsepipe` reads up to a `Stop` is also what `parseline` reads. -/
lemma parseline_of_stop {t : Cmd (Nat × Nat)} (hp : Yields (parsepipe buf buf.length p) t q)
    (hs : Stop buf q) : Yields (parseline buf buf.length p) t q :=
  parseline_of_pipe hp hs.not_ws (hs.ne (by decide) (by decide)) (hs.ne (by decide) (by decide))

/-- Two trees in parentheses with the byte `b` between them, as `|` and `;` join them: `(l)` is
read by `parseexec` up to `b`, and `(r)` by `parsepipe` up to the stop. -/
lemma paren_pair {l r : Cmd (List UInt8)} {b : UInt8} (hl : l.Wf IsWord) (hr : r.Wf IsWord)
    (ihl : Reads buf l) (ihr : Reads buf r) (hbw : isWs b = false) (hbr : b ∉ [60, 62])
    (hx : Occurs buf p ((40 :: print l ++ [41]) ++ b :: (40 :: print r ++ [41])))
    (hs : Stop buf (p + (print l).length + 2 + 1 + (print r).length + 2)) :
    ∃ tl tr, Yields (parseexec buf buf.length p) tl (p + (print l).length + 2) ∧
      charAt buf (p + (print l).length + 2) = b ∧
      isWs (charAt buf (p + (print l).length + 2 + 1)) = false ∧
      Yields (parsepipe buf buf.length (p + (print l).length + 2 + 1)) tr
        (p + (print l).length + 2 + 1 + (print r).length + 2) ∧
      tl.map (slice buf) = l ∧ tr.map (slice buf) = r := by
  obtain ⟨hxl, hxr⟩ := occurs_paren_append hx
  obtain ⟨hb, hxr⟩ := occurs_cons.mp hxr
  obtain ⟨tl, hel, htl⟩ := parseexec_paren hl ihl hxl (by rw [hb.charAt_head]; exact hbw)
    (by rw [hb.charAt_head]; exact hbr)
  obtain ⟨tr, hpr, htr⟩ := parsepipe_paren hr ihr hxr hs
  have hw : isWs (charAt buf (p + (print l).length + 2 + 1)) = false := by
    rw [(occurs_cons.mp hxr).1.charAt_head]
    decide
  exact ⟨tl, tr, hel, hb.charAt_head, hw, hpr, htl, htr⟩

/-- Every well-formed tree is read back from its printed line. The induction is on the tree;
each compound case runs the parser over its parentheses with `parseblock_paren`. -/
theorem parseline_print {c : Cmd (List UInt8)} (hc : c.Wf IsWord) : Reads buf c := by
  induction c with
  | exec argv =>
    intro p hx hs
    obtain ⟨spans, he, hsp⟩ := parseexec_words hc.2 hc.1 hx hs
    refine ⟨.exec spans, parseline_of_stop (parsepipe_of_exec he hs.not_ws
      (hs.ne (by decide) (by decide))) hs, ?_⟩
    simp [Cmd.map, hsp]
  | redir c file mode fd ih =>
    intro p hx hs
    have e : p + (print (.redir c file mode fd)).length =
        p + (print c).length + 2 + (redirOp mode).length + file.length := by
      simp only [print, List.length_append, List.length_cons]
      omega
    rw [e] at hs ⊢
    have hx' : Occurs buf p ((40 :: print c ++ [41]) ++ (redirOp mode ++ file)) := by
      simpa only [print, List.cons_append, List.append_assoc, List.singleton_append, List.nil_append]
        using hx
    obtain ⟨hxb, hxr⟩ := occurs_paren_append hx'
    -- the first byte after `)` is `<` or `>`
    have hn : isWs (charAt buf (p + (print c).length + 2)) = false := by
      have h := (occurs_append.mp hxr).1
      unfold redirOp at h
      split_ifs at h <;> rw [h.charAt_head] <;> decide
    obtain ⟨tc, htc, hb⟩ := parseblock_paren hc.1 (ih hc.1) hxb hn
    have hr := parseredirs_redir tc hc.2.2 hc.2.1 hxr hs
    refine ⟨_, parseline_of_stop (parsepipe_of_exec (parseexec_of_block
      (occurs_cons.mp hxb).1.charAt_head (hb hr)) hs.not_ws (hs.ne (by decide) (by decide))) hs, ?_⟩
    simp only [Cmd.map, htc, (occurs_append.mp hxr).2.slice_eq]
  | pipe l r ihl ihr =>
    intro p hx hs
    have e : p + (print (.pipe l r)).length = p + (print l).length + 2 + 1 + (print r).length + 2 := by
      simp only [print, List.length_append, List.length_cons, List.length_nil]
      omega
    rw [e] at hs ⊢
    obtain ⟨tl, tr, hel, h124, hw, hpr, htl, htr⟩ :=
      paren_pair (b := 124) hc.1 hc.2 (ihl hc.1) (ihr hc.2) (by decide) (by decide)
      (by simpa only [print, List.cons_append, List.append_assoc, List.singleton_append,
        List.nil_append] using hx) hs
    exact ⟨.pipe tl tr, parseline_of_stop (parsepipe_pipe hel h124 hw hpr) hs,
      by simp only [Cmd.map, htl, htr]⟩
  | list l r ihl ihr =>
    intro p hx hs
    have e : p + (print (.list l r)).length = p + (print l).length + 2 + 1 + (print r).length + 2 := by
      simp only [print, List.length_append, List.length_cons, List.length_nil]
      omega
    rw [e] at hs ⊢
    obtain ⟨tl, tr, hel, h59, hw, hpr, htl, htr⟩ :=
      paren_pair (b := 59) hc.1 hc.2 (ihl hc.1) (ihr hc.2) (by decide) (by decide)
      (by simpa only [print, List.cons_append, List.append_assoc, List.singleton_append,
        List.nil_append] using hx) hs
    -- no `|` at the `;`: the pipeline on the left is `(l)` alone
    have hpl := parsepipe_of_exec hel (by rw [h59]; decide) (by rw [h59]; decide)
    exact ⟨.list tl tr, parseline_list hpl h59 hw (parseline_of_stop hpr hs),
      by simp only [Cmd.map, htl, htr]⟩
  | back c ih =>
    have hc : c.Wf IsWord := hc
    intro p hx hs
    have hx' : Occurs buf p ((40 :: print c ++ [41]) ++ [38]) := by
      simpa only [print, List.cons_append, List.append_assoc, List.singleton_append, List.nil_append]
        using hx
    obtain ⟨hxc, h38⟩ := occurs_paren_append hx'
    have e : p + (print (.back c)).length = p + (print c).length + 2 + 1 := by
      simp only [print, List.length_append, List.length_cons, List.length_nil]
      omega
    rw [e] at hs ⊢
    -- `(c)` before `&`, and the stop after it
    obtain ⟨tc, hec, htc⟩ := parseexec_paren hc (ih hc) hxc (by rw [h38.charAt_head]; decide)
      (by rw [h38.charAt_head]; decide)
    have hpc := parsepipe_of_exec hec (by rw [h38.charAt_head]; decide) (by rw [h38.charAt_head]; decide)
    exact ⟨.back tc, parseline_back hpc h38.charAt_head hs.not_ws (hs.ne (by decide) (by decide))
      (hs.ne (by decide) (by decide)), by simp only [Cmd.map, htc]⟩

end Parse

/-! ## The round trip -/

/-- `strlen` reads a line with no NUL to its end. -/
lemma strlen_of_zero_not_mem {buf : List UInt8} (h : 0 ∉ buf) : strlen buf = buf.length := by
  have hall : ∀ x ∈ buf, (x != 0) = true := by
    intro x hx
    simp only [bne_iff_ne, ne_eq]
    rintro rfl
    exact h hx
  rw [strlen, List.takeWhile_eq_self_iff.mpr hall]

lemma line_print {c : Cmd (List UInt8)} (hc : c.Wf IsWord) : Line (print c) (print c).length :=
  strlen_of_zero_not_mem (zero_not_mem_print hc) ▸ line_strlen (print c)

/-- `parsecmd` accepts the printed line of a well-formed tree, and the tree of spans it returns
has the printed words. -/
lemma parsecmd_print_ok {c : Cmd (List UInt8)} (hc : c.Wf IsWord) :
    ∃ t, parsecmd (print c) = .ok (t, nulterminate t (print c)) ∧ t.map (slice (print c)) = c ∧
      t.Wf (Word (print c) (print c).length) := by
  have hlen := strlen_of_zero_not_mem (zero_not_mem_print hc)
  obtain ⟨t, ⟨hle, hline⟩, ht⟩ : ∃ t, Yields (parseline (print c) (print c).length 0) t
      (0 + (print c).length) ∧ t.map (slice (print c)) = c :=
    parseline_print hc (by simp [Occurs]) (.inl (Nat.zero_add _))
  -- `peek` skips nothing at the end of the line, so nothing is left over
  have hpk : (peek (print c) (print c).length (0 + (print c).length) []).2 = (print c).length := by
    simp only [peek, Nat.zero_add]
    exact scan_of_not fun h => Nat.lt_irrefl _ h.1
  refine ⟨t, ?_, ht, (line_sound (line_print hc) 0 (Nat.zero_le _) _ _ hline).2⟩
  rw [parsecmd, hlen]
  simp only [hline]
  rw [if_neg (not_not.mpr hpk)]

/-- Printing a well-formed tree and parsing the line gives the tree back: after `nulterminate`,
the C string at every `argv[i]` and `file` of the parsed tree is the printed word. -/
theorem parsecmd_print {c : Cmd (List UInt8)} (hc : c.Wf IsWord) :
    ∃ t buf', parsecmd (print c) = .ok (t, buf') ∧ t.map (fun w => cstr buf' w.1) = c := by
  obtain ⟨t, h, ht, hwf⟩ := parsecmd_print_ok hc
  exact ⟨t, _, h, (cstr_nulterminate (line_print hc) hwf).trans ht⟩

/-- `ls | wc >o`, printed as `(ls)|((wc)>o)`, is parsed back. -/
theorem parsecmd_print_pipe :
    (Cmd.pipe (.exec [[108, 115]]) (.redir (.exec [[119, 99]]) [111] (O_WRONLY ||| O_CREATE ||| O_TRUNC) 1)).Wf
        IsWord ∧
      ∃ t buf', parsecmd (print (.pipe (.exec [[108, 115]])
        (.redir (.exec [[119, 99]]) [111] (O_WRONLY ||| O_CREATE ||| O_TRUNC) 1))) = .ok (t, buf') ∧
        t.map (fun w => cstr buf' w.1) = .pipe (.exec [[108, 115]])
          (.redir (.exec [[119, 99]]) [111] (O_WRONLY ||| O_CREATE ||| O_TRUNC) 1) :=
  ⟨by simp [Cmd.Wf, IsWord, whitespace, symbols, redirModes, MAXARGS], parsecmd_print
    (by simp [Cmd.Wf, IsWord, whitespace, symbols, redirModes, MAXARGS])⟩

/-- `echo hi; ls &`, printed as `(echo hi);((ls)&)`, is accepted, with the tree of its words. -/
theorem parsecmd_tree_list :
    ∃ t buf', parsecmd (print (.list (.exec [[101, 99, 104, 111], [104, 105]]) (.back (.exec [[108, 115]])))) =
        .ok (t, buf') ∧
      (t.map (slice (print (.list (.exec [[101, 99, 104, 111], [104, 105]]) (.back (.exec [[108, 115]])))))).Wf
        IsWord ∧
      t.map (fun w => cstr buf' w.1) =
        t.map (slice (print (.list (.exec [[101, 99, 104, 111], [104, 105]]) (.back (.exec [[108, 115]]))))) := by
  obtain ⟨t, h, -⟩ := parsecmd_print_ok
    (c := .list (.exec [[101, 99, 104, 111], [104, 105]]) (.back (.exec [[108, 115]])))
    (by simp [Cmd.Wf, IsWord, whitespace, symbols, MAXARGS])
  exact ⟨t, _, h, parsecmd_tree h⟩

/-! ## The messages of a rejected line -/

/-- The messages of the parser's `panic`s on a malformed line. -/
def syntaxErrors : List String :=
  ["syntax", "missing file for redirection", "syntax - missing )", "too many args"]

/-- `r` fails only with one of `syntaxErrors`. -/
def Fails {β : Type} (r : Except String β) : Prop := ∀ e, r = .error e → e ∈ syntaxErrors

section Fails

variable {buf : List UInt8} {es : Nat}

lemma parseredirs_fails (cmd : Cmd (Nat × Nat)) (s : Nat) : Fails (parseredirs buf es cmd s) := by
  fun_induction parseredirs buf es cmd s with
  | case1 cmd s _ _ _ => intro e h; cases h; simp [syntaxErrors]
  | case2 cmd s _ _ _ _ _ _ e' hr ih => intro e h; cases h; exact ih e' hr
  | case3 => intro e h; cases h
  | case4 => intro e h; cases h

lemma execLoop_fails (ret : Cmd (Nat × Nat)) (argv : List (Nat × Nat)) (s : Nat) :
    Fails (execLoop buf es ret argv s) := by
  fun_induction execLoop buf es ret argv s with
  | case1 => intro e h; cases h
  | case2 => intro e h; cases h
  | case3 => intro e h; cases h; simp [syntaxErrors]
  | case4 => intro e h; cases h; simp [syntaxErrors]
  | case5 ret argv s _ g _ _ _ e' hr => intro e h; cases h; exact parseredirs_fails _ _ e' hr
  | case6 ret argv s _ g _ _ _ c t hr e' hx ih => intro e h; cases h; exact ih e' hx
  | case7 => intro e h; cases h

/-- `parseblock` at `(`: its own `panic("parseblock")` is not reached there. -/
lemma parseblock_fails {s : Nat}
    (ih : ∀ s', buf.length - s' < buf.length - s → Fails (parseline buf es s'))
    (hp : (peek buf es s [40]).1 = true) : Fails (parseblock buf es s) := by
  intro e h
  rw [parseblock, if_pos hp] at h
  rcases h₁ : parseline buf es (gettoken buf es s).2.2.2 with e₁ | ⟨cmd, t₁⟩
  · simp only [h₁] at h
    cases h
    exact ih _ (gettoken_consumes hp (by simp [symbols])) _ h₁
  simp only [h₁] at h
  by_cases hq : (peek buf es t₁.1 [41]).1 = true
  · rw [if_pos hq] at h
    rcases h₂ : parseredirs buf es cmd (gettoken buf es t₁.1).2.2.2 with e₂ | ⟨c₂, t₂⟩
    · simp only [h₂] at h
      cases h
      exact parseredirs_fails _ _ _ h₂
    · simp [h₂] at h
  · rw [if_neg hq] at h
    cases h
    simp [syntaxErrors]

/-- `parseexec` calls `parseblock` only at `(`. -/
lemma parseexec_fails {s : Nat}
    (hB : (peek buf es s [40]).1 = true → Fails (parseblock buf es s)) :
    Fails (parseexec buf es s) := by
  intro e h
  rw [parseexec] at h
  by_cases hp : (peek buf es s [40]).1 = true
  · rw [if_pos hp] at h
    exact hB hp e h
  rw [if_neg hp] at h
  rcases h₁ : parseredirs buf es (.exec []) s with e₁ | ⟨ret, t₁⟩
  · simp only [h₁] at h
    cases h
    exact parseredirs_fails _ _ _ h₁
  simp only [h₁] at h
  rcases h₂ : execLoop buf es ret [] t₁.1 with e₂ | ⟨ret₂, argv, t₂⟩
  · simp only [h₂] at h
    cases h
    exact execLoop_fails _ _ _ _ h₂
  · simp [h₂] at h

lemma parsepipe_fails {s : Nat} (hE : Fails (parseexec buf es s))
    (ih : ∀ s', buf.length - s' < buf.length - s → Fails (parsepipe buf es s')) :
    Fails (parsepipe buf es s) := by
  intro e h
  rw [parsepipe] at h
  rcases h₁ : parseexec buf es s with e₁ | ⟨cmd, t₁⟩
  · simp only [h₁] at h
    cases h
    exact hE _ h₁
  simp only [h₁] at h
  by_cases hp : (peek buf es t₁.1 [124]).1 = true
  · rw [if_pos hp] at h
    rcases h₂ : parsepipe buf es (gettoken buf es t₁.1).2.2.2 with e₂ | ⟨right, t₂⟩
    · simp only [h₂] at h
      cases h
      exact ih _ (consumes_of_le hp (by simp [symbols]) t₁.2) _ h₂
    · simp [h₂] at h
  · rw [if_neg hp] at h
    cases h

lemma parseline_fails {s : Nat} (hP : Fails (parsepipe buf es s))
    (ih : ∀ s', buf.length - s' < buf.length - s → Fails (parseline buf es s')) :
    Fails (parseline buf es s) := by
  intro e h
  rw [parseline] at h
  rcases h₁ : parsepipe buf es s with e₁ | ⟨cmd, t₁⟩
  · simp only [h₁] at h
    cases h
    exact hP _ h₁
  simp only [h₁] at h
  by_cases hp : (peek buf es (backLoop buf es cmd t₁.1).2.1 [59]).1 = true
  · rw [if_pos hp] at h
    rcases h₂ : parseline buf es (gettoken buf es (backLoop buf es cmd t₁.1).2.1).2.2.2
      with e₂ | ⟨right, t₂⟩
    · simp only [h₂] at h
      cases h
      exact ih _
        (consumes_of_le hp (by simp [symbols]) (Nat.le_trans t₁.2 (backLoop buf es cmd t₁.1).2.2)) _ h₂
    · simp [h₂] at h
  · rw [if_neg hp] at h
    cases h

theorem line_fails (s : Nat) : Fails (parseline buf es s) :=
  (parse_induction buf (fun _ ih => parseblock_fails ih) (fun _ hB => parseexec_fails hB)
    (fun _ hE ih => parsepipe_fails hE ih) (fun _ hP ih => parseline_fails hP ih) s).2.2.2

end Fails

/-- A line that `parsecmd` rejects is rejected with one of the parser's syntax messages; the
`panic("parseblock")` of `parseblock` is never reached, since `parseexec` calls it only at `(`. -/
theorem parsecmd_error {buf : List UInt8} {e : String} (h : parsecmd buf = .error e) :
    e ∈ syntaxErrors := by
  simp only [parsecmd] at h
  rcases h₀ : parseline buf (strlen buf) 0 with e₀ | ⟨cmd, t₀⟩
  · simp only [h₀] at h
    cases h
    exact line_fails 0 _ h₀
  simp only [h₀] at h
  by_cases hend : (peek buf (strlen buf) t₀.1 []).2 = strlen buf
  · rw [if_neg (not_not.mpr hend)] at h
    cases h
  · rw [if_pos hend] at h
    cases h
    simp [syntaxErrors]

end Xv6.Sh
