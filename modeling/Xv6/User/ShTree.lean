import Xv6.User.Sh

/-!
# The tree of an accepted line

What `parsecmd` returns when it does not `panic`. Every word of the tree is a whole word of
the line (`Word`): at least one byte, bytes that are neither whitespace nor symbols, and no
such byte right after it. Every simple command has fewer than `MAXARGS` words, and every
redirection is one of `<`, `>` and `>>` (`Cmd.Wf`). After `nulterminate`, the C string at each
`argv[i]` and `file` is exactly its word: the NULs land on bytes after words, never inside one
(`parsecmd_tree`).

The proof follows the parser. The token lemmas say what one `gettoken` returns on a line that
ends at `es`; one lemma per parse function says that the function keeps the invariant, given
the functions it calls, and `parse_induction` ties the four mutually recursive ones together.
-/

namespace Xv6.Sh

/-! ## Words and trees -/

/-- The bytes `[q, eq)` of the line. -/
def slice (buf : List UInt8) (w : Nat × Nat) : List UInt8 := (buf.drop w.1).take (w.2 - w.1)

/-- The C string at `q`: the bytes up to the first NUL. -/
def cstr (buf : List UInt8) (q : Nat) : List UInt8 := (buf.drop q).takeWhile (· != 0)

/-- A word as the parser reads one: at least one byte, none a NUL, whitespace or a symbol. -/
def IsWord (w : List UInt8) : Prop := w ≠ [] ∧ ∀ c ∈ w, c ≠ 0 ∧ c ∉ whitespace ∧ c ∉ symbols

instance : DecidablePred IsWord := fun _ => inferInstanceAs (Decidable (_ ∧ _))

/-- The `mode` and `fd` of the redirections `<`, `>` and `>>`. -/
def redirModes : List (Int32 × Int32) :=
  [(O_RDONLY, 0), (O_WRONLY ||| O_CREATE ||| O_TRUNC, 1), (O_WRONLY ||| O_CREATE, 1)]

/-- A tree as the parser builds it, with words that satisfy `P`: fewer than `MAXARGS` words in
a simple command, and redirections from `redirModes`. -/
def Cmd.Wf {α : Type} (P : α → Prop) : Cmd α → Prop
  | .exec argv => argv.length < MAXARGS ∧ ∀ w ∈ argv, P w
  | .redir c file mode fd => c.Wf P ∧ P file ∧ (mode, fd) ∈ redirModes
  | .pipe l r => l.Wf P ∧ r.Wf P
  | .list l r => l.Wf P ∧ r.Wf P
  | .back c => c.Wf P

instance Cmd.decWf {α : Type} (P : α → Prop) [DecidablePred P] : (c : Cmd α) → Decidable (c.Wf P)
  | .exec _ => inferInstanceAs (Decidable (_ ∧ _))
  | .redir c _ _ _ => have := Cmd.decWf P c; inferInstanceAs (Decidable (_ ∧ _ ∧ _))
  | .pipe l r => have := Cmd.decWf P l; have := Cmd.decWf P r; inferInstanceAs (Decidable (_ ∧ _))
  | .list l r => have := Cmd.decWf P l; have := Cmd.decWf P r; inferInstanceAs (Decidable (_ ∧ _))
  | .back c => Cmd.decWf P c

/-- The words of the tree, in the order `nulterminate` visits them. -/
def Cmd.words {α : Type} : Cmd α → List α
  | .exec argv => argv
  | .redir c file _ _ => c.words ++ [file]
  | .pipe l r => l.words ++ r.words
  | .list l r => l.words ++ r.words
  | .back c => c.words

section Tree

variable {α β : Type} {P Q : α → Prop}

lemma Cmd.Wf.mono (h : ∀ w, P w → Q w) {c : Cmd α} (hc : c.Wf P) : c.Wf Q := by
  induction c with
  | exec argv => exact ⟨hc.1, fun w hm => h w (hc.2 w hm)⟩
  | redir c file mode fd ih => exact ⟨ih hc.1, h file hc.2.1, hc.2.2⟩
  | pipe l r ihl ihr => exact ⟨ihl hc.1, ihr hc.2⟩
  | list l r ihl ihr => exact ⟨ihl hc.1, ihr hc.2⟩
  | back c ih => exact ih hc

lemma Cmd.Wf.mem_words {c : Cmd α} (hc : c.Wf P) : ∀ w ∈ c.words, P w := by
  induction c with
  | exec argv => exact hc.2
  | redir c file mode fd ih =>
    simp only [Cmd.words, List.mem_append, List.mem_singleton]
    rintro w (hm | rfl)
    · exact ih hc.1 w hm
    · exact hc.2.1
  | pipe l r ihl ihr | list l r ihl ihr =>
    simp only [Cmd.words, List.mem_append]
    rintro w (hm | hm)
    · exact ihl hc.1 w hm
    · exact ihr hc.2 w hm
  | back c ih => exact ih hc

lemma Cmd.wf_map (f : α → β) {P : β → Prop} (c : Cmd α) : (c.map f).Wf P ↔ c.Wf (P ∘ f) := by
  induction c with
  | exec argv => simp [Cmd.map, Cmd.Wf]
  | redir c file mode fd ih => simp only [Cmd.map, Cmd.Wf, ih, Function.comp]
  | pipe l r ihl ihr | list l r ihl ihr => simp only [Cmd.map, Cmd.Wf, ihl, ihr]
  | back c ih => simp only [Cmd.map, Cmd.Wf, ih]

/-- Two maps agree on a tree when they agree on its words. -/
lemma Cmd.map_congr {f g : α → β} {c : Cmd α} (h : ∀ w ∈ c.words, f w = g w) :
    c.map f = c.map g := by
  induction c with
  | exec argv => exact congrArg Cmd.exec (List.map_inj_left.2 h)
  | redir c file mode fd ih =>
    simp only [Cmd.words, List.mem_append, List.mem_singleton] at h
    simp only [Cmd.map, ih fun w hw => h w (.inl hw), h file (.inr rfl)]
  | pipe l r ihl ihr | list l r ihl ihr =>
    simp only [Cmd.words, List.mem_append] at h
    simp only [Cmd.map, ihl fun w hw => h w (.inl hw), ihr fun w hw => h w (.inr hw)]
  | back c ih => simp only [Cmd.map, ih h]

/-- Filling in the `argv` of the `EXEC` node keeps a tree well formed. -/
lemma Cmd.wf_withArgv {argv : List α} (hn : argv.length < MAXARGS) (hw : ∀ w ∈ argv, P w)
    {c : Cmd α} (hc : c.Wf P) : (c.withArgv argv).Wf P := by
  induction c with
  | exec _ => exact ⟨hn, hw⟩
  | redir c file mode fd ih => exact ⟨ih hc.1, hc.2.1, hc.2.2⟩
  | pipe | list | back => exact hc

end Tree

/-! ## The line and its words -/

/-- The line ends at `es`: no NUL before it, and one there. -/
structure Line (buf : List UInt8) (es : Nat) : Prop where
  ne_zero : ∀ i < es, charAt buf i ≠ 0
  zero : charAt buf es = 0

/-- `(q, eq)` is a whole word of the line before `es`. -/
structure Word (buf : List UInt8) (es : Nat) (w : Nat × Nat) : Prop where
  lt : w.1 < w.2
  le : w.2 ≤ es
  bytes : ∀ i, w.1 ≤ i → i < w.2 → isWordByte (charAt buf i) = true
  stop : w.2 < es → isWordByte (charAt buf w.2) = false

lemma charAt_eq_getD (buf : List UInt8) (i : Nat) : charAt buf i = buf[i]?.getD 0 := by
  simp [charAt, List.getD_eq_getElem?_getD]

/-- `strlen` is where the line ends. -/
lemma line_strlen (buf : List UInt8) : Line buf (strlen buf) := by
  induction buf with
  | nil => exact ⟨fun i hi => absurd hi (Nat.not_lt_zero _), rfl⟩
  | cons b buf ih =>
    by_cases hb : b = 0
    · have h0 : strlen (b :: buf) = 0 := by simp [strlen, hb]
      rw [h0]
      exact ⟨fun i hi => absurd hi (Nat.not_lt_zero _), hb⟩
    · have h1 : strlen (b :: buf) = strlen buf + 1 := by
        rw [strlen, strlen, List.takeWhile_cons_of_pos (by simpa using hb), List.length_cons]
      rw [h1]
      refine ⟨fun i hi => ?_, ih.zero⟩
      cases i with
      | zero => exact hb
      | succ i => exact ih.ne_zero i (Nat.lt_of_succ_lt_succ hi)

namespace Line

variable {buf : List UInt8} {es : Nat}

lemma lt_of_ne_zero (hl : Line buf es) {p : Nat} (hp : p ≤ es) (hc : charAt buf p ≠ 0) : p < es :=
  Nat.lt_of_le_of_ne hp fun e => hc (e ▸ hl.zero)

lemma le_length (hl : Line buf es) : es ≤ buf.length := by
  cases es with
  | zero => exact Nat.zero_le _
  | succ n => exact lt_length_of_charAt_ne_zero (hl.ne_zero n (Nat.lt_succ_self n))

end Line

lemma isWord_slice {buf : List UInt8} {es : Nat} {w : Nat × Nat} (hl : Line buf es)
    (hw : Word buf es w) : IsWord (slice buf w) := by
  have hlen := hl.le_length
  refine ⟨?_, fun c hc => ?_⟩
  · intro h
    have := congrArg List.length h
    simp only [slice, List.length_take, List.length_drop, List.length_nil] at this
    have := hw.lt
    have := hw.le
    omega
  · obtain ⟨i, hi, rfl⟩ := List.getElem_of_mem hc
    simp only [slice, List.length_take, List.length_drop] at hi
    have hq : w.1 + i < w.2 := by omega
    have hb := hw.bytes (w.1 + i) (Nat.le_add_right _ _) hq
    have h0 := hl.ne_zero (w.1 + i) (Nat.lt_of_lt_of_le hq hw.le)
    have hget : (slice buf w)[i] = charAt buf (w.1 + i) := by
      simp [slice, charAt_eq_getD, List.getElem?_eq_getElem (Nat.lt_of_lt_of_le hq (Nat.le_trans hw.le hlen))]
    rw [hget]
    exact ⟨h0, isWordByte_iff.mp hb⟩

/-! ## One token -/

section Token

variable {buf : List UInt8} {es s : Nat}

/-- The position after the whitespace is a byte that is not whitespace, or `es`. -/
lemma not_isWs_scan (hl : Line buf es) (hs : s ≤ es) :
    isWs (charAt buf (scan buf es isWs s)) = false := by
  rcases Nat.lt_or_eq_of_le (scan_le (p := isWs) hs) with h | h
  · exact scan_stop h
  · rw [h, hl.zero]; rfl

/-- `gettoken` leaves every position at `es` at the latest. -/
lemma gettoken_le (hl : Line buf es) (hs : s ≤ es) :
    (gettoken buf es s).2.2.1 ≤ es ∧ (gettoken buf es s).2.2.2 ≤ es := by
  have hp : scan buf es isWs s ≤ es := scan_le hs
  by_cases h0 : charAt buf (scan buf es isWs s) = 0
  · rw [gettoken_of_zero h0]
    exact ⟨hp, scan_le hp⟩
  have hlt := hl.lt_of_ne_zero hp h0
  by_cases hm : charAt buf (scan buf es isWs s) ∈ [124, 40, 41, 59, 38, 60]
  · rw [gettoken_of_mem hm]
    exact ⟨hlt, scan_le hlt⟩
  by_cases h62 : charAt buf (scan buf es isWs s) = 62
  · by_cases hn : charAt buf (scan buf es isWs s + 1) = 62
    · -- `>>`: the second `>` is before `es` too
      have hlt' := hl.lt_of_ne_zero hlt (by rw [hn]; decide)
      rw [gettoken_of_gtgt h62 hn]
      exact ⟨hlt', scan_le hlt'⟩
    · rw [gettoken_of_gt h62 hn]
      exact ⟨hlt, scan_le hlt⟩
  · rw [gettoken_of_word h0 hm h62]
    exact ⟨scan_le hp, scan_le (scan_le hp)⟩

/-- A word token is a whole word of the line. -/
lemma gettoken_word (hl : Line buf es) (hs : s ≤ es) (h : (gettoken buf es s).1 = 97) :
    Word buf es ((gettoken buf es s).2.1, (gettoken buf es s).2.2.1) := by
  have hp : scan buf es isWs s ≤ es := scan_le hs
  by_cases h0 : charAt buf (scan buf es isWs s) = 0
  · rw [gettoken_of_zero h0] at h
    simp at h
  by_cases hm : charAt buf (scan buf es isWs s) ∈ [124, 40, 41, 59, 38, 60]
  · rw [gettoken_of_mem hm] at h
    simp only at h
    rw [h] at hm
    simp at hm
  by_cases h62 : charAt buf (scan buf es isWs s) = 62
  · by_cases hn : charAt buf (scan buf es isWs s + 1) = 62
    · rw [gettoken_of_gtgt h62 hn] at h
      simp at h
    · rw [gettoken_of_gt h62 hn] at h
      simp at h
  rw [gettoken_of_word h0 hm h62]
  have hlt := hl.lt_of_ne_zero hp h0
  -- the first byte is neither whitespace (the scan stopped there) nor a symbol
  have hw : isWordByte (charAt buf (scan buf es isWs s)) = true := by
    refine isWordByte_iff.mpr ⟨fun h => ?_, fun h => ?_⟩
    · rw [← isWs_iff, not_isWs_scan hl hs] at h
      exact Bool.false_ne_true h
    · simp only [symbols, List.mem_cons, List.not_mem_nil, or_false] at h hm
      tauto
  refine ⟨?_, scan_le hp, fun i hi hlt' => (scan_prop i hi hlt').2, scan_stop⟩
  rw [scan_of_lt hlt hw]
  exact Nat.lt_of_lt_of_le (Nat.lt_succ_self _) (le_scan _ _ _ _)

lemma peek_le (hs : s ≤ es) (toks : List UInt8) : (peek buf es s toks).2 ≤ es :=
  scan_le hs

end Token

/-! ## The parse functions keep their words whole -/

section Sound

variable {buf : List UInt8} {es : Nat}

/-- What a parse function returns from `s ≤ es`, if it does not `panic`: a well-formed tree of
whole words, and a position at `es` at the latest. -/
def Sound (buf : List UInt8) (es : Nat) {s : Nat} (r : Res s) : Prop :=
  ∀ c t, r = .ok (c, t) → t.1 ≤ es ∧ c.Wf (Word buf es)

lemma redir_wf {cmd : Cmd (Nat × Nat)} {w : Nat × Nat} (tok : UInt8) (hc : cmd.Wf (Word buf es))
    (hw : Word buf es w) :
    (if tok = 60 then Cmd.redir cmd w O_RDONLY 0
      else if tok = 62 then Cmd.redir cmd w (O_WRONLY ||| O_CREATE ||| O_TRUNC) 1
      else if tok = 43 then Cmd.redir cmd w (O_WRONLY ||| O_CREATE) 1
      else cmd).Wf (Word buf es) := by
  split_ifs
  · exact ⟨hc, hw, by simp [redirModes]⟩
  · exact ⟨hc, hw, by simp [redirModes]⟩
  · exact ⟨hc, hw, by simp [redirModes]⟩
  · exact hc

lemma parseredirs_sound (hl : Line buf es) (cmd : Cmd (Nat × Nat)) (s : Nat) :
    s ≤ es → cmd.Wf (Word buf es) → Sound buf es (parseredirs buf es cmd s) := by
  fun_induction parseredirs buf es cmd s with
  | case1 cmd s _ _ _ => intro _ _ c t h; cases h
  | case2 cmd s _ _ _ _ hw _ e _ _ => intro _ _ c t h; cases h
  | case3 cmd s _ tok s2 w hw cmd' c t hr ih =>
    intro hs hc c' t' h
    cases h
    -- the word of the redirection is read after its symbol
    have hs2 := (gettoken_le hl hs).2
    exact ih (gettoken_le hl hs2).2 (redir_wf tok hc (gettoken_word hl hs2 (not_not.mp hw))) c t hr
  | case4 cmd s _ => intro hs hc c t h; cases h; exact ⟨peek_le hs [60, 62], hc⟩

/-- What the word loop of `parseexec` keeps: the tree so far and the words read. -/
lemma execLoop_sound (hl : Line buf es) (ret : Cmd (Nat × Nat)) (argv : List (Nat × Nat)) (s : Nat) :
    s ≤ es → ret.Wf (Word buf es) → argv.length < MAXARGS → (∀ w ∈ argv, Word buf es w) →
    ∀ ret' argv' t, execLoop buf es ret argv s = .ok (ret', argv', t) →
      t.1 ≤ es ∧ ret'.Wf (Word buf es) ∧ argv'.length < MAXARGS ∧ ∀ w ∈ argv', Word buf es w := by
  fun_induction execLoop buf es ret argv s with
  | case1 ret argv s _ =>
    intro hs hr hn hw ret' argv' t h
    cases h
    exact ⟨peek_le hs [124, 41, 38, 59], hr, hn, hw⟩
  | case2 ret argv s _ g _ =>
    intro hs hr hn hw ret' argv' t h
    cases h
    exact ⟨(gettoken_le hl hs).2, hr, hn, hw⟩
  | case3 => intro _ _ _ _ _ _ _ h; cases h
  | case4 => intro _ _ _ _ _ _ _ h; cases h
  | case5 => intro _ _ _ _ _ _ _ h; cases h
  | case6 => intro _ _ _ _ _ _ _ h; cases h
  | case7 ret argv s _ g _ h97 hmax c t hr ret₁ argv₁ t₁ hx ih =>
    intro hs hret hn hw ret' argv' t' h
    cases h
    -- the word joins `argv`, and the redirections after it wrap `ret`
    obtain ⟨ht, hc⟩ := parseredirs_sound hl ret _ (gettoken_le hl hs).2 hret c t hr
    refine ih ht hc (Nat.lt_of_not_le hmax) ?_ ret₁ argv₁ t₁ hx
    simp only [List.mem_append, List.mem_singleton]
    rintro w (hm | rfl)
    · exact hw w hm
    · exact gettoken_word hl hs (not_not.mp h97)

lemma backLoop_sound (hl : Line buf es) (cmd : Cmd (Nat × Nat)) (s : Nat) :
    s ≤ es → cmd.Wf (Word buf es) →
      (backLoop buf es cmd s).2.1 ≤ es ∧ (backLoop buf es cmd s).1.Wf (Word buf es) := by
  fun_induction backLoop buf es cmd s with
  | case1 cmd s _ _ ih => intro hs hc; exact ih (gettoken_le hl hs).2 hc
  | case2 cmd s _ => intro hs hc; exact ⟨peek_le hs [38], hc⟩

/-- A token that `peek` finds at `t`, at or after `s`, leaves fewer bytes than there are at `s`. -/
lemma consumes_of_le {s t : Nat} {toks : List UInt8} (hp : (peek buf es t toks).1 = true)
    (ht : ∀ c ∈ toks, c ∈ symbols) (hst : s ≤ t) :
    buf.length - (gettoken buf es t).2.2.2 < buf.length - s :=
  Nat.lt_of_lt_of_le (gettoken_consumes hp ht) (Nat.sub_le_sub_left hst _)

/-! One lemma for each of the four mutually recursive functions, given what it calls. -/

lemma parseblock_sound (hl : Line buf es) {s : Nat}
    (ih : ∀ s', buf.length - s' < buf.length - s → s' ≤ es → Sound buf es (parseline buf es s')) :
    s ≤ es → Sound buf es (parseblock buf es s) := by
  intro hs c t h
  rw [parseblock] at h
  by_cases hp : (peek buf es s [40]).1 = true
  · rw [if_pos hp] at h
    rcases h₁ : parseline buf es (gettoken buf es s).2.2.2 with e | ⟨cmd, t₁⟩
    · simp [h₁] at h
    simp only [h₁] at h
    -- the line inside is read after `(`, and the redirections after `)`
    obtain ⟨ht₁, hc₁⟩ := ih _ (gettoken_consumes hp (by simp [symbols]))
      (gettoken_le hl hs).2 cmd t₁ h₁
    by_cases hq : (peek buf es t₁.1 [41]).1 = true
    · rw [if_pos hq] at h
      rcases h₂ : parseredirs buf es cmd (gettoken buf es t₁.1).2.2.2 with e | ⟨c₂, t₂⟩
      · simp [h₂] at h
      simp only [h₂] at h
      cases h
      exact parseredirs_sound hl cmd _ (gettoken_le hl ht₁).2 hc₁ _ _ h₂
    · rw [if_neg hq] at h; cases h
  · rw [if_neg hp] at h; cases h

lemma parseexec_sound (hl : Line buf es) {s : Nat}
    (hB : s ≤ es → Sound buf es (parseblock buf es s)) :
    s ≤ es → Sound buf es (parseexec buf es s) := by
  intro hs c t h
  rw [parseexec] at h
  by_cases hp : (peek buf es s [40]).1 = true
  · rw [if_pos hp] at h
    exact hB hs c t h
  rw [if_neg hp] at h
  have he : (Cmd.exec ([] : List (Nat × Nat))).Wf (Word buf es) :=
    ⟨by decide, by simp⟩
  rcases h₁ : parseredirs buf es (.exec []) s with e | ⟨ret, t₁⟩
  · simp [h₁] at h
  simp only [h₁] at h
  obtain ⟨ht₁, hc₁⟩ := parseredirs_sound hl _ s hs he ret t₁ h₁
  rcases h₂ : execLoop buf es ret [] t₁.1 with e | ⟨ret₂, argv, t₂⟩
  · simp [h₂] at h
  simp only [h₂] at h
  cases h
  obtain ⟨ht₂, hr, hn, hw⟩ :=
    execLoop_sound hl ret [] _ ht₁ hc₁ (by decide) (by simp) ret₂ argv t₂ h₂
  exact ⟨ht₂, Cmd.wf_withArgv hn hw hr⟩

lemma parsepipe_sound (hl : Line buf es) {s : Nat}
    (hE : s ≤ es → Sound buf es (parseexec buf es s))
    (ih : ∀ s', buf.length - s' < buf.length - s → s' ≤ es → Sound buf es (parsepipe buf es s')) :
    s ≤ es → Sound buf es (parsepipe buf es s) := by
  intro hs c t h
  rw [parsepipe] at h
  rcases h₁ : parseexec buf es s with e | ⟨cmd, t₁⟩
  · simp [h₁] at h
  simp only [h₁] at h
  obtain ⟨ht₁, hc₁⟩ := hE hs cmd t₁ h₁
  by_cases hp : (peek buf es t₁.1 [124]).1 = true
  · rw [if_pos hp] at h
    rcases h₂ : parsepipe buf es (gettoken buf es t₁.1).2.2.2 with e | ⟨right, t₂⟩
    · simp [h₂] at h
    simp only [h₂] at h
    cases h
    obtain ⟨ht₂, hc₂⟩ :=
      ih _ (consumes_of_le hp (by simp [symbols]) t₁.2) (gettoken_le hl ht₁).2 right t₂ h₂
    exact ⟨ht₂, hc₁, hc₂⟩
  · rw [if_neg hp] at h
    cases h
    exact ⟨ht₁, hc₁⟩

lemma parseline_sound (hl : Line buf es) {s : Nat}
    (hP : s ≤ es → Sound buf es (parsepipe buf es s))
    (ih : ∀ s', buf.length - s' < buf.length - s → s' ≤ es → Sound buf es (parseline buf es s')) :
    s ≤ es → Sound buf es (parseline buf es s) := by
  intro hs c t h
  rw [parseline] at h
  rcases h₁ : parsepipe buf es s with e | ⟨cmd, t₁⟩
  · simp [h₁] at h
  simp only [h₁] at h
  obtain ⟨ht₁, hc₁⟩ := hP hs cmd t₁ h₁
  obtain ⟨hb, hbc⟩ := backLoop_sound hl cmd t₁.1 ht₁ hc₁
  by_cases hp : (peek buf es (backLoop buf es cmd t₁.1).2.1 [59]).1 = true
  · rw [if_pos hp] at h
    rcases h₂ : parseline buf es (gettoken buf es (backLoop buf es cmd t₁.1).2.1).2.2.2
      with e | ⟨right, t₂⟩
    · simp [h₂] at h
    simp only [h₂] at h
    cases h
    obtain ⟨ht₂, hc₂⟩ := ih _
      (consumes_of_le hp (by simp [symbols]) (Nat.le_trans t₁.2 (backLoop buf es cmd t₁.1).2.2))
      (gettoken_le hl hb).2 right t₂ h₂
    exact ⟨ht₂, hbc, hc₂⟩
  · rw [if_neg hp] at h
    cases h
    exact ⟨hb, hbc⟩

theorem line_sound (hl : Line buf es) (s : Nat) : s ≤ es → Sound buf es (parseline buf es s) :=
  (parse_induction buf (fun _ ih => parseblock_sound hl ih) (fun _ hB => parseexec_sound hl hB)
    (fun _ hE ih => parsepipe_sound hl hE ih) (fun _ hP ih => parseline_sound hl hP ih) s).2.2.2

end Sound

/-! ## `nulterminate` -/

/-- A NUL at the end of each of the words `ws`, in turn. -/
def setEnds (ws : List (Nat × Nat)) (buf : List UInt8) : List UInt8 :=
  ws.foldl (fun b w => b.set w.2 0) buf

lemma nulterminate_eq (t : Cmd (Nat × Nat)) (buf : List UInt8) :
    nulterminate t buf = setEnds t.words buf := by
  induction t generalizing buf with
  | exec argv => rfl
  | redir c file mode fd ih => simp only [nulterminate, Cmd.words, setEnds, List.foldl_append, ih]; rfl
  | pipe l r ihl ihr | list l r ihl ihr =>
    simp only [nulterminate, Cmd.words, setEnds, List.foldl_append, ihl, ihr]
  | back c ih => exact ih buf

lemma getElem?_setEnds_of_not_mem {ws : List (Nat × Nat)} {i : Nat} (h : ∀ w ∈ ws, w.2 ≠ i)
    (buf : List UInt8) : (setEnds ws buf)[i]? = buf[i]? := by
  induction ws generalizing buf with
  | nil => rfl
  | cons w ws ih =>
    simp only [List.mem_cons, forall_eq_or_imp] at h
    rw [setEnds, List.foldl_cons, ← setEnds, ih h.2, List.getElem?_set_ne h.1]

lemma charAt_setEnds_zero {ws : List (Nat × Nat)} {i : Nat} {buf : List UInt8}
    (h : charAt buf i = 0) : charAt (setEnds ws buf) i = 0 := by
  induction ws generalizing buf with
  | nil => exact h
  | cons w ws ih =>
    refine ih ?_
    rw [charAt_eq_getD] at h ⊢
    by_cases hw : w.2 = i
    · subst hw
      rw [List.getElem?_set_self']
      cases buf[w.2]? <;> rfl
    · rwa [List.getElem?_set_ne hw]

lemma charAt_setEnds_of_mem {ws : List (Nat × Nat)} {w : Nat × Nat} (hw : w ∈ ws) (buf : List UInt8) :
    charAt (setEnds ws buf) w.2 = 0 := by
  induction ws generalizing buf with
  | nil => exact absurd hw List.not_mem_nil
  | cons w' ws ih =>
    rw [setEnds, List.foldl_cons, ← setEnds]
    rcases List.mem_cons.mp hw with rfl | hm
    · refine charAt_setEnds_zero ?_
      rw [charAt_eq_getD, List.getElem?_set_self']
      cases buf[w.2]? <;> rfl
    · exact ih hm _

/-- The C string at `q` is the `n` bytes from `q` when they are not NULs and one follows. -/
lemma cstr_eq_take {b : List UInt8} {q n : Nat} (h : ∀ i < n, charAt b (q + i) ≠ 0)
    (hn : charAt b (q + n) = 0) : cstr b q = (b.drop q).take n := by
  induction n generalizing q with
  | zero =>
    rw [cstr, List.take_zero]
    cases hb : b.drop q with
    | nil => rfl
    | cons c l =>
      have hq : b[q]? = some c := by rw [← Nat.add_zero q, ← List.getElem?_drop, hb]; rfl
      have : c = 0 := by simpa [charAt_eq_getD, hq] using hn
      simp [this]
  | succ n ih =>
    have h0 : charAt b q ≠ 0 := by simpa using h 0 (Nat.zero_lt_succ n)
    have hq := lt_length_of_charAt_ne_zero h0
    have hc : b[q] = charAt b q := by rw [charAt_eq_getD, List.getElem?_eq_getElem hq]; rfl
    have ih' := ih (q := q + 1)
      (fun i hi => by simpa [Nat.add_right_comm, Nat.add_assoc] using h (i + 1) (by omega))
      (by simpa [Nat.add_right_comm, Nat.add_assoc] using hn)
    rw [cstr, List.drop_eq_getElem_cons hq, List.takeWhile_cons_of_pos (by simpa [hc] using h0),
      List.take_succ_cons]
    exact congrArg _ ih'

/-- After NULs at the ends of whole words, the C string at each word is the word. -/
lemma cstr_setEnds {buf : List UInt8} {es : Nat} {ws : List (Nat × Nat)} {w : Nat × Nat}
    (hl : Line buf es) (hws : ∀ w ∈ ws, Word buf es w) (hw : w ∈ ws) :
    cstr (setEnds ws buf) w.1 = slice buf w := by
  have hW := hws w hw
  -- no end of a word is inside another: the byte there is no word byte, or it is `es`
  have hkeep : ∀ i, w.1 ≤ i → i < w.2 → (setEnds ws buf)[i]? = buf[i]? := by
    intro i hi hlt
    refine getElem?_setEnds_of_not_mem (fun w' hw' e => ?_) buf
    have hW' := hws w' hw'
    rcases Nat.lt_or_ge w'.2 es with h | h
    · have := hW'.stop h
      rw [e, hW.bytes i hi hlt] at this
      exact Bool.noConfusion this
    · have := hW.le
      omega
  have hend : w.1 + (w.2 - w.1) = w.2 := Nat.add_sub_cancel' (Nat.le_of_lt hW.lt)
  have hbytes : ∀ i < w.2 - w.1, charAt (setEnds ws buf) (w.1 + i) ≠ 0 := by
    intro i hi
    rw [charAt_eq_getD, hkeep _ (Nat.le_add_right _ _) (by omega), ← charAt_eq_getD]
    exact hl.ne_zero _ (by have := hW.le; omega)
  rw [cstr_eq_take hbytes (by rw [hend]; exact charAt_setEnds_of_mem hw buf)]
  apply List.ext_getElem?
  intro j
  simp only [List.getElem?_take, List.getElem?_drop, slice]
  split
  · exact hkeep _ (Nat.le_add_right _ _) (by omega)
  · rfl

/-- After `nulterminate`, the C string at every word of a tree of whole words is the word. -/
lemma cstr_nulterminate {buf : List UInt8} {es : Nat} {t : Cmd (Nat × Nat)} (hl : Line buf es)
    (hwf : t.Wf (Word buf es)) : t.map (fun w => cstr (nulterminate t buf) w.1) = t.map (slice buf) :=
  Cmd.map_congr fun w hw => by
    rw [nulterminate_eq]
    exact cstr_setEnds hl hwf.mem_words hw

/-- An accepted line gives a well-formed tree of its words, and after `nulterminate` the C
string at every `argv[i]` and `file` of the tree is exactly its word of the line. -/
theorem parsecmd_tree {buf : List UInt8} {t : Cmd (Nat × Nat)} {buf' : List UInt8}
    (h : parsecmd buf = .ok (t, buf')) :
    (t.map (slice buf)).Wf IsWord ∧ t.map (fun w => cstr buf' w.1) = t.map (slice buf) := by
  simp only [parsecmd] at h
  rcases h₀ : parseline buf (strlen buf) 0 with e | ⟨cmd, t₀⟩
  · simp [h₀] at h
  simp only [h₀] at h
  by_cases hend : (peek buf (strlen buf) t₀.1 []).2 = strlen buf
  · rw [if_neg (not_not.mpr hend)] at h
    cases h
    have hl := line_strlen buf
    obtain ⟨-, hwf⟩ := line_sound hl 0 (Nat.zero_le _) _ _ h₀
    exact ⟨(Cmd.wf_map _ _).2 (hwf.mono fun w hw => isWord_slice hl hw), cstr_nulterminate hl hwf⟩
  · rw [if_pos hend] at h
    cases h

end Xv6.Sh
