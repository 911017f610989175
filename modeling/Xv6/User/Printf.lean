import Mathlib

/-!
# `printf`

Model of `user/printf.c`: `printint`, `printptr` and the conversion loop of `vprintf`, as the
bytes they pass to `putc`. The variadic arguments are a list of values tagged with their C type
(`Arg`), and `va_arg(ap, T)` takes the next one if it has type `T`; a format whose arguments do
not match gives `none`.

The specification `formatWith` states what a format means, independently of the code: signed
decimal for `%d`, the hexadecimal of the 32-bit two's-complement value for `%x`, sixteen hex
digits for `%p`, the string or `(null)` for `%s`, the low byte for `%c`, over `Nat.digits`. It
is parametrised by the rendering of `%l` and by what a `%` with nothing after it prints.
`vprintf_eq_formatWith` proves that `vprintf` is `formatWith` with `%l` rendered as the decimal
of the low 32 bits of its argument, and with nothing printed for a final `%`: `%l` passes its
`uint64` to `printint`'s `int` parameter. `printfSpec` is the reading in which `%l` prints all
64 bits and every other byte is copied; the two differ from `2 ^ 32` on
(`printf_long_truncates`).
-/

namespace Xv6.Printf

/-! ## The code -/

/-- `digits`: `"0123456789ABCDEF"`. -/
def digits : List UInt8 := [48, 49, 50, 51, 52, 53, 54, 55, 56, 57, 65, 66, 67, 68, 69, 70]

/-- `digits[d]`. -/
def digit (d : Nat) : UInt8 := digits.getD d 0

/-- The `do … while ((x /= base) != 0)` loop of `printint`, `buf[i++] = digits[x % base]`: the
digits of `x`, least significant first. The fuel bounds the rounds; 32 is enough for a `uint`. -/
def digitLoop (base : Nat) : Nat → Nat → List UInt8
  | 0, _ => []
  | fuel + 1, x => digit (x % base) :: if x / base = 0 then [] else digitLoop base fuel (x / base)

/-- `printint(fd, xx, base, sgn)`: the bytes it writes. -/
def printint (xx : Int32) (base : Nat) (sgn : Bool) : List UInt8 :=
  let neg := sgn && xx < 0
  let x : UInt32 := if neg then (-xx).toUInt32 else xx.toUInt32
  let buf := digitLoop base 32 x.toNat
  -- `buf[i++] = '-'`, then `while (--i >= 0) putc(fd, buf[i])`
  let buf := if neg then buf ++ [45] else buf
  buf.reverse

/-- The loop of `printptr`: `putc(fd, digits[x >> 60])`, then `x <<= 4`. -/
def ptrLoop : Nat → UInt64 → List UInt8
  | 0, _ => []
  | n + 1, x => digit (x >>> 60).toNat :: ptrLoop n (x <<< 4)

/-- `printptr(fd, x)`: `0x`, then sixteen rounds of the loop. -/
def printptr (x : UInt64) : List UInt8 := 48 :: 120 :: ptrLoop 16 x

/-- A variadic argument, by its C type. -/
inductive Arg where
  | int (v : Int32)
  | uint (v : UInt32)
  | uint64 (v : UInt64)
  /-- A `char*`: null, or the bytes from the pointer on. -/
  | str (s : Option (List UInt8))
deriving Repr, DecidableEq

def Arg.int? : Arg → Option Int32
  | .int v => some v
  | _ => none

def Arg.uint? : Arg → Option UInt32
  | .uint v => some v
  | _ => none

def Arg.uint64? : Arg → Option UInt64
  | .uint64 v => some v
  | _ => none

def Arg.str? : Arg → Option (Option (List UInt8))
  | .str s => some s
  | _ => none

/-- `va_arg(ap, T)`, with `read` the reading of an argument as a `T`. -/
def va_arg {α : Type} (read : Arg → Option α) : List Arg → Option (α × List Arg)
  | [] => none
  | a :: ap => (read a).map fun v => (v, ap)

/-- `"(null)"`. -/
def nullStr : List UInt8 := [40, 110, 117, 108, 108, 41]

/-- `while (*s != 0) { putc(fd, *s); s++; }`, with a null `s` replaced by `"(null)"`. -/
def putStr (s : Option (List UInt8)) : List UInt8 := (s.getD nullStr).takeWhile (· != 0)

/-- The branch of `vprintf` for the byte `c` after a `%`: what it writes, and the arguments
left. -/
def conversion (c : UInt8) (ap : List Arg) : Option (List UInt8 × List Arg) :=
  if c = 100 then (va_arg Arg.int? ap).map fun (v, ap) => (printint v 10 true, ap)
  -- `printint(fd, va_arg(ap, uint64), 10, 0)`: the `uint64` goes to an `int` parameter
  else if c = 108 then (va_arg Arg.uint64? ap).map fun (v, ap) => (printint v.toUInt32.toInt32 10 false, ap)
  else if c = 120 then (va_arg Arg.int? ap).map fun (v, ap) => (printint v 16 false, ap)
  else if c = 112 then (va_arg Arg.uint64? ap).map fun (v, ap) => (printptr v, ap)
  else if c = 115 then (va_arg Arg.str? ap).map fun (s, ap) => (putStr s, ap)
  else if c = 99 then (va_arg Arg.uint? ap).map fun (v, ap) => ([v.toUInt8], ap)
  else if c = 37 then some ([c], ap)
  else some ([37, c], ap)

/-- The loop of `vprintf` from `fmt[i]` on, in `state` (0, or `'%'` after a `%`), with the
arguments `ap` not yet read. -/
def vprintfLoop : List UInt8 → Nat → List Arg → Option (List UInt8)
  | [], _, _ => some []
  | c :: fmt, state, ap =>
    if c = 0 then some []
    else if state = 0 then
      if c = 37 then vprintfLoop fmt 37 ap else (c :: ·) <$> vprintfLoop fmt 0 ap
    else if state = 37 then
      match conversion c ap with
      | some (out, ap) => (out ++ ·) <$> vprintfLoop fmt 0 ap
      | none => none
    else vprintfLoop fmt state ap

/-- `vprintf(fd, fmt, ap)`: the bytes written to `fd`. -/
def vprintf (fmt : List UInt8) (ap : List Arg) : Option (List UInt8) := vprintfLoop fmt 0 ap

example : vprintf [37, 100, 32, 37, 120] [.int (-255), .int (-1)] =
    some [45, 50, 53, 53, 32, 70, 70, 70, 70, 70, 70, 70, 70] := by
  rfl

/-! ## What a format means -/

/-- The glyph of a digit below 16: `0`–`9`, then `A`–`F`. -/
def glyph (d : Nat) : UInt8 := if d < 10 then UInt8.ofNat (48 + d) else UInt8.ofNat (55 + d)

/-- `n` in base `b`, most significant digit first; `0` is the one digit `0`. -/
def render (b n : Nat) : List UInt8 := if n = 0 then [glyph 0] else ((Nat.digits b n).map glyph).reverse

/-- The signed decimal of `v`. -/
def signedDecimal (v : Int) : List UInt8 := (if v < 0 then [45] else []) ++ render 10 v.natAbs

/-- Sixteen hex digits of `v`, most significant first, leading zeros kept. -/
def hex16 (v : Nat) : List UInt8 := ((List.range 16).map fun i => glyph (v / 16 ^ i % 16)).reverse

/-- What the conversion `%c` prints and the arguments it leaves, with `%l` rendered by `long`. -/
def convertSpec (long : UInt64 → List UInt8) (c : UInt8) (ap : List Arg) :
    Option (List UInt8 × List Arg) :=
  if c = 100 then (va_arg Arg.int? ap).map fun (v, ap) => (signedDecimal v.toInt, ap)
  else if c = 108 then (va_arg Arg.uint64? ap).map fun (v, ap) => (long v, ap)
  else if c = 120 then (va_arg Arg.int? ap).map fun (v, ap) => (render 16 (v.toInt % 2 ^ 32).toNat, ap)
  else if c = 112 then (va_arg Arg.uint64? ap).map fun (v, ap) => ([48, 120] ++ hex16 v.toNat, ap)
  else if c = 115 then (va_arg Arg.str? ap).map fun (s, ap) => ((s.getD nullStr).takeWhile (· != 0), ap)
  else if c = 99 then (va_arg Arg.uint? ap).map fun (v, ap) => ([UInt8.ofNat v.toNat], ap)
  else if c = 37 then some ([37], ap)
  else some ([37, c], ap)

/-- A format with its arguments as the conversions mean it, up to the first NUL: `long` renders
`%l`, and `lone` is what a `%` with nothing after it prints. -/
def formatWith (long : UInt64 → List UInt8) (lone : List UInt8) :
    List UInt8 → List Arg → Option (List UInt8)
  | [], _ => some []
  | c :: fmt, ap =>
    if c = 0 then some []
    else if c = 37 then
      match fmt with
      | [] => some lone
      | c' :: fmt' =>
        if c' = 0 then some lone
        else
          match convertSpec long c' ap with
          | some (out, ap) => (out ++ ·) <$> formatWith long lone fmt' ap
          | none => none
    else (c :: ·) <$> formatWith long lone fmt ap

/-- The reading in which `%l` prints the unsigned decimal of all 64 bits, and a `%` with nothing
after it is copied. -/
def printfSpec : List UInt8 → List Arg → Option (List UInt8) :=
  formatWith (fun v => render 10 v.toNat) [37]

/-! ## Digits -/

theorem digit_eq_glyph {d : Nat} (h : d < 16) : digit d = glyph d := by
  have : ∀ d < 16, digit d = glyph d := by decide
  exact this d h

/-- The `do … while` loop of `printint` writes the digits of `x`, given the rounds. -/
theorem digitLoop_eq {b : Nat} (hb : 2 ≤ b) (hb16 : b ≤ 16) :
    ∀ (fuel x : Nat), 0 < x → x < b ^ fuel → digitLoop b fuel x = (Nat.digits b x).map glyph
  | 0, x, hx, hlt => by simp at hlt; omega
  | fuel + 1, x, hx, hlt => by
    have hd : digit (x % b) = glyph (x % b) := digit_eq_glyph (by have := Nat.mod_lt x (by omega : 0 < b); omega)
    rw [digitLoop, Nat.digits_def' (by omega) hx, List.map_cons, hd]
    congr 1
    by_cases hq : x / b = 0
    · simp [hq]
    · -- the quotient has one digit fewer
      have hlt' : x / b < b ^ fuel := by
        rw [Nat.div_lt_iff_lt_mul (by omega), ← pow_succ]
        exact hlt
      rw [if_neg hq, digitLoop_eq hb hb16 fuel (x / b) (Nat.pos_of_ne_zero hq) hlt']

/-- With enough rounds, the loop reversed is the rendering of `x`. -/
theorem digitLoop_reverse {b fuel x : Nat} (hb : 2 ≤ b) (hb16 : b ≤ 16) (hfuel : 0 < fuel)
    (hlt : x < b ^ fuel) : (digitLoop b fuel x).reverse = render b x := by
  by_cases hx : x = 0
  · obtain ⟨fuel, rfl⟩ : ∃ f, fuel = f + 1 := ⟨fuel - 1, by omega⟩
    subst hx
    simp [digitLoop, render, digit_eq_glyph]
  · rw [render, if_neg hx, digitLoop_eq hb hb16 fuel x (Nat.pos_of_ne_zero hx) hlt]

/-- A `uint` has at most 32 digits in a base of at least 2. -/
theorem toNat_lt_pow_32 {b : Nat} (hb : 2 ≤ b) (x : UInt32) : x.toNat < b ^ 32 :=
  calc x.toNat < 2 ^ 32 := x.toNat_lt
    _ ≤ b ^ 32 := Nat.pow_le_pow_left hb 32

/-! ## `printint` -/

/-- The two's-complement reading of an `int`: below `2 ^ 31` as it is, above it less `2 ^ 32`. -/
theorem toInt_eq_toUInt32 (xx : Int32) :
    xx.toInt = if 2 * xx.toUInt32.toNat < 2 ^ 32 then (xx.toUInt32.toNat : Int)
      else (xx.toUInt32.toNat : Int) - 2 ^ 32 := by
  rw [← Int32.toNat_toBitVec]
  exact BitVec.toInt_eq_toNat_cond xx.toBitVec

theorem toNat_toUInt32_eq_emod (xx : Int32) : xx.toUInt32.toNat = (xx.toInt % 2 ^ 32).toNat := by
  have h := toInt_eq_toUInt32 xx
  have hu := xx.toUInt32.toNat_lt
  split at h <;> omega

theorem toNat_toUInt32_of_nonneg {xx : Int32} (h : ¬xx < 0) : xx.toUInt32.toNat = xx.toInt.natAbs := by
  rw [Int32.lt_iff_toInt_lt, Int32.toInt_zero] at h
  have h' := toInt_eq_toUInt32 xx
  have hu := xx.toUInt32.toNat_lt
  split at h' <;> omega

/-- `x = -xx` for a negative `int`, `INT_MIN` included, is its magnitude. -/
theorem toNat_neg_toUInt32_of_neg {xx : Int32} (h : xx < 0) : (-xx).toUInt32.toNat = xx.toInt.natAbs := by
  rw [Int32.lt_iff_toInt_lt, Int32.toInt_zero] at h
  have h' := toInt_eq_toUInt32 xx
  have hu := xx.toUInt32.toNat_lt
  rw [Int32.toUInt32_neg, UInt32.toNat_neg, UInt32.size]
  split at h' <;> omega

/-- Unsigned `printint` renders the 32-bit value of its argument. -/
theorem printint_unsigned (b : Nat) (hb : 2 ≤ b) (hb16 : b ≤ 16) (xx : Int32) :
    printint xx b false = render b xx.toUInt32.toNat := by
  simp only [printint, Bool.false_and, Bool.false_eq_true, if_false]
  exact digitLoop_reverse hb hb16 (by decide) (toNat_lt_pow_32 hb _)

/-- `%d`: the signed decimal, `INT_MIN` included. -/
theorem printint_signed (xx : Int32) : printint xx 10 true = signedDecimal xx.toInt := by
  have hlt : (xx < 0) ↔ xx.toInt < 0 := by rw [Int32.lt_iff_toInt_lt, Int32.toInt_zero]
  by_cases hneg : xx < 0
  · simp only [printint, Bool.true_and, hneg, decide_true, if_true, List.reverse_append,
      List.reverse_singleton, List.singleton_append, signedDecimal, hlt.mp hneg]
    rw [digitLoop_reverse (by decide) (by decide) (by decide) (toNat_lt_pow_32 (by decide) _),
      toNat_neg_toUInt32_of_neg hneg]
  · simp only [printint, Bool.true_and, hneg, decide_false, Bool.false_eq_true, if_false,
      signedDecimal, show ¬xx.toInt < 0 from fun h => hneg (hlt.mpr h), List.nil_append]
    rw [digitLoop_reverse (by decide) (by decide) (by decide) (toNat_lt_pow_32 (by decide) _),
      toNat_toUInt32_of_nonneg hneg]

/-! ## `printptr` -/

/-- Shifting left by a nibble moves every nibble below the top one place up. -/
theorem nibble_shiftLeft (a m : Nat) (hm : m + 8 ≤ 64) :
    a * 16 % 2 ^ 64 / 2 ^ (m + 4) % 16 = a / 2 ^ m % 16 := by
  have h64 : 2 ^ 64 = 2 ^ (m + 4) * 2 ^ (60 - m) := by rw [← pow_add]; congr 1; omega
  have hdvd : 16 ∣ 2 ^ (60 - m) := by
    rw [show 60 - m = 4 + (56 - m) by omega, pow_add]
    exact Dvd.intro _ rfl
  have hdiv : a * 16 / 2 ^ (m + 4) = a / 2 ^ m := by
    rw [pow_add, show (2 : Nat) ^ 4 = 16 from rfl, Nat.mul_div_mul_right _ _ (by decide)]
  rw [h64, Nat.mod_mul_right_div_self, Nat.mod_mod_of_dvd _ hdvd, hdiv]

/-- The first `n` rounds of `printptr`'s loop write the top `n` nibbles of `x`. -/
theorem ptrLoop_eq : ∀ (n : Nat), n ≤ 16 → ∀ x : UInt64,
    ptrLoop n x = ((List.range n).map fun i => glyph (x.toNat / 2 ^ (64 - 4 * n + 4 * i) % 16)).reverse
  | 0, _, _ => rfl
  | n + 1, hn, x => by
    have htop : (x >>> 60).toNat = x.toNat / 2 ^ 60 % 16 := by
      have := x.toNat_lt
      rw [UInt64.toNat_shiftRight, Nat.shiftRight_eq_div_pow]
      simp only [UInt64.reduceToNat, Nat.reduceMod]
      omega
    have hrest := ptrLoop_eq n (by omega) (x <<< 4)
    rw [ptrLoop, hrest, List.range_succ, List.map_append, List.reverse_append, List.map_singleton,
      List.reverse_singleton, List.singleton_append, htop, digit_eq_glyph (Nat.mod_lt _ (by decide))]
    rw [show 64 - 4 * (n + 1) + 4 * n = 60 by omega]
    congr 2
    · apply List.map_congr_left
      intro i hi
      have hi : i < n := List.mem_range.mp hi
      rw [UInt64.toNat_shiftLeft, Nat.shiftLeft_eq]
      simp only [UInt64.reduceToNat, Nat.reduceMod]
      have := nibble_shiftLeft x.toNat (64 - 4 * (n + 1) + 4 * i) (by omega)
      rw [show 64 - 4 * (n + 1) + 4 * i + 4 = 64 - 4 * n + 4 * i by omega] at this
      rw [this]

/-- `%p`: `0x` and the sixteen hex digits. -/
theorem printptr_eq (x : UInt64) : printptr x = [48, 120] ++ hex16 x.toNat := by
  have hexp : ∀ i, 2 ^ (64 - 4 * 16 + 4 * i) = 16 ^ i := fun i => by
    rw [show 64 - 4 * 16 + 4 * i = 4 * i by omega, pow_mul]
    norm_num
  rw [printptr, ptrLoop_eq 16 le_rfl, hex16]
  simp only [hexp]
  rfl

/-! ## `vprintf` -/

/-- The rendering of `%l` by the code: the decimal of the low 32 bits. -/
def lowDecimal (v : UInt64) : List UInt8 := render 10 (v.toNat % 2 ^ 32)

theorem conversion_eq (c : UInt8) (ap : List Arg) : conversion c ap = convertSpec lowDecimal c ap := by
  unfold conversion convertSpec
  split_ifs
  · simp only [printint_signed]
  · simp only [printint_unsigned 10 (by decide) (by decide), UInt32.toUInt32_toInt32,
      UInt64.toNat_toUInt32, lowDecimal]
  · simp only [printint_unsigned 16 (by decide) (by decide), toNat_toUInt32_eq_emod]
  · simp only [printptr_eq]
  · rfl
  · rfl
  · simp_all
  · rfl

/-- `vprintf` writes the format as `formatWith` means it, with `%l` rendered from the low 32 bits
of its argument and nothing written for a `%` at the end. -/
theorem vprintf_eq_formatWith (fmt : List UInt8) (ap : List Arg) :
    vprintf fmt ap = formatWith lowDecimal [] fmt ap := by
  rw [vprintf]
  -- the cases of `formatWith`: the end, a NUL, a `%` at the end, a conversion, or a plain byte
  fun_induction formatWith lowDecimal [] fmt ap with
  | case1 ap => rfl
  | case2 fmt ap => simp [vprintfLoop]
  | case3 ap _ => simp [vprintfLoop]
  | case4 ap fmt' _ => simp [vprintfLoop]
  | case5 ap c' fmt' hc' out ap' hconv _ ih => simp [vprintfLoop, hc', conversion_eq, hconv, ih]
  | case6 ap c' fmt' hc' hconv _ => simp [vprintfLoop, hc', conversion_eq, hconv]
  | case7 c fmt ap hc0 hc ih => simp [vprintfLoop, hc0, hc, ih]

/-- `printf("%l", 2^32)`: the code prints `0`, the unsigned decimal is `4294967296`. -/
theorem printf_long_truncates :
    vprintf [37, 108] [.uint64 4294967296] = some [48] ∧
    printfSpec [37, 108] [.uint64 4294967296] = some [52, 50, 57, 52, 57, 54, 55, 50, 57, 54] := by
  refine ⟨rfl, ?_⟩
  simp [printfSpec, formatWith, convertSpec, va_arg, Arg.uint64?, render, glyph]

end Xv6.Printf
