import Mathlib

/-!
# Overwriting a run of a list

`splice l off src` is `l` with the elements from `off` on overwritten by `src`, grown where `src`
runs past the end of `l`: what a write of `src` at offset `off` does to a byte string. The
lemmas are the ones a chunked write and a read-back need.

* `getElem?_splice`: the element characterisation, inside the window `src`, outside `l`.
* `splice_append`: two writes end to end are one write of the two runs.
* `map_range_splice`: a view given by its elements, `(List.range L).map g`, is the old view
  spliced when `g` reads `src` in the window and the old elements outside it.
* `take_drop_splice` and `take_drop_splice_of_disjoint`: a read of the window gives `src` back,
  a read of a run apart from it gives what was there before.
* `map_range_chunks_splice`: read in chunks of `m` elements, a write of one chunk at a chunk
  boundary overwrites one entry of the chunk list, or appends it.
-/

namespace Splice

variable {α : Type} {l src a b : List α} {off : Nat}

/-- `l` with the elements from `off` on overwritten by `src`. -/
def splice (l : List α) (off : Nat) (src : List α) : List α :=
  l.take off ++ src ++ l.drop (off + src.length)

lemma length_splice (h : off ≤ l.length) :
    (splice l off src).length = max l.length (off + src.length) := by
  simp only [splice, List.length_append, List.length_take, List.length_drop]
  omega

@[simp] lemma splice_nil (l : List α) (off : Nat) : splice l off [] = l := by
  simp [splice]

lemma getElem?_splice (h : off ≤ l.length) (k : Nat) :
    (splice l off src)[k]? =
      if k < off then l[k]? else if k < off + src.length then src[k - off]? else l[k]? := by
  have htake : (l.take off).length = off := List.length_take_of_le h
  simp only [splice, List.append_assoc]
  by_cases hlo : k < off
  · rw [if_pos hlo, List.getElem?_append_left (by omega), List.getElem?_take, if_pos hlo]
  · rw [if_neg hlo, List.getElem?_append_right (by omega), htake]
    by_cases hhi : k < off + src.length
    · rw [if_pos hhi, List.getElem?_append_left (by omega)]
    · -- past the window the tail of `l` is read at its own index
      rw [if_neg hhi, List.getElem?_append_right (by omega), List.getElem?_drop]
      congr 1
      omega

/-- The elements of a view given by its elements. -/
lemma getElem?_map_range (f : Nat → α) (L k : Nat) :
    ((List.range L).map f)[k]? = if k < L then some (f k) else none := by
  rw [List.getElem?_map]
  by_cases hk : k < L
  · rw [List.getElem?_range hk, if_pos hk]
    rfl
  · rw [List.getElem?_eq_none (by simpa using hk), if_neg hk]
    rfl

/-- A write in two runs, the second starting where the first ends, is the write of both. -/
lemma splice_append : splice (splice l off a) (off + a.length) b = splice l off (a ++ b) := by
  by_cases h : off ≤ l.length
  · have hlen : off + a.length ≤ (splice l off a).length := by
      rw [length_splice h]
      omega
    apply List.ext_getElem?
    intro k
    rw [getElem?_splice hlen, getElem?_splice h, getElem?_splice h, List.length_append]
    by_cases h1 : k < off
    · simp only [h1, if_true]
      rw [if_pos (by omega)]
    by_cases h2 : k < off + a.length
    · simp only [h1, h2, if_true, if_false]
      rw [if_pos (by omega), List.getElem?_append_left (by omega)]
    by_cases h3 : k < off + a.length + b.length
    · simp only [h1, h2, h3, if_true, if_false]
      rw [if_pos (by omega), List.getElem?_append_right (by omega)]
      congr 1
      omega
    · simp only [h1, h2, h3, if_false]
      rw [if_neg (by omega)]
  · -- a write past the end appends, and so does the second one
    have hl : splice l off a = l ++ a := by
      rw [splice, List.take_of_length_le (by omega), List.drop_eq_nil_of_le (by omega),
        List.append_nil]
    rw [hl, splice, splice, List.take_of_length_le (by simp; omega),
      List.drop_eq_nil_of_le (by simp; omega), List.take_of_length_le (by omega),
      List.drop_eq_nil_of_le (by simp; omega), List.append_nil, List.append_nil, List.append_assoc]

/-- The view of `L'` elements through `g` is the view through `f` spliced, when `g` reads `src`
in the window and agrees with `f` outside it. -/
lemma map_range_splice {f g : Nat → α} {L : Nat} (hoff : off ≤ L)
    (hin : ∀ i (hi : i < src.length), g (off + i) = src[i])
    (hout : ∀ k, k < max L (off + src.length) → k < off ∨ off + src.length ≤ k → g k = f k) :
    (List.range (max L (off + src.length))).map g = splice ((List.range L).map f) off src := by
  have hlen : off ≤ ((List.range L).map f).length := by simpa using hoff
  apply List.ext_getElem?
  intro k
  rw [getElem?_splice hlen, getElem?_map_range, getElem?_map_range]
  by_cases hk : k < max L (off + src.length)
  · rw [if_pos hk]
    by_cases hlo : k < off
    · rw [if_pos hlo, if_pos (by omega), hout k hk (.inl hlo)]
    by_cases hhi : k < off + src.length
    · -- inside the window: element `k - off` of `src`
      rw [if_neg hlo, if_pos hhi, List.getElem?_eq_getElem (by omega)]
      have := hin (k - off) (by omega)
      rw [Nat.add_sub_cancel' (by omega)] at this
      rw [this]
    · rw [if_neg hlo, if_neg hhi, if_pos (by omega), hout k hk (.inr (by omega))]
  · rw [if_neg hk, if_neg (by omega), if_neg (by omega), if_neg (by omega)]

/-- A run of `m` elements of a view from `p` on, inside the view. -/
lemma take_drop_map_range (f : Nat → α) {L p m : Nat} (h : p + m ≤ L) :
    (((List.range L).map f).drop p).take m = (List.range m).map fun i => f (p + i) := by
  apply List.ext_getElem?
  intro i
  rw [List.getElem?_take, List.getElem?_drop, getElem?_map_range, getElem?_map_range]
  by_cases hi : i < m
  · rw [if_pos hi, if_pos (by omega), if_pos hi]
  · rw [if_neg hi, if_neg hi]

/-- Reading the window back gives what was written. -/
lemma take_drop_splice (h : off ≤ l.length) : ((splice l off src).drop off).take src.length = src := by
  have htake : (l.take off).length = off := List.length_take_of_le h
  rw [splice, List.append_assoc, List.drop_left' htake, List.take_left' rfl]

/-- Reading a run apart from the window gives what was there before. -/
lemma take_drop_splice_of_disjoint (h : off ≤ l.length) {p m : Nat}
    (hd : p + m ≤ off ∨ off + src.length ≤ p) :
    ((splice l off src).drop p).take m = (l.drop p).take m := by
  apply List.ext_getElem?
  intro i
  rw [List.getElem?_take, List.getElem?_take, List.getElem?_drop, List.getElem?_drop,
    getElem?_splice h]
  by_cases hi : i < m
  · rw [if_pos hi, if_pos hi]
    rcases hd with hd | hd
    · rw [if_pos (by omega)]
    · rw [if_neg (by omega), if_neg (by omega)]
  · rw [if_neg hi, if_neg hi]

/-- The list read in chunks of `m` elements, each through `f`: a write of `m` elements at the
start of chunk `i` writes entry `i` of the chunks, or appends it when `i` is the end. -/
lemma map_range_chunks_splice {β : Type} (f : List α → β) {m L i : Nat} (hl : l.length = m * L)
    (hi : i ≤ L) (hb : b.length = m) :
    (List.range (max L (i + 1))).map (fun k => f (((splice l (m * i) b).drop (m * k)).take m)) =
      splice ((List.range L).map fun k => f ((l.drop (m * k)).take m)) i [f b] := by
  have hoff : m * i ≤ l.length := hl ▸ Nat.mul_le_mul_left m hi
  show (List.range (max L (i + [f b].length))).map _ = _
  apply map_range_splice hi
  · -- the one chunk in the window is `b`
    intro j hj
    obtain rfl : j = 0 := by simpa using hj
    have key : ((splice l (m * i) b).drop (m * i)).take b.length = b := take_drop_splice hoff
    rw [hb] at key
    simp only [Nat.add_zero, key, List.getElem_singleton]
  · -- every other chunk lies before the window or after it
    intro k _ hk
    simp only [List.length_singleton] at hk
    have hd : m * k + m ≤ m * i ∨ m * i + b.length ≤ m * k := by
      rw [hb, ← Nat.mul_succ, ← Nat.mul_succ]
      rcases hk with hk | hk
      · exact .inl (Nat.mul_le_mul_left m hk)
      · exact .inr (Nat.mul_le_mul_left m hk)
    rw [take_drop_splice_of_disjoint hoff hd]

end Splice
