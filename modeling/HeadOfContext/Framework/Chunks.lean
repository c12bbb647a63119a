import Mathlib.Data.List.Basic
import Mathlib.Tactic.Common

/-!
# Slices of a fixed size

`chunksOf n l` is the loop `for start in range(0, len(l), n): l[start : start + n]`:
consecutive slices of `n` items, the last one shorter.
-/

namespace List

variable {α : Type}

/-- The slices of `l`; the fuel bounds their number. -/
def chunksAux (n : ℕ) : ℕ → List α → List (List α)
  | 0, _ => []
  | _ + 1, [] => []
  | fuel + 1, x :: xs => (x :: xs).take n :: chunksAux n fuel ((x :: xs).drop n)

/-- Consecutive slices of `n` items. -/
def chunksOf (n : ℕ) (l : List α) : List (List α) := chunksAux n l.length l

theorem flatten_chunksAux {n fuel : ℕ} {l : List α} (hn : 0 < n) (hl : l.length ≤ fuel) :
    (chunksAux n fuel l).flatten = l := by
  induction fuel generalizing l with
  | zero =>
    obtain rfl : l = [] := length_eq_zero_iff.mp (Nat.le_zero.mp hl)
    rfl
  | succ fuel ih =>
    cases l with
    | nil => rfl
    | cons x xs =>
      rw [chunksAux, flatten_cons, ih, take_append_drop]
      rw [length_drop]
      omega

/-- The slices make up the list. -/
theorem flatten_chunksOf {n : ℕ} {l : List α} (hn : 0 < n) : (chunksOf n l).flatten = l :=
  flatten_chunksAux hn (Nat.le_refl _)

theorem length_le_of_mem_chunksAux {n fuel : ℕ} {l c : List α} (hc : c ∈ chunksAux n fuel l) :
    c.length ≤ n := by
  induction fuel generalizing l with
  | zero => exact absurd hc not_mem_nil
  | succ fuel ih =>
    cases l with
    | nil => exact absurd hc not_mem_nil
    | cons x xs =>
      rcases mem_cons.mp hc with rfl | hc
      · exact length_take_le _ _
      · exact ih hc

/-- No slice has more than `n` items. -/
theorem length_le_of_mem_chunksOf {n : ℕ} {l c : List α} (hc : c ∈ chunksOf n l) :
    c.length ≤ n :=
  length_le_of_mem_chunksAux hc

theorem ne_nil_of_mem_chunksAux {n fuel : ℕ} {l c : List α} (hn : 0 < n)
    (hc : c ∈ chunksAux n fuel l) : c ≠ [] := by
  induction fuel generalizing l with
  | zero => exact absurd hc not_mem_nil
  | succ fuel ih =>
    cases l with
    | nil => exact absurd hc not_mem_nil
    | cons x xs =>
      rcases mem_cons.mp hc with rfl | hc
      · exact fun h => absurd (take_eq_nil_iff.mp h) (by simp [Nat.ne_of_gt hn])
      · exact ih hc

/-- No slice is empty. -/
theorem ne_nil_of_mem_chunksOf {n : ℕ} {l c : List α} (hn : 0 < n) (hc : c ∈ chunksOf n l) :
    c ≠ [] :=
  ne_nil_of_mem_chunksAux hn hc

/-- What a slice has is in the list. -/
theorem mem_of_mem_chunksOf {n : ℕ} {l c : List α} {x : α} (hn : 0 < n) (hc : c ∈ chunksOf n l)
    (hx : x ∈ c) : x ∈ l := by
  rw [← flatten_chunksOf (l := l) hn]
  exact mem_flatten.mpr ⟨c, hc, hx⟩

end List
