import Mathlib.Data.List.Nodup
import Mathlib.Tactic.Common

/-!
# Rows under a key

A table kept as the list of its rows, each under the key that `key` reads off it. `find` looks
a key up and `put` replaces the row of a key, in its place.
-/

namespace Rows

variable {κ ρ : Type} [DecidableEq κ] (key : ρ → κ)

/-- The row under the key. -/
def find (rows : List ρ) (k : κ) : Option ρ := rows.find? fun r => key r = k

/-- Replace the row under the key of `row`. -/
def put (rows : List ρ) (row : ρ) : List ρ := rows.map fun r => if key r = key row then row else r

variable {key} {rows : List ρ} {row : ρ} {k : κ}

theorem key_of_find (h : find key rows k = some row) : key row = k := by
  simpa using List.find?_some h

theorem mem_of_find (h : find key rows k = some row) : row ∈ rows := List.mem_of_find?_eq_some h

theorem find_put :
    find key (put key rows row) k =
      if k = key row then (find key rows k).map fun _ => row else find key rows k := by
  induction rows with
  | nil => simp [put, find]
  | cons x rest ih =>
    unfold put find at ih ⊢
    rw [List.map_cons, List.find?_cons, List.find?_cons, ih]
    by_cases hx : key x = key row
    · rw [if_pos hx]
      by_cases hk : k = key row
      · simp [hk, hx]
      · have hne : ¬ key row = k := fun h => hk h.symm
        simp [hk, hx, hne]
    · rw [if_neg hx]
      by_cases hk : k = key row
      · have hne : ¬ key x = k := fun h => hx (h.trans hk)
        simp [hk, hx]
      · simp [hk]

/-- A row that is there replaces itself alone. -/
theorem find_put_of_find {old : ρ} (h : find key rows (key row) = some old) :
    find key (put key rows row) k = if k = key row then some row else find key rows k := by
  rw [find_put]
  by_cases hk : k = key row
  · subst hk
    rw [if_pos rfl, if_pos rfl, h, Option.map_some]
  · rw [if_neg hk, if_neg hk]

theorem find_append (h : find key rows (key row) = none) :
    find key (rows ++ [row]) k = if k = key row then some row else find key rows k := by
  unfold find at h ⊢
  rw [List.find?_append]
  by_cases hk : k = key row
  · subst hk
    simp [h]
  · have hne : ¬ key row = k := fun h => hk h.symm
    simp [hk, hne]

/-- Changing rows without changing their keys. -/
theorem find_map {f : ρ → ρ} (hf : ∀ r, key (f r) = key r) :
    find key (rows.map f) k = (find key rows k).map f := by
  unfold find
  rw [List.find?_map]
  congr 2
  funext r
  simp [hf]

/-! ### Rows under distinct keys -/

/-- A key has one row. -/
theorem eq_of_find {old : ρ} (hnodup : (rows.map key).Nodup) (hold : find key rows k = some old)
    (hrow : row ∈ rows) (hk : key row = k) : row = old := by
  refine List.inj_on_of_nodup_map hnodup hrow (mem_of_find hold) ?_
  rw [hk, key_of_find hold]

theorem find_eq_none : find key rows k = none ↔ k ∉ rows.map key := by
  rw [find, List.find?_eq_none, List.mem_map]
  constructor
  · rintro h ⟨r, hr, hk⟩
    exact h r hr (decide_eq_true hk)
  · intro h r hr hk
    exact h ⟨r, hr, of_decide_eq_true hk⟩

/-- Adding a row under a new key. -/
theorem nodup_append (hnodup : (rows.map key).Nodup) :
    ((rows ++ [row]).map key).Nodup ↔ find key rows (key row) = none := by
  rw [find_eq_none, List.map_append, List.map_singleton, List.nodup_append]
  constructor
  · rintro ⟨-, -, hne⟩ hmem
    exact hne _ hmem _ List.mem_cons_self rfl
  · intro hnew
    refine ⟨hnodup, List.nodup_singleton _, fun k hk k' hk' heq => hnew ?_⟩
    rwa [← List.mem_singleton.mp hk', ← heq]

theorem filter_key (hnodup : (rows.map key).Nodup) :
    (rows.filter fun r => key r = k) = (find key rows k).toList := by
  induction rows with
  | nil => rfl
  | cons x rest ih =>
    obtain ⟨hnew, hrest⟩ := List.nodup_cons.mp hnodup
    unfold find at ih ⊢
    by_cases hx : key x = k
    · have hnone : (rest.filter fun r => key r = k) = [] := by
        refine List.filter_eq_nil_iff.mpr fun r hr heq => hnew ?_
        rw [hx, ← of_decide_eq_true heq]
        exact List.mem_map_of_mem hr
      simp [hx, hnone]
    · simp [hx, ih hrest]

/-- Replacing the row of a key, as a change of the rows that a condition picks: it picks that
row, and no row of another key. -/
theorem put_eq_map {old : ρ} {p : ρ → Bool} {f : ρ → ρ} (hnodup : (rows.map key).Nodup)
    (hold : find key rows k = some old) (hp : p old = true)
    (hkeys : ∀ r, p r = true → key r = k) (hf : key (f old) = k) :
    put key rows (f old) = rows.map fun r => if p r then f r else r := by
  refine List.map_congr_left fun r hr => ?_
  by_cases hk : key r = k
  · obtain rfl := eq_of_find hnodup hold hr hk
    rw [if_pos (hk.trans hf.symm), if_pos hp]
  · have hpick : ¬ p r = true := fun h => hk (hkeys r h)
    rw [if_neg fun h => hk (h.trans hf), if_neg hpick]

end Rows
