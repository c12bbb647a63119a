import Mathlib.Data.Set.Lattice
import Mathlib.Tactic.Common

/-!
# Synchronising a replica by differences

A replica is brought in line with a target by applying the difference between the target and
a `baseline`, the remembered content of the replica. Where the replica is not what the
baseline remembers, the result need not be the target: `patch_eq_iff` says exactly when it is.

Several sources may keep one replica, each with a baseline of its own. The replica should then
hold what the sources hold together; `patch_pooled_eq_iff` says exactly when the difference of
one source keeps it so.
-/

namespace DiffSync

variable {α : Type*} {replica baseline target : Set α}

/-- The replica after the difference between baseline and target has been applied to it. -/
def patch (replica baseline target : Set α) : Set α :=
  (replica ∪ target \ baseline) \ (baseline \ target)

/-- The replica has everything that the baseline shares with the target, and what it has beyond
the baseline is in the target. -/
structure InStep (replica baseline target : Set α) : Prop where
  shared : baseline ∩ target ⊆ replica
  beyond : replica \ baseline ⊆ target

/-- **Applying a difference** produces the target exactly when the replica is in step. -/
theorem patch_eq_iff : patch replica baseline target = target ↔ InStep replica baseline target := by
  constructor
  · intro h
    refine ⟨fun x hx => ?_, fun x hx => ?_⟩
    · -- the difference does not mention what baseline and target share
      have hpatch : x ∈ patch replica baseline target := h.symm ▸ hx.2
      exact hpatch.1.resolve_right fun hnew => hnew.2 hx.1
    · rw [← h]
      exact ⟨.inl hx.1, fun hold => hx.2 hold.1⟩
  · intro h
    ext x
    constructor
    · rintro ⟨hx | hx, hkept⟩
      · by_cases hbase : x ∈ baseline
        · by_contra htarget
          exact hkept ⟨hbase, htarget⟩
        · exact h.beyond ⟨hx, hbase⟩
      · exact hx.1
    · intro hx
      refine ⟨?_, fun hold => hold.2 hx⟩
      by_cases hbase : x ∈ baseline
      · exact .inl (h.shared ⟨hbase, hx⟩)
      · exact .inr ⟨hx, hbase⟩

/-- A replica that is what the baseline remembers is in step with every target. -/
theorem InStep.refl : InStep baseline baseline target :=
  ⟨fun _ hx => hx.1, fun _ hx => absurd hx.1 hx.2⟩

/-! ### Several sources over one replica -/

section Sources

variable {κ : Type*} [DecidableEq κ] {held : κ → Set α} {k : κ}

/-- What the sources hold together. -/
def pooled (held : κ → Set α) : Set α := ⋃ j, held j

/-- What the sources other than `k` hold. -/
def others (held : κ → Set α) (k : κ) : Set α := {x | ∃ j, j ≠ k ∧ x ∈ held j}

omit [DecidableEq κ] in
theorem mem_pooled {x : α} : x ∈ pooled held ↔ ∃ j, x ∈ held j := Set.mem_iUnion

omit [DecidableEq κ] in
/-- What is held together is what one source holds, and what the others do. -/
theorem pooled_eq (held : κ → Set α) (k : κ) : pooled held = others held k ∪ held k := by
  ext x
  rw [mem_pooled]
  constructor
  · rintro ⟨j, hx⟩
    by_cases hjk : j = k
    · exact .inr (hjk ▸ hx)
    · exact .inl ⟨j, hjk, hx⟩
  · rintro (⟨j, -, hx⟩ | hx)
    · exact ⟨j, hx⟩
    · exact ⟨k, hx⟩

/-- A change of one source leaves what the others hold. -/
theorem others_update : others (Function.update held k target) k = others held k := by
  ext x
  refine exists_congr fun j => and_congr_right fun hjk => ?_
  rw [Function.update_of_ne hjk]

theorem pooled_update : pooled (Function.update held k target) = others held k ∪ target := by
  rw [pooled_eq _ k, others_update, Function.update_self]

/-- **One source applying its difference** to what all hold together leaves again what they
hold together exactly when it takes away nothing that another source holds. -/
theorem patch_pooled_eq_iff :
    patch (pooled held) (held k) target = pooled (Function.update held k target) ↔
      others held k ∩ held k ⊆ target := by
  rw [pooled_update, pooled_eq held k]
  constructor
  · intro h x hx
    -- another source holds `x`, so the replica must still have it
    have hpatch : x ∈ patch (others held k ∪ held k) (held k) target := h ▸ Or.inl hx.1
    by_contra htarget
    exact hpatch.2 ⟨hx.2, htarget⟩
  · intro h
    ext x
    constructor
    · rintro ⟨(hx | hx) | hx, hkept⟩
      · exact .inl hx
      · refine .inr ?_
        by_contra htarget
        exact hkept ⟨hx, htarget⟩
      · exact .inr hx.1
    · rintro (hx | hx)
      · exact ⟨.inl (.inl hx), fun hold => hold.2 (h ⟨hx, hold.1⟩)⟩
      · refine ⟨?_, fun hold => hold.2 hx⟩
        by_cases hbase : x ∈ held k
        · exact .inl (.inr hbase)
        · exact .inr ⟨hx, hbase⟩

end Sources

end DiffSync
