import Mathlib.Algebra.Order.Ring.Defs
import Mathlib.Data.List.Count
import Mathlib.Data.Nat.Cast.Order.Basic
import Mathlib.Tactic.Linarith
import Mathlib.Tactic.Ring

/-!
# Grants that a bucket pays for

A bucket holds at most `cap` tokens and refills at `rate`, lazily: it keeps how many tokens it
had at its last update, and `Metered.level` says how many that makes at a later time. Each grant
takes one token.

`Metered` is what makes the amortised bound an invariant. With the grants so far it keeps what
is left, as a function of the time at which somebody looks, because a bucket that is full from
some time on and a bucket that nobody keeps any more are the same function from that time on. Two
rules suffice for a run: what is left may drop (`Metered.of_le`), and a grant has to be paid
(`Metered.grant`).
-/

variable {K : Type} [CommRing K] [LinearOrder K]

namespace Metered

/-- The tokens at `now` of a bucket that had so many when it was updated. -/
def level (cap rate tokens updated now : K) : K := min cap (tokens + (now - updated) * rate)

section Level

variable {cap rate tokens updated now t : K}

theorem level_le_cap : level cap rate tokens updated now ≤ cap := min_le_left _ _

variable [IsStrictOrderedRing K]

theorem level_nonneg (hcap : 0 ≤ cap) (hrate : 0 ≤ rate) (htokens : 0 ≤ tokens)
    (hnow : updated ≤ now) : 0 ≤ level cap rate tokens updated now :=
  le_min hcap (add_nonneg htokens (mul_nonneg (sub_nonneg.mpr hnow) hrate))

/-- A full bucket stays full. -/
theorem level_full (hrate : 0 ≤ rate) (hnow : updated ≤ now) :
    level cap rate cap updated now = cap :=
  min_eq_left (le_add_of_nonneg_right (mul_nonneg (sub_nonneg.mpr hnow) hrate))

/-- A bucket that is full once is full from then on, whenever it was updated. -/
theorem level_eq_cap (hrate : 0 ≤ rate) (hfull : cap ≤ level cap rate tokens updated now)
    (ht : now ≤ t) : level cap rate tokens updated t = cap := by
  have hnow : cap ≤ tokens + (now - updated) * rate := le_trans hfull (min_le_right _ _)
  refine min_eq_left (le_trans hnow ?_)
  exact add_le_add_right (mul_le_mul_of_nonneg_right (sub_le_sub_right ht updated) hrate) tokens

/-- Looking twice is looking once. -/
theorem level_level (hrate : 0 ≤ rate) (ht : now ≤ t) :
    level cap rate (level cap rate tokens updated now) now t = level cap rate tokens updated t := by
  have hmore : 0 ≤ (t - now) * rate := mul_nonneg (sub_nonneg.mpr ht) hrate
  have hsplit : tokens + (t - updated) * rate =
      tokens + (now - updated) * rate + (t - now) * rate := by ring
  rw [level, level, level, hsplit, min_add, ← min_assoc, min_eq_left (le_add_of_nonneg_right hmore)]

theorem level_mono {tokens' : K} (h : tokens ≤ tokens') :
    level cap rate tokens updated now ≤ level cap rate tokens' updated now :=
  min_le_min le_rfl (add_le_add_left h _)

end Level

end Metered

/-- The grants so far, all before `now`, and what is left of the bucket at `now` and later. -/
structure Metered (cap rate : K) (grants : List K) (now : K) (left : K → K) : Prop where
  past : ∀ g ∈ grants, g ≤ now
  nonneg : ∀ t, now ≤ t → 0 ≤ left t
  since : ∀ s t, now ≤ t → s ≤ t →
    (grants.countP fun g => decide (s ≤ g)) + left t ≤ cap + (t - s) * rate
  window : ∀ s t, s ≤ t →
    ((grants.countP fun g => decide (s ≤ g ∧ g ≤ t) : ℕ) : K) ≤ cap + (t - s) * rate

namespace Metered

variable [IsStrictOrderedRing K] {cap rate now : K} {grants : List K} {left left' : K → K}

/-- Nothing is granted, and the bucket is full. -/
theorem start (hcap : 0 ≤ cap) (hrate : 0 ≤ rate) (now : K) :
    Metered cap rate [] now fun _ => cap where
  past := fun g hg => absurd hg List.not_mem_nil
  nonneg := fun _ _ => hcap
  since := by
    intro s t _ hst
    rw [List.countP_nil, Nat.cast_zero, zero_add]
    exact le_add_of_nonneg_right (mul_nonneg (sub_nonneg.mpr hst) hrate)
  window := by
    intro s t hst
    rw [List.countP_nil, Nat.cast_zero]
    exact add_nonneg hcap (mul_nonneg (sub_nonneg.mpr hst) hrate)

/-- **Time passes, and what is left may only drop.** -/
theorem of_le (h : Metered cap rate grants now left) {now' : K} (hnow : now ≤ now')
    (hle : ∀ t, now' ≤ t → left' t ≤ left t) (hnonneg : ∀ t, now' ≤ t → 0 ≤ left' t) :
    Metered cap rate grants now' left' where
  past := fun g hg => le_trans (h.past g hg) hnow
  nonneg := hnonneg
  since := by
    intro s t ht hst
    calc (grants.countP fun g => decide (s ≤ g)) + left' t
        ≤ (grants.countP fun g => decide (s ≤ g)) + left t := add_le_add_right (hle t ht) _
      _ ≤ cap + (t - s) * rate := h.since s t (le_trans hnow ht) hst
  window := h.window

/-- Only what is left from now on counts. -/
theorem congr (h : Metered cap rate grants now left) {now' : K} (hnow : now ≤ now')
    (heq : ∀ t, now' ≤ t → left' t = left t) : Metered cap rate grants now' left' := by
  refine h.of_le hnow (fun t ht => (heq t ht).le) fun t ht => ?_
  rw [heq t ht]
  exact h.nonneg t (le_trans hnow ht)

/-- **A grant is paid with one token.** -/
theorem grant (h : Metered cap rate grants now left) (hrate : 0 ≤ rate)
    (hle : ∀ t, now ≤ t → left' t ≤ left t)
    (hpaid : ∀ t, now ≤ t → left' t ≤ left now - 1 + (t - now) * rate)
    (hnonneg : ∀ t, now ≤ t → 0 ≤ left' t) :
    Metered cap rate (grants ++ [now]) now left' := by
  -- a grant costs one of what was left; this bounds the grants since any moment by the capacity
  have hsince : ∀ s t, now ≤ t → s ≤ t →
      ((grants ++ [now]).countP fun g => decide (s ≤ g)) + left' t ≤ cap + (t - s) * rate := by
    intro s t ht hst
    rw [List.countP_append, List.countP_singleton]
    by_cases hs : s ≤ now
    · have hbefore := h.since s now le_rfl hs
      have hafter := hpaid t ht
      rw [if_pos (decide_eq_true hs), Nat.cast_add, Nat.cast_one]
      calc ((grants.countP fun g => decide (s ≤ g) : ℕ) : K) + 1 + left' t
          ≤ (grants.countP fun g => decide (s ≤ g)) + left now + (t - now) * rate := by linarith
        _ ≤ cap + (now - s) * rate + (t - now) * rate := add_le_add_left hbefore _
        _ = cap + (t - s) * rate := by ring
    · rw [if_neg (by rwa [decide_eq_true_iff]), add_zero]
      exact le_trans (add_le_add_right (hle t ht) _) (h.since s t ht hst)
  refine ⟨?_, hnonneg, hsince, ?_⟩
  · intro g hg
    cases List.mem_append.mp hg with
    | inl hg => exact h.past g hg
    | inr hg => exact le_of_eq (List.mem_singleton.mp hg)
  · intro s t hst
    -- the window holds the new grant, or it ends before or starts after it
    by_cases hin : s ≤ now ∧ now ≤ t
    · -- every grant of the window is one since its start, and what is left now is no debt
      have hcount : ((grants ++ [now]).countP fun g => decide (s ≤ g ∧ g ≤ t)) ≤
          (grants ++ [now]).countP fun g => decide (s ≤ g) := by
        refine List.countP_mono_left fun g _ hg => ?_
        rw [decide_eq_true_iff] at hg ⊢
        exact hg.1
      have hleft := hnonneg now le_rfl
      have hnow := hsince s now le_rfl hin.1
      have hlater : (now - s) * rate ≤ (t - s) * rate :=
        mul_le_mul_of_nonneg_right (sub_le_sub_right hin.2 s) hrate
      calc (((grants ++ [now]).countP fun g => decide (s ≤ g ∧ g ≤ t) : ℕ) : K)
          ≤ ((grants ++ [now]).countP fun g => decide (s ≤ g) : ℕ) := Nat.cast_le.mpr hcount
        _ ≤ cap + (now - s) * rate := by linarith
        _ ≤ cap + (t - s) * rate := add_le_add_right hlater _
    · rw [List.countP_append, List.countP_singleton, if_neg (by rwa [decide_eq_true_iff]), add_zero]
      exact h.window s t hst

end Metered
