import Mathlib.Data.List.Forall2
import Mathlib.Data.List.ReduceOption

/-!
# Lists paired by a relation

What an element of one list has opposite in the other.
-/

namespace List

variable {α β : Type}

theorem Forall₂.exists_left {R : α → β → Prop} {l : List α} {l' : List β}
    (h : Forall₂ R l l') {a : α} (ha : a ∈ l) : ∃ b ∈ l', R a b := by
  induction h with
  | nil => exact absurd ha not_mem_nil
  | cons hab _ ih =>
    rcases mem_cons.mp ha with rfl | hrest
    · exact ⟨_, mem_cons_self, hab⟩
    · obtain ⟨b, hb, hR⟩ := ih hrest
      exact ⟨b, mem_cons_of_mem _ hb, hR⟩

theorem Forall₂.exists_right {R : α → β → Prop} {l : List α} {l' : List β}
    (h : Forall₂ R l l') {b : β} (hb : b ∈ l') : ∃ a ∈ l, R a b :=
  h.flip.exists_left hb

/-- Where every lookup has found something, it is what was found. -/
theorem Forall₂.reduceOption {R : α → Option β → Prop} {l : List α} {found : List (Option β)}
    (h : Forall₂ R l found) (hall : ¬ found.any Option.isNone = true) :
    Forall₂ (fun a b => R a (some b)) l found.reduceOption := by
  induction h with
  | nil => exact .nil
  | @cons a x l found hax _ ih =>
    rw [any_cons, Bool.or_eq_true, not_or] at hall
    cases x with
    | none => exact absurd rfl hall.1
    | some b => exact .cons hax (ih hall.2)

end List
