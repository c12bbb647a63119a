import Mathlib.Order.Lattice
import Mathlib.Data.List.Basic
import Mathlib.Tactic.Common

/-!
# Finite sets as increasing lists

`FrozenSet α` is a finite set over a linear order, kept as the strictly increasing
list of its elements. The list is the invariant: two sets with the same elements are
equal (`FrozenSet.ext`), `sorted(s)` of a program is the list itself, and every
operation evaluates by structural recursion.
-/

/-- A finite set, kept as the strictly increasing list of its elements. -/
structure FrozenSet (α : Type) [LinearOrder α] where
  items : List α
  increasing : items.Pairwise (· < ·)
  deriving DecidableEq

namespace FrozenSet

variable {α : Type} [LinearOrder α]

/-- Insert into an increasing list. -/
def insertItem (x : α) : List α → List α
  | [] => [x]
  | y :: ys => if x < y then x :: y :: ys else if x = y then y :: ys else y :: insertItem x ys

theorem mem_insertItem {x z : α} {l : List α} : z ∈ insertItem x l ↔ z = x ∨ z ∈ l := by
  induction l with
  | nil => simp [insertItem]
  | cons y ys ih =>
    rw [insertItem]
    split
    · exact List.mem_cons
    · split
      · next h => subst h; simp
      · rw [List.mem_cons, ih, List.mem_cons]
        exact or_left_comm

theorem pairwise_insertItem {x : α} {l : List α} (h : l.Pairwise (· < ·)) :
    (insertItem x l).Pairwise (· < ·) := by
  induction l with
  | nil => exact List.pairwise_singleton _ _
  | cons y ys ih =>
    obtain ⟨hy, hys⟩ := List.pairwise_cons.mp h
    rw [insertItem]
    split
    · next hlt =>
      refine List.pairwise_cons.mpr ⟨?_, h⟩
      intro z hz
      rcases List.mem_cons.mp hz with rfl | hz
      · exact hlt
      · exact hlt.trans (hy z hz)
    · split
      · exact h
      · next hlt hne =>
        refine List.pairwise_cons.mpr ⟨?_, ih hys⟩
        intro z hz
        rcases mem_insertItem.mp hz with rfl | hz
        · exact lt_of_le_of_ne (not_lt.mp hlt) (Ne.symm hne)
        · exact hy z hz

/-- The empty set. -/
def empty : FrozenSet α := ⟨[], .nil⟩

/-- The set with one more element. -/
def insert (x : α) (s : FrozenSet α) : FrozenSet α :=
  ⟨insertItem x s.items, pairwise_insertItem s.increasing⟩

/-- `frozenset(xs)`. -/
def ofList (xs : List α) : FrozenSet α := xs.foldr insert empty

instance : Membership α (FrozenSet α) := ⟨fun s x => x ∈ s.items⟩

instance (x : α) (s : FrozenSet α) : Decidable (x ∈ s) :=
  inferInstanceAs (Decidable (x ∈ s.items))

theorem mem_def {x : α} {s : FrozenSet α} : x ∈ s ↔ x ∈ s.items := Iff.rfl

theorem nodup (s : FrozenSet α) : s.items.Nodup := s.increasing.imp ne_of_lt

@[simp] theorem not_mem_empty {x : α} : x ∉ (empty : FrozenSet α) := List.not_mem_nil

@[simp] theorem mem_insert {x y : α} {s : FrozenSet α} : x ∈ s.insert y ↔ x = y ∨ x ∈ s :=
  mem_insertItem

@[simp] theorem mem_ofList {x : α} {xs : List α} : x ∈ ofList xs ↔ x ∈ xs := by
  induction xs with
  | nil => simp [ofList]
  | cons y ys ih =>
    change x ∈ (ofList ys).insert y ↔ _
    rw [mem_insert, ih, List.mem_cons]

/-- Two increasing lists with the same elements are equal. -/
theorem eq_of_pairwise {l l' : List α} (h : l.Pairwise (· < ·)) (h' : l'.Pairwise (· < ·))
    (hmem : ∀ x, x ∈ l ↔ x ∈ l') : l = l' := by
  induction l generalizing l' with
  | nil =>
    cases l' with
    | nil => rfl
    | cons y ys => exact absurd ((hmem y).mpr List.mem_cons_self) List.not_mem_nil
  | cons x xs ih =>
    cases l' with
    | nil => exact absurd ((hmem x).mp List.mem_cons_self) List.not_mem_nil
    | cons y ys =>
      obtain ⟨hx, hxs⟩ := List.pairwise_cons.mp h
      obtain ⟨hy, hys⟩ := List.pairwise_cons.mp h'
      -- both heads are the least element
      obtain rfl : x = y := by
        rcases List.mem_cons.mp ((hmem x).mp List.mem_cons_self) with hxy | hxy
        · exact hxy
        · rcases List.mem_cons.mp ((hmem y).mpr List.mem_cons_self) with hyx | hyx
          · exact hyx.symm
          · exact absurd (hx y hyx) (hy x hxy).asymm
      refine congrArg (x :: ·) (ih hxs hys fun z => ⟨fun hz => ?_, fun hz => ?_⟩)
      · rcases List.mem_cons.mp ((hmem z).mp (List.mem_cons_of_mem _ hz)) with rfl | hz'
        · exact absurd (hx z hz) (lt_irrefl z)
        · exact hz'
      · rcases List.mem_cons.mp ((hmem z).mpr (List.mem_cons_of_mem _ hz)) with rfl | hz'
        · exact absurd (hy z hz) (lt_irrefl z)
        · exact hz'

@[ext] theorem ext {s t : FrozenSet α} (h : ∀ x, x ∈ s ↔ x ∈ t) : s = t := by
  obtain ⟨l, hl⟩ := s
  obtain ⟨l', hl'⟩ := t
  obtain rfl : l = l' := eq_of_pairwise hl hl' h
  rfl

@[simp] theorem ofList_items (s : FrozenSet α) : ofList s.items = s := by
  ext x
  rw [mem_ofList, mem_def]

/-- `s - t`. -/
def sdiff (s t : FrozenSet α) : FrozenSet α :=
  ⟨s.items.filter (· ∉ t.items), s.increasing.filter _⟩

@[simp] theorem mem_sdiff {x : α} {s t : FrozenSet α} : x ∈ s.sdiff t ↔ x ∈ s ∧ x ∉ t := by
  simp [mem_def, sdiff]

/-- `s | t`. -/
def union (s t : FrozenSet α) : FrozenSet α := s.items.foldr insert t

@[simp] theorem mem_union {x : α} {s t : FrozenSet α} : x ∈ s.union t ↔ x ∈ s ∨ x ∈ t := by
  have hfold : ∀ xs : List α, x ∈ xs.foldr insert t ↔ x ∈ xs ∨ x ∈ t := by
    intro xs
    induction xs with
    | nil => simp
    | cons y ys ih => rw [List.foldr_cons, mem_insert, ih, List.mem_cons, or_assoc]
  exact hfold s.items

end FrozenSet
