import Mathlib.Data.List.Forall2
import Mathlib.Logic.Basic
import Mathlib.Tactic.Common

/-!
# Computations that may raise

`Except` is the result of a computation without calls. `raiseIf` is the statement
`if c: raise e`, and the equations below invert a sequence that returned: each of its
steps returned.
-/

namespace Except

variable {ε α β : Type}

/-- `if c: raise e`. -/
def raiseIf (c : Prop) [Decidable c] (e : ε) : Except ε Unit :=
  if c then .error e else .ok ()

@[simp] theorem ok_bind (a : α) (f : α → Except ε β) : (Except.ok a >>= f) = f a := rfl

@[simp] theorem error_bind (e : ε) (f : α → Except ε β) : (Except.error e >>= f) = .error e := rfl

@[simp] theorem pure_eq_ok (a : α) : (Pure.pure a : Except ε α) = .ok a := rfl

theorem bind_eq_ok {x : Except ε α} {f : α → Except ε β} {b : β} :
    (x >>= f) = .ok b ↔ ∃ a, x = .ok a ∧ f a = .ok b := by
  cases x with
  | error e => simp
  | ok a => simp

@[simp] theorem mapError_eq_ok {ε' : Type} {x : Except ε α} {f : ε → ε'} {a : α} :
    x.mapError f = .ok a ↔ x = .ok a := by
  cases x with
  | error e => simp [Except.mapError]
  | ok b => simp [Except.mapError]

/-- **Each step of a loop that returned has returned.** -/
theorem mapM_eq_ok {f : α → Except ε β} {xs : List α} {ys : List β} :
    xs.mapM f = .ok ys ↔ List.Forall₂ (fun x y => f x = .ok y) xs ys := by
  induction xs generalizing ys with
  | nil =>
    rw [List.mapM_nil, pure_eq_ok, List.forall₂_nil_left_iff]
    constructor
    · intro h
      exact (Except.ok.inj h).symm
    · rintro rfl
      rfl
  | cons x xs ih =>
    rw [List.mapM_cons, bind_eq_ok, List.forall₂_cons_left_iff]
    constructor
    · rintro ⟨y, hy, hrest⟩
      obtain ⟨rest, hrest, heq⟩ := bind_eq_ok.mp hrest
      exact ⟨y, rest, hy, ih.mp hrest, (Except.ok.inj heq).symm⟩
    · rintro ⟨y, rest, hy, hrest, rfl⟩
      exact ⟨y, hy, bind_eq_ok.mpr ⟨rest, ih.mpr hrest, rfl⟩⟩

/-- Every result of a loop is that of an element. -/
theorem exists_of_mem_result {f : α → Except ε β} {xs : List α} {ys : List β}
    (h : xs.mapM f = .ok ys) {y : β} (hy : y ∈ ys) : ∃ x ∈ xs, f x = .ok y := by
  have hall := mapM_eq_ok.mp h
  induction hall with
  | nil => exact absurd hy List.not_mem_nil
  | cons hx hrest ih =>
    rcases List.mem_cons.mp hy with rfl | hy
    · exact ⟨_, List.mem_cons_self, hx⟩
    · obtain ⟨x, hmem, hx⟩ := ih (mapM_eq_ok.mpr hrest) hy
      exact ⟨x, List.mem_cons_of_mem _ hmem, hx⟩

/-- Every element of a loop has a result. -/
theorem exists_result_of_mem {f : α → Except ε β} {xs : List α} {ys : List β}
    (h : xs.mapM f = .ok ys) {x : α} (hx : x ∈ xs) : ∃ y ∈ ys, f x = .ok y := by
  have hall := mapM_eq_ok.mp h
  induction hall with
  | nil => exact absurd hx List.not_mem_nil
  | cons hy hrest ih =>
    rcases List.mem_cons.mp hx with rfl | hx
    · exact ⟨_, List.mem_cons_self, hy⟩
    · obtain ⟨y, hmem, hy⟩ := ih (mapM_eq_ok.mpr hrest) hx
      exact ⟨y, List.mem_cons_of_mem _ hmem, hy⟩

theorem raiseIf_eq_error {c : Prop} [Decidable c] {e e' : ε} :
    raiseIf c e = .error e' ↔ c ∧ e' = e := by
  unfold raiseIf
  split_ifs with hc <;> simp [hc, eq_comm]

@[simp] theorem raiseIf_eq_ok {c : Prop} [Decidable c] {e : ε} {u : Unit} :
    raiseIf c e = .ok u ↔ ¬c := by
  unfold raiseIf
  split <;> simp [*]

/-! ### The exceptions of a computation -/

section RaisesOnly

variable {P Q : ε → Prop}

/-- Every exception of the computation has the property. -/
def RaisesOnly (P : ε → Prop) (x : Except ε α) : Prop := ∀ e, x = .error e → P e

theorem raisesOnly_ok {a : α} : RaisesOnly P (.ok a : Except ε α) := fun _ h => nomatch h

theorem raisesOnly_error {e : ε} (h : P e) : RaisesOnly P (.error e : Except ε α) := by
  intro e' heq
  obtain rfl := Except.error.inj heq
  exact h

theorem RaisesOnly.bind {x : Except ε α} {f : α → Except ε β} (hx : RaisesOnly P x)
    (hf : ∀ a, RaisesOnly P (f a)) : RaisesOnly P (x >>= f) := by
  cases x with
  | error e => exact raisesOnly_error (hx e rfl)
  | ok a => exact hf a

theorem raisesOnly_raiseIf {c : Prop} [Decidable c] {e : ε} (h : P e) :
    RaisesOnly P (raiseIf c e) := by
  intro e' heq
  rw [(raiseIf_eq_error.mp heq).2]
  exact h

theorem RaisesOnly.mapError {x : Except ε α} {f : ε → ε} (hx : RaisesOnly P x)
    (hf : ∀ e, P e → Q (f e)) : RaisesOnly Q (x.mapError f) := by
  cases x with
  | error e => exact raisesOnly_error (hf e (hx e rfl))
  | ok a => exact raisesOnly_ok

theorem RaisesOnly.mono {x : Except ε α} (hx : RaisesOnly P x) (h : ∀ e, P e → Q e) :
    RaisesOnly Q x := fun e heq => h e (hx e heq)

end RaisesOnly

/-- The computation returned a value with the property. -/
def returns (x : Except ε α) (p : α → Bool) : Bool :=
  match x with
  | .error _ => false
  | .ok a => p a

theorem returns_iff {x : Except ε α} {p : α → Bool} :
    x.returns p = true ↔ ∃ a, x = .ok a ∧ p a = true := by
  cases x with
  | error e => simp [returns]
  | ok a => simp [returns]

end Except
