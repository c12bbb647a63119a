import Mathlib.Tactic.Common

/-!
# A job that is interrupted and started over

A job is a list of steps on a state, each of which is carried out as a whole or refused. A
`Fault` interrupts the job at one of its steps: the step raises, and may have been carried out
all the same. `attemptAll_interrupted` says where the fault leaves the state: some number of
the first steps were carried out, and nothing else. What a job then does that is started over
without a fault is `attemptAll_healthy`.
-/

namespace Interrupted

variable {σ ε : Type}

/-- Where a job is interrupted: after `steps` steps have gone through, at the next one, which is
carried out or not. -/
structure Fault (ε : Type) where
  steps : ℕ
  carried : Bool
  raised : ε

/-- The steps that are carried out where the fault hits. -/
def Fault.reach (f : Fault ε) : ℕ := if f.carried then f.steps + 1 else f.steps

theorem Fault.reach_le {f : Fault ε} : f.reach ≤ f.steps + 1 := by
  unfold Fault.reach
  split
  · exact Nat.le_refl _
  · exact Nat.le_succ _

/-- A state, with the fault that is still to come. -/
structure Faulty (σ ε : Type) where
  state : σ
  fault : Option (Fault ε)

/-- Carry out steps in order, as long as none is refused. -/
def carryOut : List (σ → Option σ) → σ → Option σ
  | [], s => some s
  | step :: rest, s => (step s).bind (carryOut rest)

variable {refusal : ε}

/-- Attempt one step: the fault hits it, or it is carried out, or refused. -/
def attempt (refusal : ε) (step : σ → Option σ) (s : Faulty σ ε) : Except ε Unit × Faulty σ ε :=
  match s.fault with
  | some ⟨0, carried, raised⟩ =>
    (.error raised, ⟨if carried then (step s.state).getD s.state else s.state, none⟩)
  | some ⟨n + 1, carried, raised⟩ =>
    match step s.state with
    | some s' => (.ok (), ⟨s', some ⟨n, carried, raised⟩⟩)
    | none => (.error refusal, s)
  | none =>
    match step s.state with
    | some s' => (.ok (), ⟨s', none⟩)
    | none => (.error refusal, s)

/-- Attempt the steps in order, up to the first that raises. -/
def attemptAll (refusal : ε) : List (σ → Option σ) → Faulty σ ε → Except ε Unit × Faulty σ ε
  | [], s => (.ok (), s)
  | step :: rest, s =>
    match attempt refusal step s with
    | (.ok (), s') => attemptAll refusal rest s'
    | (.error e, s') => (.error e, s')

/-! ### The job as a whole -/

section Job

variable {step : σ → Option σ} {steps rest : List (σ → Option σ)} {s s' : σ}

theorem carryOut_append : carryOut (steps ++ rest) s = (carryOut steps s).bind (carryOut rest) := by
  induction steps generalizing s with
  | nil => rfl
  | cons step steps ih =>
    change (step s).bind (carryOut (steps ++ rest)) = ((step s).bind (carryOut steps)).bind _
    rw [Option.bind_assoc]
    exact Option.bind_congr fun _ _ => ih

theorem attemptAll_append {s : Faulty σ ε} :
    attemptAll refusal (steps ++ rest) s =
      match attemptAll refusal steps s with
      | (.ok (), s') => attemptAll refusal rest s'
      | (.error e, s') => (.error e, s') := by
  induction steps generalizing s with
  | nil => rfl
  | cons step steps ih =>
    rw [List.cons_append, attemptAll, attemptAll]
    match attempt refusal step s with
    | (.ok (), s') => exact ih
    | (.error e, s') => rfl

theorem attemptAll_cons_ok {s s' : Faulty σ ε} (h : attempt refusal step s = (.ok (), s')) :
    attemptAll refusal (step :: rest) s = attemptAll refusal rest s' := by
  rw [attemptAll, h]

theorem attemptAll_cons_error {s s' : Faulty σ ε} {e : ε}
    (h : attempt refusal step s = (.error e, s')) :
    attemptAll refusal (step :: rest) s = (.error e, s') := by
  rw [attemptAll, h]

theorem attemptAll_append_ok {s s' : Faulty σ ε}
    (h : attemptAll refusal steps s = (.ok (), s')) :
    attemptAll refusal (steps ++ rest) s = attemptAll refusal rest s' := by
  rw [attemptAll_append, h]

theorem attemptAll_append_error {s s' : Faulty σ ε} {e : ε}
    (h : attemptAll refusal steps s = (.error e, s')) :
    attemptAll refusal (steps ++ rest) s = (.error e, s') := by
  rw [attemptAll_append, h]

/-- **Without a fault**, a job returns exactly when none of its steps is refused. -/
theorem attemptAll_healthy :
    attemptAll refusal steps ⟨s, none⟩ = (.ok (), ⟨s', none⟩) ↔ carryOut steps s = some s' := by
  induction steps generalizing s with
  | nil =>
    constructor
    · intro h
      injection h with _ hstate
      injection hstate with hstate _
      exact congrArg some hstate
    · intro h
      rw [Option.some.inj h]
      rfl
  | cons step rest ih =>
    match hstep : step s with
    | some s₁ => simpa [attemptAll, attempt, carryOut, hstep] using ih
    | none => simp [attemptAll, attempt, carryOut, hstep]

/-- A job that no fault hits returns, or is refused. -/
theorem attemptAll_healthy_or :
    (∃ s', attemptAll refusal steps ⟨s, none⟩ = (.ok (), ⟨s', none⟩)) ∨
      ∃ s', attemptAll refusal steps ⟨s, none⟩ = (.error refusal, ⟨s', none⟩) := by
  induction steps generalizing s with
  | nil => exact .inl ⟨s, rfl⟩
  | cons step rest ih =>
    match hstep : step s with
    | some s₁ => simpa [attemptAll, attempt, hstep] using ih
    | none => exact .inr ⟨s, by simp [attemptAll, attempt, hstep]⟩

/-- **Where a fault leaves the state**: a number of the first steps were carried out, all those
before it and, where the fault says so, the one it hit, unless that one was refused. -/
theorem attemptAll_interrupted {f : Fault ε} {r : Except ε Unit}
    (h : attemptAll refusal steps ⟨s, some f⟩ = (r, ⟨s', none⟩)) :
    f.steps < steps.length ∧ ∃ m, f.steps ≤ m ∧ m ≤ f.reach ∧ carryOut (steps.take m) s = some s' ∧
      (m < f.reach → ∃ step rest, steps.drop m = step :: rest ∧ step s' = none) := by
  obtain ⟨n, carried, raised⟩ := f
  induction steps generalizing s n with
  | nil => exact absurd (congrArg (fun x => x.2.fault) h) (by simp [attemptAll])
  | cons step rest ih =>
    cases n with
    | zero =>
      refine ⟨Nat.succ_pos _, ?_⟩
      have hleft : (if carried then (step s).getD s else s) = s' :=
        congrArg (fun x => x.2.state) h
      cases carried with
      | false => exact ⟨0, Nat.le_refl _, Nat.le_refl _, congrArg some hleft, fun h => nomatch h⟩
      | true =>
        rw [if_pos rfl] at hleft
        match hstep : step s with
        | some s₁ =>
          rw [hstep] at hleft
          refine ⟨1, Nat.zero_le _, Nat.le_refl _, ?_, fun h => absurd h (Nat.lt_irrefl _)⟩
          change (step s).bind some = some s'
          rw [hstep]
          exact congrArg some hleft
        | none =>
          rw [hstep] at hleft
          obtain rfl : s = s' := hleft
          exact ⟨0, Nat.le_refl _, Nat.zero_le _, rfl, fun _ => ⟨step, rest, rfl, hstep⟩⟩
    | succ n =>
      match hstep : step s with
      | some s₁ =>
        -- this step went through, so the fault hits one of the rest
        have hrest : attemptAll refusal rest ⟨s₁, some ⟨n, carried, raised⟩⟩ = (r, ⟨s', none⟩) := by
          rw [← h]
          simp [attemptAll, attempt, hstep]
        obtain ⟨hlt, m, hle, hreach, hcarried, hrefused⟩ := ih n hrest
        have hsucc : Fault.reach ⟨n + 1, carried, raised⟩ =
            Fault.reach ⟨n, carried, raised⟩ + 1 := by
          unfold Fault.reach
          cases carried <;> rfl
        refine ⟨Nat.succ_lt_succ hlt, m + 1, Nat.succ_le_succ hle, ?_, ?_, fun hm => ?_⟩
        · rw [hsucc]
          exact Nat.succ_le_succ hreach
        · change (step s).bind (carryOut (rest.take m)) = some s'
          rw [hstep]
          exact hcarried
        · rw [hsucc] at hm
          exact hrefused (Nat.lt_of_succ_lt_succ hm)
      | none =>
        exact absurd (congrArg (fun x => x.2.fault) h) (by simp [attemptAll, attempt, hstep])

end Job

end Interrupted
