import Mathlib.Data.List.Forall2
import Mathlib.Data.List.Induction
import Mathlib.Tactic.Common

/-!
# Machines that answer calls

A `Machine` answers each call from its state, in one step. `Machine.Simulation` relates two
machines that are given the same calls: as long as each call is allowed by the history before
it, both answer the same, up to `Same`, and their states stay related (`Simulation.run`).
-/

structure Machine (C O : Type) where
  State : Type
  init : State
  step : State → C → State × O

namespace Machine

variable {C O : Type}

/-- The state after the calls, and the calls with their answers. -/
def run (M : Machine C O) (calls : List C) : M.State × List (C × O) :=
  calls.foldl (fun p c => ((M.step p.1 c).1, p.2 ++ [(c, (M.step p.1 c).2)])) (M.init, [])

/-- The state after the calls. -/
def after (M : Machine C O) (calls : List C) : M.State := (M.run calls).1

/-- The calls with their answers. -/
def history (M : Machine C O) (calls : List C) : List (C × O) := (M.run calls).2

/-- The answers alone. -/
def answers (M : Machine C O) (calls : List C) : List O := (M.history calls).map Prod.snd

variable {M N : Machine C O} {calls : List C} {c : C}

theorem after_concat : M.after (calls ++ [c]) = (M.step (M.after calls) c).1 := by
  unfold after run
  rw [List.foldl_append]
  rfl

theorem history_concat :
    M.history (calls ++ [c]) = M.history calls ++ [(c, (M.step (M.after calls) c).2)] := by
  unfold history after run
  rw [List.foldl_append]
  rfl

theorem answers_concat :
    M.answers (calls ++ [c]) = M.answers calls ++ [(M.step (M.after calls) c).2] := by
  unfold answers
  rw [history_concat, List.map_append]
  rfl

/-- Each call is allowed by what was called and answered before it. -/
def Disciplined (M : Machine C O) (Allowed : List (C × O) → C → Prop) (calls : List C) : Prop :=
  ∀ past c later, calls = past ++ c :: later → Allowed (M.history past) c

theorem Disciplined.of_concat {Allowed : List (C × O) → C → Prop}
    (h : M.Disciplined Allowed (calls ++ [c])) :
    M.Disciplined Allowed calls ∧ Allowed (M.history calls) c := by
  constructor
  · intro past c' later hcalls
    refine h past c' (later ++ [c]) ?_
    rw [hcalls, List.append_assoc, List.cons_append]
  · exact h calls c [] rfl

theorem disciplined_nil {Allowed : List (C × O) → C → Prop} : M.Disciplined Allowed [] :=
  fun _ _ _ h => absurd h.symm (List.append_ne_nil_of_right_ne_nil _ (List.cons_ne_nil _ _))

theorem Disciplined.concat {Allowed : List (C × O) → C → Prop} (h : M.Disciplined Allowed calls)
    (hc : Allowed (M.history calls) c) : M.Disciplined Allowed (calls ++ [c]) := by
  intro past c' later hcalls
  induction later using List.reverseRecOn with
  | nil =>
    obtain ⟨rfl, hlast⟩ := List.append_inj' hcalls rfl
    obtain rfl := List.singleton_injective hlast
    exact hc
  | append_singleton later x _ =>
    rw [← List.cons_append, ← List.append_assoc] at hcalls
    exact h past c' later (List.append_inj' hcalls rfl).1

/-- What relates the states of two machines, from one allowed call to the next. -/
structure Simulation (M N : Machine C O) (Allowed : List (C × O) → C → Prop)
    (Same : O → O → Prop) where
  Rel : List (C × O) → M.State → N.State → Prop
  init : Rel [] M.init N.init
  step : ∀ {h s t c}, Rel h s t → Allowed h c →
    Same (M.step s c).2 (N.step t c).2 ∧
      Rel (h ++ [(c, (M.step s c).2)]) (M.step s c).1 (N.step t c).1

/-- **Two related machines answer the same**, however they are called. -/
theorem Simulation.run {Allowed : List (C × O) → C → Prop} {Same : O → O → Prop}
    (sim : Simulation M N Allowed Same) (h : M.Disciplined Allowed calls) :
    List.Forall₂ Same (M.answers calls) (N.answers calls) ∧
      sim.Rel (M.history calls) (M.after calls) (N.after calls) := by
  induction calls using List.reverseRecOn with
  | nil => exact ⟨.nil, sim.init⟩
  | append_singleton calls c ih =>
    obtain ⟨hbefore, hallowed⟩ := h.of_concat
    obtain ⟨hsame, hrel⟩ := ih hbefore
    obtain ⟨hanswer, hnext⟩ := sim.step hrel hallowed
    rw [answers_concat, answers_concat, history_concat, after_concat, after_concat]
    exact ⟨List.rel_append hsame (.cons hanswer .nil), hnext⟩

end Machine
