import HeadOfContext.Framework.Machine

/-!
# A store behind a connection

A store that is reached over a connection carries out a call or not, and its answer arrives or
not (`Line`): where the answer alone is lost, the caller sees a failure and the store has
changed. `Machine.behind` puts a machine that never fails behind such a connection.

`Machine.Reaches` compares it with a machine that has the connection built in. What has to
be shown of each call is that the two agree while the connection is up, that a refused call
changes nothing, and that a call with a lost answer changes what an answered one changes
(`Reaches.run`).
-/

/-- What becomes of the connection in the course of a call. -/
inductive Line where
  | up
  /-- No connection is made, or it is lost before the call is carried out. -/
  | refused
  /-- The call is carried out, and the connection is lost before the answer. -/
  | lost
  deriving DecidableEq

namespace Machine

variable {C O : Type}

/-- A store behind a connection: `failed c` is the answer to a call that fails. -/
def behind (M : Machine C O) (failed : C → O) : Machine (Line × C) O where
  State := M.State
  init := M.init
  step s
    | (.up, c) => M.step s c
    | (.refused, c) => (s, failed c)
    | (.lost, c) => ((M.step s c).1, failed c)

/-- How a machine over a connection compares with a machine that never fails, on calls that are
allowed in the state of the latter. -/
structure Reaches (M : Machine C O) (N : Machine (Line × C) O) (failed : C → O)
    (Allowed : M.State → C → Prop) (Same : O → O → Prop) where
  Rel : M.State → N.State → Prop
  init : Rel M.init N.init
  up : ∀ {s t c}, Rel s t → Allowed s c → Same (M.step s c).2 (N.step t (.up, c)).2 ∧
    Rel (M.step s c).1 (N.step t (.up, c)).1
  refused : ∀ {t} c, Same (failed c) (N.step t (.refused, c)).2 ∧ (N.step t (.refused, c)).1 = t
  lost : ∀ {t} c, Same (failed c) (N.step t (.lost, c)).2 ∧
    (N.step t (.lost, c)).1 = (N.step t (.up, c)).1

variable {M : Machine C O} {N : Machine (Line × C) O} {failed : C → O}
  {Allowed : M.State → C → Prop} {Same : O → O → Prop}

/-- **One call**, whatever becomes of the connection. -/
theorem Reaches.step (r : Reaches M N failed Allowed Same) {s : M.State} {t : N.State}
    {line : Line} {c : C} (hrel : r.Rel s t) (hc : Allowed s c) :
    Same ((M.behind failed).step s (line, c)).2 (N.step t (line, c)).2 ∧
      r.Rel ((M.behind failed).step s (line, c)).1 (N.step t (line, c)).1 := by
  obtain ⟨hsame, hnext⟩ := r.up hrel hc
  cases line with
  | up => exact ⟨hsame, hnext⟩
  | refused =>
    obtain ⟨hfail, hstay⟩ := r.refused (t := t) c
    refine ⟨hfail, ?_⟩
    show r.Rel s (N.step t (.refused, c)).1
    rw [hstay]
    exact hrel
  | lost =>
    obtain ⟨hfail, hchange⟩ := r.lost (t := t) c
    refine ⟨hfail, ?_⟩
    show r.Rel (M.step s c).1 (N.step t (.lost, c)).1
    rw [hchange]
    exact hnext

/-- **The two answer the same over every history of calls and connections.** -/
theorem Reaches.run (r : Reaches M N failed Allowed Same) {calls : List (Line × C)}
    (h : ∀ past line c later, calls = past ++ (line, c) :: later →
      Allowed ((M.behind failed).after past) c) :
    List.Forall₂ Same ((M.behind failed).answers calls) (N.answers calls) ∧
      r.Rel ((M.behind failed).after calls) (N.after calls) := by
  induction calls using List.reverseRecOn with
  | nil => exact ⟨.nil, r.init⟩
  | append_singleton calls c ih =>
    obtain ⟨line, c⟩ := c
    have hbefore : ∀ past line' c' later, calls = past ++ (line', c') :: later →
        Allowed ((M.behind failed).after past) c' := by
      rintro past line' c' later rfl
      refine h past line' c' (later ++ [(line, c)]) ?_
      rw [List.append_assoc, List.cons_append]
    obtain ⟨hsame, hrel⟩ := ih hbefore
    obtain ⟨hanswer, hnext⟩ := r.step hrel (h calls line c [] rfl)
    rw [answers_concat, answers_concat, after_concat, after_concat]
    exact ⟨List.rel_append hsame (.cons hanswer .nil), hnext⟩

/-- Calls that are allowed in any state. -/
theorem Reaches.run_of_forall {Storable : C → Prop}
    (r : Reaches M N failed (fun _ c => Storable c) Same) {calls : List (Line × C)}
    (h : ∀ c ∈ calls, Storable c.2) :
    List.Forall₂ Same ((M.behind failed).answers calls) (N.answers calls) ∧
      r.Rel ((M.behind failed).after calls) (N.after calls) := by
  refine r.run fun past line c later hcalls => h (line, c) ?_
  rw [hcalls]
  exact List.mem_append_right _ List.mem_cons_self

end Machine
