import HeadOfContext.Framework.Prog

/-!
# One computation in flight

A coalescer computes one thing for many callers. A caller that comes while the computation is
going on shares its answer; any other starts it anew. The computation runs as a task of its own, so
a caller that leaves does not end it.

A state records what each task has done, and for each caller what the task it shares had done when
the caller came. `Coalesced.Ok` is the invariant: every task but the newest is done, and a caller
never shares a task that was done when it came. So one computation is in flight at most
(`Ok.unfinished_unique`), and an answer is never older than the call (`Ok.answered`).
-/

namespace Effects

open Prog

variable {S : Sig} {α : Type}

/-- A computation that has done this has ended. -/
def Prog.Done (p : Prog S α) (tr : Trace S) : Prop := ∃ a, Run p tr a

/-- A computation that can still issue a call has not ended. -/
theorem Prog.Path.not_done {p : Prog S α} {tr : Trace S} {o : S.Op} {k : S.Res o → Prog S α}
    (h : Path p tr (.call o k)) : ¬ p.Done tr := by
  rintro ⟨a, ha⟩
  cases Path.unique h ha

/-- What a caller is doing. -/
inductive Waiting (α : Type) where
  | waiting
  | answered (a : α)
  | gone

/-- A caller: the task it shares, and what that had done when the caller came. -/
structure Caller (S : Sig) (α : Type) where
  task : ℕ
  found : Trace S
  state : Waiting α

/-- A coalescer: what each task has done, the one that a new caller finds, and the callers. -/
structure Coalesced (S : Sig) (α : Type) where
  tasks : List (Trace S)
  inflight : Option ℕ
  callers : List (Caller S α)

namespace Coalesced

/-- Before the first caller. -/
def start : Coalesced S α := ⟨[], none, []⟩

/-- What happens: a caller comes, a task goes on, a caller is answered, a caller leaves. -/
inductive Step (p : Prog S α) : Coalesced S α → Coalesced S α → Prop
  | start {s : Coalesced S α}
      (h : ∀ k tr, s.inflight = some k → s.tasks[k]? = some tr → p.Done tr) :
      Step p s ⟨s.tasks ++ [[]], some s.tasks.length,
        s.callers ++ [⟨s.tasks.length, [], .waiting⟩]⟩
  | join {s : Coalesced S α} {k : ℕ} {tr : Trace S} (hk : s.inflight = some k)
      (htask : s.tasks[k]? = some tr) (hdone : ¬ p.Done tr) :
      Step p s { s with callers := s.callers ++ [⟨k, tr, .waiting⟩] }
  | work {s : Coalesced S α} {k : ℕ} {tr : Trace S} {o : S.Op} {next : S.Res o → Prog S α}
      (r : S.Res o) (htask : s.tasks[k]? = some tr) (hpath : Path p tr (.call o next)) :
      Step p s { s with tasks := s.tasks.set k (tr ++ [⟨o, r⟩]) }
  | answer {s : Coalesced S α} {j : ℕ} {c : Caller S α} {tr : Trace S} {a : α}
      (hj : s.callers[j]? = some c) (hwaiting : c.state = .waiting)
      (htask : s.tasks[c.task]? = some tr) (hrun : Run p tr a) :
      Step p s { s with callers := s.callers.set j { c with state := .answered a } }
  | leave {s : Coalesced S α} {j : ℕ} {c : Caller S α} (hj : s.callers[j]? = some c)
      (hwaiting : c.state = .waiting) :
      Step p s { s with callers := s.callers.set j { c with state := .gone } }

/-- The states that are reached. -/
inductive Reach (p : Prog S α) : Coalesced S α → Prop
  | start : Reach p start
  | step {s s' : Coalesced S α} (h : Reach p s) (hs : Step p s s') : Reach p s'

variable {p : Prog S α} {s s' : Coalesced S α}

/-- What holds of a caller: its task was going on when it came, and its answer is the task's. -/
structure CallerOk (p : Prog S α) (tasks : List (Trace S)) (c : Caller S α) : Prop where
  task : ∃ tr, tasks[c.task]? = some tr ∧ c.found <+: tr ∧
    ∀ a, c.state = .answered a → Run p tr a
  found : ¬ p.Done c.found

/-- **The invariant.** -/
structure Ok (p : Prog S α) (s : Coalesced S α) : Prop where
  newest : ∀ k, s.inflight = some k → k + 1 = s.tasks.length
  none : s.inflight = none → s.tasks = []
  earlier : ∀ (k : ℕ) tr, s.tasks[k]? = some tr → k + 1 < s.tasks.length → p.Done tr
  path : ∀ tr ∈ s.tasks, ∃ q, Path p tr q
  callers : ∀ c ∈ s.callers, CallerOk p s.tasks c
  few : s.tasks.length ≤ s.callers.length

/-- A caller keeps its task and what it found as the tasks go on. -/
theorem CallerOk.later {tasks tasks' : List (Trace S)} {c : Caller S α}
    (h : CallerOk p tasks c)
    (hlater : ∀ (k : ℕ) tr, tasks[k]? = some tr → ∃ tr', tasks'[k]? = some tr' ∧ tr <+: tr' ∧
      ∀ a, Run p tr a → Run p tr' a) : CallerOk p tasks' c := by
  obtain ⟨tr, htask, hfound, hanswer⟩ := h.task
  obtain ⟨tr', htask', hprefix, hrun⟩ := hlater c.task tr htask
  exact ⟨⟨tr', htask', hfound.trans hprefix, fun a ha => hrun a (hanswer a ha)⟩, h.found⟩

/-- **One step** keeps the invariant, for a computation that issues a call. -/
theorem Ok.step (hp : ¬ p.Done []) (h : Ok p s) (hs : Step p s s') : Ok p s' := by
  cases hs with
  | start hdone =>
    -- the task before the new one is done
    have hall : ∀ (k : ℕ) tr, s.tasks[k]? = some tr → p.Done tr := by
      intro k tr htask
      have hlt := (List.getElem?_eq_some_iff.mp htask).1
      cases hinflight : s.inflight with
      | none => rw [h.none hinflight] at hlt; cases hlt
      | some n =>
        have hn := h.newest n hinflight
        rcases Nat.lt_or_ge (k + 1) s.tasks.length with hk | hk
        · exact h.earlier k tr htask hk
        · obtain rfl : k = n := by omega
          exact hdone k tr hinflight htask
    -- a new task comes last, so those who wait for another one see it as it was
    have hlater : ∀ (k : ℕ) tr, s.tasks[k]? = some tr → ∃ tr', (s.tasks ++ [[]])[k]? = some tr' ∧
        tr <+: tr' ∧ ∀ a, Run p tr a → Run p tr' a := fun k tr htask =>
      ⟨tr, (List.getElem?_append_left (List.getElem?_eq_some_iff.mp htask).1).trans htask,
        List.prefix_refl _, fun _ ha => ha⟩
    refine ⟨fun k hk => ?_, fun hnone => ?_, fun k tr htask hk => ?_, fun tr htr => ?_,
      fun c hc => ?_, ?_⟩
    · rw [← Option.some.inj hk, List.length_append, List.length_singleton]
    · cases hnone
    · rw [List.length_append, List.length_singleton] at hk
      rw [List.getElem?_append_left (by omega)] at htask
      exact hall k tr htask
    · rcases List.mem_append.mp htr with hold | hnew
      · exact h.path tr hold
      · rw [List.mem_singleton.mp hnew]
        exact ⟨p, .nil p⟩
    · rcases List.mem_append.mp hc with hold | hnew
      · exact (h.callers c hold).later hlater
      · rw [List.mem_singleton.mp hnew]
        refine ⟨⟨[], List.getElem?_concat_length, List.prefix_refl _, fun a ha => ?_⟩, hp⟩
        cases ha
    · simpa using h.few
  -- a caller that joins has found what the task has done so far
  | @join k tr hk htask hdone =>
    refine ⟨h.newest, h.none, h.earlier, h.path, fun c hc => ?_, ?_⟩
    · rcases List.mem_append.mp hc with hold | hnew
      · exact h.callers c hold
      · rw [List.mem_singleton.mp hnew]
        refine ⟨⟨tr, htask, List.prefix_refl _, fun a ha => ?_⟩, hdone⟩
        cases ha
    · rw [List.length_append]
      exact Nat.le_trans h.few (Nat.le_add_right _ _)
  | @work k tr o next r htask hpath =>
    -- one task goes on, which was not done, so no caller had its answer
    have hk := (List.getElem?_eq_some_iff.mp htask).1
    have hlater : ∀ (k' : ℕ) tr', s.tasks[k']? = some tr' →
        ∃ tr'', (s.tasks.set k (tr ++ [⟨o, r⟩]))[k']? = some tr'' ∧ tr' <+: tr'' ∧
          ∀ a, Run p tr' a → Run p tr'' a := by
      intro k' tr' htask'
      by_cases hkk : k = k'
      · subst hkk
        obtain rfl := Option.some.inj (htask.symm.trans htask')
        refine ⟨_, List.getElem?_set_self hk, List.prefix_append _ _, fun a ha => ?_⟩
        exact absurd ⟨a, ha⟩ hpath.not_done
      · exact ⟨tr', (List.getElem?_set_ne hkk).trans htask', List.prefix_refl _, fun _ ha => ha⟩
    refine ⟨fun k' hk' => ?_, fun hnone => ?_, fun k' tr' htask' hk' => ?_, fun tr' htr' => ?_,
      fun c hc => (h.callers c hc).later hlater, ?_⟩
    · rw [List.length_set]
      exact h.newest k' hk'
    · rw [h.none hnone] at hk
      cases hk
    · rw [List.length_set] at hk'
      by_cases hkk : k = k'
      · subst hkk
        exact absurd (h.earlier k tr htask hk') hpath.not_done
      · rw [List.getElem?_set_ne hkk] at htask'
        exact h.earlier k' tr' htask' hk'
    · rcases List.mem_or_eq_of_mem_set htr' with hold | rfl
      · exact h.path tr' hold
      · exact ⟨next r, hpath.snoc r⟩
    · rw [List.length_set]
      exact h.few
  -- the answer is that of the task, which is done
  | @answer j c tr a hj _ htask hrun =>
    refine ⟨h.newest, h.none, h.earlier, h.path, fun c' hc' => ?_, ?_⟩
    · rcases List.mem_or_eq_of_mem_set hc' with hold | rfl
      · exact h.callers c' hold
      · have hc := h.callers c (List.mem_of_getElem? hj)
        obtain ⟨tr', htask', hfound, -⟩ := hc.task
        obtain rfl := Option.some.inj (htask.symm.trans htask')
        refine ⟨⟨tr, htask, hfound, fun b hb => ?_⟩, hc.found⟩
        exact Waiting.answered.inj hb ▸ hrun
    · rw [List.length_set]
      exact h.few
  -- a caller that leaves takes no task with it
  | @leave j c hj _ =>
    refine ⟨h.newest, h.none, h.earlier, h.path, fun c' hc' => ?_, ?_⟩
    · rcases List.mem_or_eq_of_mem_set hc' with hold | rfl
      · exact h.callers c' hold
      · have hc := h.callers c (List.mem_of_getElem? hj)
        obtain ⟨tr', htask', hfound, -⟩ := hc.task
        refine ⟨⟨tr', htask', hfound, fun b hb => ?_⟩, hc.found⟩
        cases hb
    · rw [List.length_set]
      exact h.few

/-- **Every state that is reached** satisfies the invariant. -/
theorem Reach.ok (hp : ¬ p.Done []) (h : Reach p s) : Ok p s := by
  induction h with
  | start =>
    refine ⟨fun k hk => ?_, fun _ => rfl, fun k tr htask => ?_, fun tr htr => ?_, fun c hc => ?_,
      Nat.le_refl _⟩
    · cases hk
    · cases htask
    · cases htr
    · cases hc
  | step _ hs ih => exact ih.step hp hs

/-- One computation is in flight at most. -/
theorem Ok.unfinished_unique (h : Ok p s) {k k' : ℕ} {tr tr' : Trace S}
    (htask : s.tasks[k]? = some tr) (hdone : ¬ p.Done tr) (htask' : s.tasks[k']? = some tr')
    (hdone' : ¬ p.Done tr') : k = k' := by
  have hlt := (List.getElem?_eq_some_iff.mp htask).1
  have hlt' := (List.getElem?_eq_some_iff.mp htask').1
  have hk : ¬ k + 1 < s.tasks.length := fun hk => hdone (h.earlier k tr htask hk)
  have hk' : ¬ k' + 1 < s.tasks.length := fun hk' => hdone' (h.earlier k' tr' htask' hk')
  omega

/-- **An answer is not older than the call**: it is that of a computation that went on after the
caller had come. -/
theorem Ok.answered (h : Ok p s) {c : Caller S α} (hc : c ∈ s.callers) {a : α}
    (ha : c.state = .answered a) :
    ∃ tr e more, s.tasks[c.task]? = some tr ∧ Run p tr a ∧ tr = c.found ++ e :: more := by
  obtain ⟨tr, htask, ⟨more, hmore⟩, hanswer⟩ := (h.callers c hc).task
  have hrun := hanswer a ha
  -- when the caller came the task was not done, so something was left to do
  cases more with
  | nil =>
    rw [List.append_nil] at hmore
    exact absurd ⟨a, hmore ▸ hrun⟩ (h.callers c hc).found
  | cons e more => exact ⟨tr, e, more, htask, hrun, hmore.symm⟩

/-- Callers that share a task get one answer. -/
theorem Ok.same_answer (h : Ok p s) {c c' : Caller S α} (hc : c ∈ s.callers) (hc' : c' ∈ s.callers)
    (htask : c.task = c'.task) {a a' : α} (ha : c.state = .answered a)
    (ha' : c'.state = .answered a') : a = a' := by
  obtain ⟨tr, -, -, htr, hrun, -⟩ := h.answered hc ha
  obtain ⟨tr', -, -, htr', hrun', -⟩ := h.answered hc' ha'
  rw [htask] at htr
  obtain rfl := Option.some.inj (htr.symm.trans htr')
  exact hrun.unique hrun'

end Coalesced

end Effects
