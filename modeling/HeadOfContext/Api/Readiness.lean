import HeadOfContext.Core.Effects
import HeadOfContext.Framework.Coalescer

/-!
# The readiness probe

`ReadinessProbe.run` coalesces: callers that come while a check is going on share it. A check asks
PostgreSQL for the version of the schema, reaches OpenFGA and asks the freshness guard, in this
order, whatever fails (`check_run`). `ready_coalesced` says what that gives over every order of
callers and answers: however often the probe is called, one check is in flight, and a caller that is
told "ready" shares a check whose last question was asked after it had come.
-/

namespace HeadOfContext

open Effects

/-! ### A check -/

/-- A call of a check. -/
inductive ReadyOp where
  /-- `postgres()`: the version of the schema. -/
  | postgres
  /-- `engine()`. -/
  | engine
  /-- `freshness()`. -/
  | freshness
  deriving DecidableEq

/-- The answer to each call. -/
abbrev ReadyOp.Res : ReadyOp → Type
  | postgres => Except Exn ℤ
  | engine => Except Exn Unit
  | freshness => Except Exn Unit

/-- The interface of a check. -/
abbrev ReadySig : Sig := ⟨ReadyOp, ReadyOp.Res⟩

/-- `Checks`, in the order of its keys. -/
abbrev Checks := List (String × String)

/-- `READY_STATES`. -/
def READY_STATES : List String := ["ok", "fresh"]

namespace ReadinessProbe

/-- What the check of PostgreSQL writes. -/
def postgresChecks (latest : ℤ) : Except Exn ℤ → Checks
  | .ok version =>
    [("postgres", "ok"),
      ("schema", if version = latest then "ok" else if version < latest then "behind" else "ahead")]
  | .error _ => [("postgres", "error"), ("schema", "unknown")]

/-- What the check of OpenFGA writes. -/
def engineChecks : Except Exn Unit → Checks
  | .ok _ => [("openfga", "ok")]
  | .error _ => [("openfga", "error")]

/-- Whether the exception is a `ConnectorStale`. -/
def isConnectorStale : Exn → Bool
  | .hoc exc => exc.cls == .connectorStale
  | .other _ => false

/-- What the check of the connectors writes. -/
def freshnessChecks : Except Exn Unit → Checks
  | .ok _ => [("connectors", "fresh")]
  | .error exc => [("connectors", if isConnectorStale exc then "stale" else "error")]

/-- What a check makes of its answers. -/
def verdict (latest : ℤ) (version : Except Exn ℤ) (engine freshness : Except Exn Unit) :
    Bool × Checks :=
  let checks := postgresChecks latest version ++ engineChecks engine ++ freshnessChecks freshness
  (checks.all fun check => READY_STATES.contains check.2, checks)

/-- `_check`. -/
def check (latest : ℤ) : Prog ReadySig (Bool × Checks) :=
  .call .postgres fun version => .call .engine fun engine => .call .freshness fun freshness =>
    .ret (verdict latest version engine freshness)

/-- `ready`: the status of the answer. -/
def status (answer : Bool × Checks) : ℕ := if answer.1 then 200 else 503

/-- The calls of a check. -/
def asked (version : Except Exn ℤ) (engine freshness : Except Exn Unit) : Trace ReadySig :=
  [⟨.postgres, version⟩, ⟨.engine, engine⟩, ⟨.freshness, freshness⟩]

variable {latest : ℤ}

/-- Every check asks all three, whatever they answer. -/
theorem check_run {tr : Trace ReadySig} {answer : Bool × Checks} :
    Prog.Run (check latest) tr answer ↔ ∃ version engine freshness,
      tr = asked version engine freshness ∧ answer = verdict latest version engine freshness := by
  constructor
  · intro h
    obtain ⟨version, tr₁, rfl, h₁⟩ := Prog.run_call.mp h
    obtain ⟨engine, tr₂, rfl, h₂⟩ := Prog.run_call.mp h₁
    obtain ⟨freshness, tr₃, rfl, h₃⟩ := Prog.run_call.mp h₂
    obtain ⟨rfl, rfl⟩ := Prog.run_ret.mp h₃
    exact ⟨version, engine, freshness, rfl, rfl⟩
  · rintro ⟨version, engine, freshness, rfl, rfl⟩
    exact .cons (.cons (.cons (.nil _)))

/-- A check finds the service ready where all three have answered as they should. -/
theorem verdict_ready {version : Except Exn ℤ} {engine freshness : Except Exn Unit} :
    (verdict latest version engine freshness).1 = true ↔
      version = .ok latest ∧ engine = .ok () ∧ freshness = .ok () := by
  -- each part is ready for one answer only
  have hversion : (postgresChecks latest version).all (fun check => READY_STATES.contains check.2) =
      true ↔ version = .ok latest := by
    cases version with
    | error exc => simp [postgresChecks, READY_STATES]
    | ok v =>
      rw [Except.ok.injEq]
      by_cases hsame : v = latest
      · simp [postgresChecks, READY_STATES, hsame]
      · by_cases hbehind : v < latest
        · simp [postgresChecks, READY_STATES, hsame, hbehind]
        · simp [postgresChecks, READY_STATES, hsame, hbehind]
  have hengine : (engineChecks engine).all (fun check => READY_STATES.contains check.2) = true ↔
      engine = .ok () := by
    cases engine <;> simp [engineChecks, READY_STATES]
  have hfreshness : (freshnessChecks freshness).all (fun check => READY_STATES.contains check.2) =
      true ↔ freshness = .ok () := by
    cases freshness with
    | ok u => simp [freshnessChecks, READY_STATES]
    | error exc => cases h : isConnectorStale exc <;> simp [freshnessChecks, READY_STATES, h]
  change (postgresChecks latest version ++ engineChecks engine ++ freshnessChecks freshness).all
    (fun check => READY_STATES.contains check.2) = true ↔ _
  rw [List.all_append, List.all_append, Bool.and_eq_true, Bool.and_eq_true, hversion, hengine,
    hfreshness, and_assoc]

theorem not_done_nil : ¬ (check latest).Done [] := Prog.Path.not_done (.nil _)

/-- **The probe.** Whatever the order of callers and answers, and whoever leaves: one check is in
flight at most, and no check is started without a caller. A caller is answered what its check has
found, "ready" where the schema is the latest, OpenFGA was reached and the connectors are fresh; and
the connectors were asked about after it had come. Callers that share a check are told the same. -/
theorem ready_coalesced {s : Coalesced ReadySig (Bool × Checks)}
    (h : Coalesced.Reach (check latest) s) :
    (∀ (k k' : ℕ) tr tr', s.tasks[k]? = some tr → ¬ (check latest).Done tr →
      s.tasks[k']? = some tr' → ¬ (check latest).Done tr' → k = k') ∧
    s.tasks.length ≤ s.callers.length ∧
    (∀ c ∈ s.callers, ∀ answer, c.state = .answered answer → ∃ version engine freshness,
      s.tasks[c.task]? = some (asked version engine freshness) ∧
      answer = verdict latest version engine freshness ∧
      (status answer = 200 ↔ version = .ok latest ∧ engine = .ok () ∧ freshness = .ok ()) ∧
      c.found <+: [⟨.postgres, version⟩, ⟨.engine, engine⟩]) ∧
    ∀ c ∈ s.callers, ∀ c' ∈ s.callers, c.task = c'.task → ∀ answer answer',
      c.state = .answered answer → c'.state = .answered answer' → answer = answer' := by
  have hok := h.ok not_done_nil
  refine ⟨fun k k' tr tr' htask hdone htask' hdone' =>
    hok.unfinished_unique htask hdone htask' hdone', hok.few, fun c hc answer hanswer => ?_,
    fun c hc c' hc' htask answer answer' hanswer hanswer' =>
      hok.same_answer hc hc' htask hanswer hanswer'⟩
  -- the answer is that of a check that has asked all three
  obtain ⟨tr, e, more, htask, hrun, hfound⟩ := hok.answered hc hanswer
  obtain ⟨version, engine, freshness, rfl, rfl⟩ := check_run.mp hrun
  refine ⟨version, engine, freshness, htask, rfl, ?_, ?_⟩
  · rw [← verdict_ready]
    unfold status
    by_cases hready : (verdict latest version engine freshness).1 = true
    · rw [if_pos hready]
      exact iff_of_true rfl hready
    · rw [if_neg hready]
      exact iff_of_false (by decide) hready
  · -- what was found leaves out the last question at least
    have hprefix : c.found <+: asked version engine freshness := ⟨e :: more, hfound.symm⟩
    have hlength : c.found.length ≤ 2 := by
      have htotal := congrArg List.length hfound
      rw [List.length_append, List.length_cons] at htotal
      change 3 = _ at htotal
      omega
    have htwo : ([⟨.postgres, version⟩, ⟨.engine, engine⟩] : Trace ReadySig) <+:
        asked version engine freshness := ⟨[⟨.freshness, freshness⟩], rfl⟩
    exact List.prefix_of_prefix_length_le hprefix htwo hlength

/-- Two callers share a check, the second comes while it is going on. -/
theorem ready_coalesced_shared :
    ∃ s : Coalesced ReadySig (Bool × Checks), s.tasks.length = 1 ∧
      s.callers.map Caller.task = [0, 0] ∧ s.tasks.length ≤ s.callers.length := by
  have hstart := Coalesced.Reach.start (p := check 3)
  have hcame := hstart.step (.start fun k tr hk => by cases hk)
  have hasked := hcame.step
    (.work (S := ReadySig) (k := 0) (o := .postgres) (Except.ok 3) rfl (.nil _))
  have hjoined := hasked.step (.join rfl rfl (Prog.Path.not_done (.cons (.nil _))))
  exact ⟨_, rfl, rfl, (ready_coalesced hjoined).2.1⟩

end ReadinessProbe

end HeadOfContext
