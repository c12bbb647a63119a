import HeadOfContext.Core.Batched
import HeadOfContext.Core.DeciderSafety
import HeadOfContext.Engines.OpenFga

/-!
# The decider over OpenFGA

The engine of a deployed decider is the OpenFGA adapter, so a decision is a program over the
client, the freshness guard and the other collaborators of the core (`OpenFgaEngine.serving`).
What is said here is said of whole runs of it, whatever the client and the others answer, and
however often they fail.

* A question reaches OpenFGA only about a human and only while the connectors are fresh, with
  nothing but failures in between (`questions_guarded`). This holds of every program of the core.
* An ALLOW takes an answer of OpenFGA itself to that question (`allow_vouched`).
* Where the connectors are stale, no question is asked and nothing is allowed, and the decision
  carries the reason of the guard (`stale_denies`).
-/

namespace HeadOfContext

open Effects

/-! ### One program -/

/-- A call of a deployed decider: one of the core, or one of the adapter. -/
inductive DeployedOp where
  | core (o : CoreOp)
  | engine (o : EngineOp)

/-- The answer to each call. -/
abbrev DeployedOp.Res : DeployedOp → Type
  | core o => o.Res
  | engine o => o.Res

/-- The interface of a deployed decider. -/
abbrev DeployedSig : Sig := ⟨DeployedOp, DeployedOp.Res⟩

/-- The calls of the adapter. -/
def adapterCalls : Prog.Embeds EngineSig DeployedSig := ⟨.engine, fun _ r => r⟩

namespace OpenFgaEngine

/-- The adapter answers the engine calls of the core; the others go where they went. -/
def serving (E : OpenFgaEngine) : Handler CoreSig DeployedSig
  | .check subject relation obj => (E.check subject relation obj).run.embed adapterCalls
  | .batchCheck subject items => (E.batchCheck subject items).run.embed adapterCalls
  | .now => .invoke (S := DeployedSig) (.core .now)
  | .uuid4 => .invoke (S := DeployedSig) (.core .uuid4)
  | .elapsedMs => .invoke (S := DeployedSig) (.core .elapsedMs)
  | .policy chain action resource args context =>
    .invoke (S := DeployedSig) (.core (.policy chain action resource args context))
  | .record event => .invoke (S := DeployedSig) (.core (.record event))

/-- A program of the core over the adapter. -/
def deploy {α : Type} (E : OpenFgaEngine) (p : Core α) : Raises DeployedSig Exn α :=
  p.handle E.serving

end OpenFgaEngine

/-! ### When OpenFGA is asked -/

/-- An event of the adapter, in a run of a deployed program. -/
def ofEngine (e : Event EngineSig) : Event DeployedSig := ⟨.engine e.op, e.res⟩

/-- `Standing`, of the events of a deployed program. -/
def StandingIn (e : Event DeployedSig) : Prop := ∃ e₀, e = ofEngine e₀ ∧ Standing e₀

/-- `Backed`, of a run of a deployed program: the last thing that happened, but for failures, is
that the connectors were found fresh. -/
def BackedIn (h : Trace DeployedSig) : Prop :=
  ∃ earlier since, h = earlier ++ ofEngine ⟨.assertFresh, .ok ()⟩ :: since ∧
    ∀ e ∈ since, StandingIn e

/-- `Guarded`, of the calls of a deployed program. -/
def GuardedIn (h : Trace DeployedSig) : DeployedOp → Prop
  | .engine o => ∀ subject, o.AsksAbout subject → isRef subject "user" = true ∧ BackedIn h
  | .core _ => True

theorem Backed.deployed {h : Trace EngineSig} (hb : Backed h) (hist : Trace DeployedSig) :
    BackedIn (hist ++ h.map ofEngine) := by
  obtain ⟨earlier, since, rfl, hsince⟩ := hb
  refine ⟨hist ++ earlier.map ofEngine, since.map ofEngine, ?_, fun e he => ?_⟩
  · rw [List.map_append, List.map_cons, List.append_assoc]
  · obtain ⟨e₀, he₀, rfl⟩ := List.mem_map.mp he
    exact ⟨e₀, rfl, hsince e₀ he₀⟩

/-- What the adapter keeps on its own, it keeps in a deployed program, whatever went before. -/
theorem spec_embed {α : Type} {p : Prog EngineSig α} {h : Trace EngineSig}
    (hp : Prog.Spec Guarded (fun _ _ => True) p h) (hist : Trace DeployedSig) :
    Prog.Spec GuardedIn (fun _ _ => True) (p.embed adapterCalls) (hist ++ h.map ofEngine) := by
  induction p generalizing h with
  | ret a => trivial
  | call o k ih =>
    refine ⟨fun s hs => ⟨(hp.1 s hs).1, (hp.1 s hs).2.deployed hist⟩, fun r => ?_⟩
    have hrest := ih r (hp.2 r)
    rw [List.map_append, ← List.append_assoc] at hrest
    exact hrest

namespace OpenFgaEngine

variable {E : OpenFgaEngine}

theorem spec_serving (o : CoreOp) (hist : Trace DeployedSig) :
    Prog.Spec GuardedIn (fun _ _ => True) (E.serving o) hist := by
  have hnone := List.append_nil hist
  cases o with
  | check subject relation obj => exact hnone ▸ spec_embed (h := []) spec_check hist
  | batchCheck subject items => exact hnone ▸ spec_embed (h := []) spec_batchCheck hist
  | now => exact ⟨trivial, fun _ => trivial⟩
  | uuid4 => exact ⟨trivial, fun _ => trivial⟩
  | elapsedMs => exact ⟨trivial, fun _ => trivial⟩
  | policy chain action resource args context => exact ⟨trivial, fun _ => trivial⟩
  | record event => exact ⟨trivial, fun _ => trivial⟩

/-- **Whatever a program of the core does**, it asks OpenFGA about a human only, and only while the
guard stands. -/
theorem questions_guarded {α : Type} {p : Core α} {tr : Trace DeployedSig} {o : EngineOp}
    {k : o.Res → Prog DeployedSig (Except Exn α)} {subject : String}
    (hpath : Prog.Path (E.deploy p).run tr (.call (.engine o) k))
    (hasks : o.AsksAbout subject) : isRef subject "user" = true ∧ BackedIn tr :=
  (Prog.spec_handle spec_serving []).about hpath subject hasks

end OpenFgaEngine

/-! ### What an ALLOW rests on -/

/-- In the run, OpenFGA has answered that the human is related to the object, when the connectors
were fresh. -/
def Vouched (tr : Trace DeployedSig) (subject relation obj : String) : Prop :=
  ∃ pre e post, tr = pre ++ ofEngine e :: post ∧ Vouches subject relation obj e ∧
    isRef subject "user" = true ∧ BackedIn pre

/-- An answer of OpenFGA about a subject answers a question about it. -/
theorem Vouches.asksAbout {subject relation obj : String} {e : Event EngineSig}
    (h : Vouches subject relation obj e) : e.op.AsksAbout subject := by
  obtain ⟨o, r⟩ := e
  cases o with
  | check user relation' obj' => exact h.1
  | batchCheck checks =>
    obtain ⟨i, singles, hi, -⟩ := h
    exact ⟨_, List.mem_of_getElem? hi, rfl⟩
  | assertFresh => exact absurd h id
  | listObjects => exact absurd h id
  | writeTuples => exact absurd h id
  | deleteTuples => exact absurd h id
  | read => exact absurd h id
  | sleep => exact absurd h id

/-- A run of the adapter in a deployed program. -/
theorem run_adapter {α : Type} {p : Prog EngineSig α} {tr : Trace DeployedSig} {a : α} :
    Prog.Run (p.embed adapterCalls) tr a ↔ ∃ tr₀, tr = tr₀.map ofEngine ∧ Prog.Run p tr₀ a :=
  Prog.run_embed_iff (m := adapterCalls) (fun _ => rfl) fun e => ⟨⟨e.op, e.res⟩, rfl⟩

namespace OpenFgaEngine

variable {E : OpenFgaEngine}

/-- What the core takes for an answer of its engine, OpenFGA has answered. -/
theorem vouches_of_related {tr₀ : Trace CoreSig} {tr : Trace DeployedSig}
    (hserves : Handler.Serves E.serving tr₀ tr) {subject relation resource : String}
    (h : Related tr₀ subject relation resource) :
    ∃ e, ofEngine e ∈ tr ∧ Vouches subject relation resource e := by
  -- the answer came from a check or from a batch, and either was served by a run of the adapter
  rcases h with hcheck | ⟨items, related, hbatch, -, i, hi, htrue⟩
  · obtain ⟨pre, seg, post, rfl, hrun⟩ := hserves.mem hcheck
    obtain ⟨seg, rfl, hseg⟩ := run_adapter.mp hrun
    obtain ⟨e, he, hvouches⟩ := check_true hseg
    exact ⟨e, List.mem_append_left _ (List.mem_append_right _ (List.mem_map_of_mem he)), hvouches⟩
  · obtain ⟨pre, seg, post, rfl, hrun⟩ := hserves.mem hbatch
    obtain ⟨seg, rfl, hseg⟩ := run_adapter.mp hrun
    obtain ⟨e, he, hvouches⟩ := (batchCheck_run hseg).2 i _ hi htrue
    exact ⟨e, List.mem_append_left _ (List.mem_append_right _ (List.mem_map_of_mem he)), hvouches⟩

/-- An answer in a run of a deployed program was given under the guard. -/
theorem vouched_of_vouches {α : Type} {p : Core α} {tr : Trace DeployedSig} {x : Except Exn α}
    (hrun : Raises.Run (E.deploy p) tr x) {subject relation resource : String}
    {e : Event EngineSig} (he : ofEngine e ∈ tr) (h : Vouches subject relation resource e) :
    Vouched tr subject relation resource := by
  obtain ⟨pre, post, rfl⟩ := List.append_of_mem he
  -- the question was asked on a path of the run, where the guard stands
  obtain ⟨k, hpath⟩ := Prog.Run.about hrun
  obtain ⟨hhuman, hbacked⟩ := questions_guarded hpath h.asksAbout
  exact ⟨pre, e, post, rfl, h, hhuman, hbacked⟩

/-- What the core takes for an answer of its engine was answered under the guard. -/
theorem vouched_of_related {α : Type} {p : Core α} {tr₀ : Trace CoreSig}
    {tr : Trace DeployedSig} {x : Except Exn α} (hrun : Raises.Run (E.deploy p) tr x)
    (hserves : Handler.Serves E.serving tr₀ tr) {subject relation resource : String}
    (h : Related tr₀ subject relation resource) : Vouched tr subject relation resource := by
  obtain ⟨e, he, hvouches⟩ := vouches_of_related hserves h
  exact vouched_of_vouches hrun he hvouches

variable {D : Decider} {chain : PrincipalChain} {action : Action} {args : Option Args}
  {context : Option DecisionContext} {tr : Trace DeployedSig}

/-- **No ALLOW without OpenFGA.** Whatever is answered, and however often a call fails, an ALLOW
of a deployed decider rests on an answer of OpenFGA that relates the human subject to the resource,
given when the connectors had last been found fresh. -/
theorem allow_vouched :
    (∀ resource d, Raises.Run (E.deploy (D.decide chain action resource args context)) tr (.ok d) →
      d.outcome = .allow → Vouched tr chain.subject action.relation resource) ∧
    (∀ resources scopeResources named d,
      Raises.Run (E.deploy (D.decideAll chain action resources scopeResources named args context))
        tr (.ok d) →
      d.outcome = .allow →
        ∀ resource ∈ resources, Vouched tr chain.subject action.relation resource) ∧
    ∀ targets auditEach ds,
      Raises.Run (E.deploy (D.decideEach chain action targets auditEach args context)) tr
        (.ok ds) →
      ∀ d ∈ ds, d.outcome = .allow →
        Vouched tr chain.subject action.relation d.resource := by
  refine ⟨fun resource d hrun hallow => ?_, fun resources scopeResources named d hrun hallow => ?_,
    fun targets auditEach ds hrun d hd hallow => ?_⟩
  · -- the core's run behind the deployed one says what the ALLOW was earned by
    obtain ⟨tr₀, hserves, hcore⟩ := Raises.run_handle.mp hrun
    exact vouched_of_related hrun hserves ((Decider.decide_run hcore).allow hallow).2.related
  · obtain ⟨tr₀, hserves, hcore⟩ := Raises.run_handle.mp hrun
    intro resource hresource
    have hearned := ((Decider.decideAll_run hcore).allow hallow).2 resource hresource
    exact vouched_of_related hrun hserves hearned.related
  · obtain ⟨tr₀, hserves, hcore⟩ := Raises.run_handle.mp hrun
    have hearned := ((Decider.decideEach_run hcore).allow d hd hallow).2
    exact vouched_of_related hrun hserves hearned.related

/-- Collaborators that answer True, allow and accept, with connectors that are fresh. -/
def allRelated : ∀ o, DeployedOp.Res o
  | .core o => Decider.agreeable o
  | .engine .assertFresh => .ok ()
  | .engine (.check _ _ _) => .ok (some true)
  | .engine (.batchCheck checks) =>
    .ok ((List.range checks.length).map fun i => ⟨.ok i, false, true⟩)
  | .engine (.listObjects _ _ _) => .ok []
  | .engine (.writeTuples _) => .ok ()
  | .engine (.deleteTuples _) => .ok ()
  | .engine (.read _ _ _) => .ok ⟨[], none⟩
  | .engine .sleep => ()

/-- An adapter that makes a call twice. -/
def retrying : OpenFgaEngine := ⟨1, fun _ => true⟩

/-- Three decisions that allow, and what they rest on. -/
theorem allow_vouched_allRelated :
    (∃ tr, Vouched tr "user:alice" Action.read.relation "doc:1") ∧
    (∃ tr, ∀ resource ∈ ["doc:1", "doc:2"], Vouched tr "user:alice" Action.read.relation resource) ∧
    ∃ tr, ∃ ds : List Decision, ds.map Decision.outcome = [.allow, .deny] ∧
      ∀ d ∈ ds, d.outcome = .allow → Vouched tr "user:alice" Action.read.relation d.resource := by
  have hallow := fun tr => @allow_vouched retrying Decider.guarded .aliceReader .read none none tr
  refine ⟨?_, ?_, ?_⟩
  · exact ⟨_, (hallow _).1 "doc:1" _ (Prog.run_exec (S := DeployedSig) allRelated _) rfl⟩
  · exact ⟨_, (hallow _).2.1 ["doc:1", "doc:2"] none none _
      (Prog.run_exec (S := DeployedSig) allRelated _) rfl⟩
  · exact ⟨_, _, rfl, (hallow _).2.2 ["doc:1", "memory:1"] true _
      (Prog.run_exec (S := DeployedSig) allRelated _)⟩

end OpenFgaEngine

/-! ### Stale connectors -/

/-- The freshness guard raises, with this reason, whenever it is asked. -/
def StaleAs (reason : String) (e : Event DeployedSig) : Prop :=
  ∀ r : Except Exn Unit, e = ofEngine ⟨.assertFresh, r⟩ →
    ∃ exc, r = .error (.hoc exc) ∧ exc.reason = reason

/-- The engine of the core raises, with this reason, whenever it is asked a valid question. -/
def RaisesAs (reason : String) : Event CoreSig → Prop
  | ⟨.check subject _ obj, r⟩ => isRef subject "user" = true → isResourcePattern obj = true →
      ∃ exc, r = .error (.hoc exc) ∧ exc.reason = reason
  | ⟨.batchCheck subject items, r⟩ => items ≠ [] → isRef subject "user" = true →
      (∀ item ∈ items, isResourcePattern item.2 = true) →
        ∃ exc, r = .error (.hoc exc) ∧ exc.reason = reason
  | _ => True

namespace OpenFgaEngine

variable {E : OpenFgaEngine} {reason : String}

/-- The adapter raises what its guard raises. -/
theorem under_guard {subject obj : String} (hhuman : isRef subject "user" = true)
    (hobj : isResourcePattern obj = true) :
    Raises.Under (fun e => StaleAs reason (ofEngine e))
      (fun x => ∃ exc, x = .error (.hoc exc) ∧ exc.reason = reason) (guard subject obj) := by
  unfold guard
  rw [humanSubject_eq_ok (u := ()) |>.mpr hhuman, validateResourcePattern_eq_ok.mpr ⟨hobj, rfl⟩]
  exact fun r hr => hr r rfl

theorem under_raised {α β : Type} {p : Adapter α} {f : α → Adapter β}
    (hp : Raises.Under (fun e => StaleAs reason (ofEngine e))
      (fun x => ∃ exc, x = .error (.hoc exc) ∧ exc.reason = reason) p) :
    Raises.Under (fun e => StaleAs reason (ofEngine e))
      (fun x => ∃ exc, x = .error (.hoc exc) ∧ exc.reason = reason) (p >>= f) := by
  refine hp.bind (fun exc h => ?_) fun a h => ?_
  · obtain ⟨e, heq, hreason⟩ := h
    exact ⟨e, congrArg Except.error (Except.error.inj heq), hreason⟩
  · -- the first part never returns
    obtain ⟨e, heq, -⟩ := h
    cases heq

theorem under_serving (o : CoreOp) :
    Raises.ProgUnder (StaleAs reason) (fun r => RaisesAs reason ⟨o, r⟩) (E.serving o) := by
  have hembed : ∀ {α : Type} {Q : Except Exn α → Prop} {p : Adapter α},
      Raises.Under (fun e => StaleAs reason (ofEngine e)) Q p →
        Raises.Under (StaleAs reason) Q (p.embed adapterCalls) :=
    fun h => h.embed fun _ _ h' => h'
  -- only the core's two questions reach the adapter
  cases o with
  | check subject relation obj =>
    refine Raises.ProgUnder.mono (hembed (Q := fun r => RaisesAs reason
      ⟨.check subject relation obj, r⟩) ?_) fun _ h => h
    -- where the question is not valid nothing is promised of its answer
    by_cases hvalid : isRef subject "user" = true ∧ isResourcePattern obj = true
    · exact (under_raised (under_guard hvalid.1 hvalid.2)).mono fun _ h _ _ => h
    · exact Raises.under_of_run fun _ _ _ _ hhuman hobj => absurd ⟨hhuman, hobj⟩ hvalid
  | batchCheck subject items =>
    refine Raises.ProgUnder.mono (hembed (Q := fun r => RaisesAs reason
      ⟨.batchCheck subject items, r⟩) ?_) fun _ h => h
    cases items with
    | nil => exact Raises.under_of_run fun _ _ _ _ hnone => absurd rfl hnone
    | cons item rest =>
      -- the guard of the first item is the one that raises
      by_cases hvalid : isRef subject "user" = true ∧ isResourcePattern item.2 = true
      · have hguard : Raises.Under (fun e => StaleAs reason (ofEngine e))
            (fun x => ∃ exc, x = .error (.hoc exc) ∧ exc.reason = reason)
            (guardAll subject (item :: rest)) := under_raised (under_guard hvalid.1 hvalid.2)
        exact (under_raised hguard).mono fun _ h _ _ _ => h
      · refine Raises.under_of_run fun _ _ _ _ _ hhuman hall => absurd ⟨hhuman, ?_⟩ hvalid
        exact hall item List.mem_cons_self
  | now => exact fun _ _ => trivial
  | uuid4 => exact fun _ _ => trivial
  | elapsedMs => exact fun _ _ => trivial
  | policy chain action resource args context => exact fun _ _ => trivial
  | record event => exact fun _ _ => trivial

end OpenFgaEngine

/-! ### Decisions of a failing engine -/

/-- The resource was denied by the scope, or for the reason. -/
def DeniedAs (reason : String) (outcome : Outcome) (given : String) : Prop :=
  outcome = .deny ∧ (given = "scope_excluded" ∨ given = reason)

namespace Decider

variable {D : Decider} {chain : PrincipalChain} {action : Action} {args : Args}
  {context : DecisionContext} {reason : String}

/-- An error of the package ends a method; what it returns goes on. -/
theorem under_ofHoc {α β : Type} {x : Except HocError α} {f : α → Core β}
    {Q : Except Exn β → Prop} (herror : ∀ exc, Q (.error (.hoc exc)))
    (hok : ∀ a, x = .ok a → Raises.Under (RaisesAs reason) Q (f a)) :
    Raises.Under (RaisesAs reason) Q (Core.ofHoc x >>= f) := by
  cases x with
  | error exc => exact herror exc
  | ok a => exact hok a rfl

theorem evaluate_denied {resource : String} (hhuman : isRef chain.subject "user" = true)
    (hresource : isResourcePattern resource = true) :
    Raises.Under (RaisesAs reason)
      (fun x => ∃ judged, x = .ok judged ∧ DeniedAs reason judged.outcome judged.reason)
      (D.evaluate chain action resource args context) := by
  unfold evaluate
  by_cases hscope : scopeCovers chain action.kind resource = false
  · rw [if_pos hscope]
    exact ⟨_, rfl, rfl, .inl rfl⟩
  · rw [if_neg hscope]
    -- the scope covers the resource, so the engine is asked, and it raises
    intro r hr latencyMs _
    obtain ⟨exc, rfl, hexc⟩ := hr hhuman hresource
    exact ⟨_, rfl, rfl, .inr hexc⟩

theorem batch_raised {relation : String} {resources : List String} (hne : resources ≠ [])
    (hhuman : isRef chain.subject "user" = true)
    (hall : ∀ resource ∈ resources, isResourcePattern resource = true) :
    Raises.Under (RaisesAs reason) (fun x => x = .ok ([], some reason))
      (batch chain.subject relation resources) := by
  intro r hr
  obtain ⟨exc, rfl, hexc⟩ := hr (fun hnil => hne (List.map_eq_nil_iff.mp hnil)) hhuman
    fun item hitem => by
      obtain ⟨resource, hresource, rfl⟩ := List.mem_map.mp hitem
      exact hall resource hresource
  change (Except.ok ([], some exc.reason) : Except Exn (List Bool × Option String)) = _
  rw [hexc]

/-- A decision carries what was judged. -/
theorem conclude_carries {judged : Judged} {resource : String} {timestamp : ℤ}
    {resources : List String} {callArgs : Option Args} {audited : Bool} :
    Raises.Under (RaisesAs reason)
      (fun x => ∀ d, x = .ok d → d.outcome = judged.outcome ∧ d.reason = judged.reason)
      (D.conclude judged chain action resource timestamp resources callArgs audited) := by
  unfold conclude
  intro decisionId _
  cases audited with
  | false =>
    intro d hd
    obtain rfl := Except.ok.inj hd
    exact ⟨rfl, rfl⟩
  | true =>
    intro eventId _ answer _
    cases answer with
    | error exc => exact fun d hd => by cases hd
    | ok u =>
      intro d hd
      obtain rfl := Except.ok.inj hd
      exact ⟨rfl, rfl⟩

/-- A method that raises has decided nothing. -/
theorem decide_denied {resource : String} {callArgs : Option Args}
    {callContext : Option DecisionContext} :
    Raises.Under (RaisesAs reason) (fun x => ∀ d, x = .ok d → DeniedAs reason d.outcome d.reason)
      (D.decide chain action resource callArgs callContext) := by
  unfold decide
  refine under_ofHoc (fun exc d hd => by cases hd) fun _ hpattern => ?_
  refine under_ofHoc (fun exc d hd => by cases hd) fun _ hsubject => ?_
  -- past its own checks the question to the engine is valid
  have hhuman := (validateRef_eq_ok.mp hsubject).1
  refine (evaluate_denied hhuman (validateResourcePattern_eq_ok.mp hpattern).1).bind_ok
    fun judged hjudged timestamp _ => ?_
  refine conclude_carries.mono fun x hx d hd => ?_
  rw [(hx d hd).1, (hx d hd).2]
  exact hjudged

theorem decideAll_denied {resources : List String} {scopeResources : Option (List String)}
    {named : Option String} {callArgs : Option Args} {callContext : Option DecisionContext}
    (hne : resources ≠ []) :
    Raises.Under (RaisesAs reason) (fun x => ∀ d, x = .ok d → DeniedAs reason d.outcome d.reason)
      (D.decideAll chain action resources scopeResources named callArgs callContext) := by
  unfold decideAll
  refine under_ofHoc (fun exc d hd => by cases hd) fun _ hsubject => ?_
  refine under_ofHoc (fun exc d hd => by cases hd) fun _ hpatterns => ?_
  have hall : ∀ resource ∈ resources, isResourcePattern resource = true := fun resource h =>
    validateAll_eq_ok.mp hpatterns resource (List.mem_append_left _ h)
  -- what is judged is denied already: by the scope, or since the batch raises
  have hjudged : Raises.Under (RaisesAs reason)
      (fun x => ∃ judged, x = .ok judged ∧ DeniedAs reason judged.outcome judged.reason)
      (D.evaluateAll chain action resources (scopeResources.getD resources) scopeResources.isSome
        (callArgs.getD []) (callContext.getD .none)) := by
    unfold evaluateAll
    rw [if_neg fun h => hne h.1]
    split
    · exact ⟨_, rfl, rfl, .inl rfl⟩
    · refine (batch_raised hne (validateRef_eq_ok.mp hsubject).1 hall).bind
        (fun exc hexc => by cases hexc) fun answer hanswer latencyMs _ => ?_
      obtain rfl := Except.ok.inj hanswer
      exact ⟨_, rfl, rfl, .inr rfl⟩
  refine hjudged.bind_ok fun judged hdenied timestamp _ => ?_
  refine conclude_carries.mono fun x hx d hd => ?_
  rw [(hx d hd).1, (hx d hd).2]
  exact hdenied

/-- Every outcome so far is such a denial. -/
def AllDenied (reason : String) (outcomes : Outcomes) : Prop :=
  ∀ p ∈ outcomes, DeniedAs reason p.2.outcome p.2.reason

theorem judgeChunk_denied {targets : List String} {related : List Bool} {latencyMs : PyFloat}
    {position : ℕ} {chunk : List ℕ} {outcomes : Outcomes} (h : AllDenied reason outcomes) :
    Raises.Under (RaisesAs reason) (fun x => ∃ out, x = .ok out ∧ AllDenied reason out)
      (D.judgeChunk chain action targets args context (some reason) related latencyMs position
        chunk outcomes) := by
  -- the induction is on the positions of the chunk still to be judged
  induction chunk generalizing position outcomes with
  | nil => exact ⟨outcomes, rfl, h⟩
  | cons index chunk ih =>
    refine ih fun p hp => ?_
    rcases List.mem_append.mp hp with hp | hp
    · exact h p hp
    · rw [List.mem_singleton.mp hp]
      exact ⟨rfl, .inr rfl⟩

theorem judgeChunks_denied {targets : List String} {chunks : List (List ℕ)} {outcomes : Outcomes}
    (hhuman : isRef chain.subject "user" = true)
    (hchunks : ∀ chunk ∈ chunks, chunk ≠ [] ∧
      ∀ i ∈ chunk, isResourcePattern (targets.getD i "") = true)
    (h : AllDenied reason outcomes) :
    Raises.Under (RaisesAs reason) (fun x => ∃ out, x = .ok out ∧ AllDenied reason out)
      (D.judgeChunks chain action targets args context chunks outcomes) := by
  -- each chunk asks one batch, which raises; what was judged before stays denied
  induction chunks generalizing outcomes with
  | nil => exact ⟨outcomes, rfl, h⟩
  | cons chunk rest ih =>
    obtain ⟨⟨hne, hvalid⟩, hrest⟩ := List.forall_mem_cons.mp hchunks
    refine (batch_raised (fun hnil => hne (List.map_eq_nil_iff.mp hnil)) hhuman ?_).bind
      (fun exc hexc => by cases hexc) fun answer hanswer latencyMs _ => ?_
    · intro resource hresource
      obtain ⟨i, hi, rfl⟩ := List.mem_map.mp hresource
      exact hvalid i hi
    · obtain rfl := Except.ok.inj hanswer
      exact (judgeChunk_denied h).bind_ok fun out hout => ih hrest hout

theorem concludeEach_denied {outcomes : Outcomes} {now : ℤ} {callArgs : Option Args}
    {auditEach : Bool} {index : ℕ} {targets : List String} (h : AllDenied reason outcomes) :
    Raises.Under (RaisesAs reason)
      (fun x => ∀ ds, x = .ok ds → ∀ d ∈ ds, DeniedAs reason d.outcome d.reason)
      (D.concludeEach chain action outcomes now callArgs auditEach index targets) := by
  -- the induction is on the targets; each decision carries what was judged at its position
  induction targets generalizing index with
  | nil =>
    intro ds hds d hd
    obtain rfl := Except.ok.inj hds
    cases hd
  | cons item rest ih =>
    rw [concludeEach]
    cases hlookup : outcomes.lookup index with
    | none => exact fun ds hds => by cases hds
    | some judged =>
      have hjudged := h _ (mem_of_lookup hlookup)
      refine conclude_carries.bind (fun exc _ ds hds => by cases hds) fun d hd => ?_
      refine ih.bind (fun exc _ ds hds => by cases hds) fun ds hds => ?_
      intro ds' heq d' hmem
      obtain rfl := Except.ok.inj heq
      rcases List.mem_cons.mp hmem with rfl | hmem
      · rw [(hd _ rfl).1, (hd _ rfl).2]
        exact hjudged
      · exact hds ds rfl d' hmem

theorem decideEach_denied {targets : List String} {auditEach : Bool}
    {callArgs : Option Args} {callContext : Option DecisionContext} :
    Raises.Under (RaisesAs reason)
      (fun x => ∀ ds, x = .ok ds → ∀ d ∈ ds, DeniedAs reason d.outcome d.reason)
      (D.decideEach chain action targets auditEach callArgs callContext) := by
  unfold decideEach
  refine under_ofHoc (fun exc d hd => by cases hd) fun _ hsubject => ?_
  refine under_ofHoc (fun exc d hd => by cases hd) fun _ hpatterns => ?_
  -- without targets nothing is judged and nothing is asked
  by_cases hempty : targets = []
  · rw [if_pos hempty]
    intro ds hds d hd
    obtain rfl := Except.ok.inj hds
    cases hd
  rw [if_neg hempty]
  refine (judgeChunks_denied (validateRef_eq_ok.mp hsubject).1 (fun chunk hchunk => ⟨?_, ?_⟩)
    ?_).bind_ok fun outcomes houtcomes now _ => concludeEach_denied houtcomes
  · exact List.ne_nil_of_mem_chunksOf (by decide) hchunk
  · intro i hi
    have hmem := (List.mem_filter.mp (List.mem_of_mem_chunksOf (by decide) hchunk hi)).1
    have hlt : i < targets.length := List.mem_range.mp hmem
    rw [List.getD_eq_getElem?_getD, List.getElem?_eq_getElem hlt, Option.getD_some]
    exact validateAll_eq_ok.mp hpatterns _ (List.getElem_mem hlt)
  · -- before the first batch the only outcomes are those the scope denied
    intro p hp
    obtain ⟨i, -, rfl⟩ := List.mem_map.mp hp
    exact ⟨rfl, .inl rfl⟩

end Decider

/-! ### Runs over stale connectors -/

namespace OpenFgaEngine

variable {E : OpenFgaEngine} {D : Decider} {chain : PrincipalChain} {action : Action}
  {args : Option Args} {context : Option DecisionContext} {reason : String}
  {tr : Trace DeployedSig}

/-- **Stale connectors deny.** In a run in which the freshness guard raises whenever it is asked,
every decision is a DENY, by the scope or with the reason of the guard, and OpenFGA is asked
nothing. -/
theorem stale_denies (hstale : ∀ e ∈ tr, StaleAs reason e) :
    (∀ resource d, Raises.Run (E.deploy (D.decide chain action resource args context)) tr (.ok d) →
      DeniedAs reason d.outcome d.reason) ∧
    (∀ resources scopeResources named d, resources ≠ [] →
      Raises.Run (E.deploy (D.decideAll chain action resources scopeResources named args context))
        tr (.ok d) →
      DeniedAs reason d.outcome d.reason) ∧
    (∀ targets auditEach ds,
      Raises.Run (E.deploy (D.decideEach chain action targets auditEach args context)) tr
        (.ok ds) →
      ∀ d ∈ ds, DeniedAs reason d.outcome d.reason) ∧
    ∀ (α : Type) (p : Core α) (x : Except Exn α), Raises.Run (E.deploy p) tr x →
      ∀ e subject, ofEngine e ∈ tr → ¬ e.op.AsksAbout subject := by
  refine ⟨fun resource d hrun => ?_, fun resources scopeResources named d hne hrun => ?_,
    fun targets auditEach ds hrun => ?_, fun α p x hrun e subject he hasks => ?_⟩
  · exact (Decider.decide_denied.handle under_serving).run hrun hstale d rfl
  · exact ((Decider.decideAll_denied hne).handle under_serving).run hrun hstale d rfl
  · exact (Decider.decideEach_denied.handle under_serving).run hrun hstale ds rfl
  · obtain ⟨pre, post, rfl⟩ := List.append_of_mem he
    obtain ⟨k, hpath⟩ := Prog.Run.about hrun
    obtain ⟨earlier, since, rfl, -⟩ := (questions_guarded hpath hasks).2
    -- the question was asked when the guard had let a call through
    obtain ⟨exc, hraised, -⟩ := hstale _ (List.mem_append_left _
      (List.mem_append_right _ List.mem_cons_self)) _ rfl
    cases hraised

/-- The collaborators, with connectors that are stale. -/
def staleSince : ∀ o, DeployedOp.Res o
  | .engine .assertFresh => .error (.hoc (HocClass.connectorStale.error "stale"))
  | o => allRelated o

theorem staleSince_stale (o : DeployedOp) :
    StaleAs "connector_stale" ⟨o, staleSince o⟩ := by
  rintro r hr
  -- no other call is a question about freshness
  cases o with
  | core o => cases hr
  | engine o =>
    cases o with
    | assertFresh =>
      cases hr
      exact ⟨_, rfl, rfl⟩
    | _ => cases hr

/-- A decision while the connectors are stale. -/
theorem stale_denies_staleSince :
    ∃ tr, ∃ d : Decision, d.outcome = .deny ∧ d.reason = "connector_stale" ∧
      DeniedAs "connector_stale" d.outcome d.reason ∧
      Raises.Run (retrying.deploy (Decider.guarded.decide .aliceReader .read "doc:1" none none)) tr
        (.ok d) := by
  have hanswered := Prog.exec_answered (S := DeployedSig) (G := StaleAs "connector_stale")
    staleSince_stale
      (retrying.deploy (Decider.guarded.decide .aliceReader .read "doc:1" none none)).run
  have hrun := Prog.run_exec (S := DeployedSig) staleSince
    (retrying.deploy (Decider.guarded.decide .aliceReader .read "doc:1" none none)).run
  have hdenies := @stale_denies retrying Decider.guarded .aliceReader .read none none _ _ hanswered
  exact ⟨_, _, rfl, rfl, hdenies.1 "doc:1" _ hrun, hrun⟩

end OpenFgaEngine

end HeadOfContext
