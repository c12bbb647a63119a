import HeadOfContext.Core.Batched
import HeadOfContext.Framework.Decimal
import HeadOfContext.Framework.Dict
import HeadOfContext.Integrations.FixedSession
import HeadOfContext.Integrations.SessionJournal
import HeadOfContext.Tokens.Verifications

/-!
# The tool catalog

`visibleTools` hides the tools that the gate would refuse. It asks what the gate asks, but once
for a whole list: the chain of the token and its answers for all resources, then the decider for
all of them. The catalog reads the expiry of a token from its authority block, the gate leaves it
to the checks of the token, and this is the only thing the two can disagree about
(`agrees_iff`): a token that the service has issued carries the check.
-/

namespace HeadOfContext

open Effects Biscuit Except Decimal

/-! ### The listing -/

/-- `ToolCatalog`. -/
structure ToolCatalog where
  visible : List String
  hidden : List String
  tokenRefused : ℕ
  outcomes : Dict String Outcome

/-- `_resource`. -/
def toolResource? (name : String) : Option String := (toolResource name).toOption

/-- The loop over the names: each with its outcome, in its list. -/
def sortTools (outcomeOf : String → Outcome) : List String → ToolCatalog → ToolCatalog
  | [], catalog => catalog
  | name :: rest, catalog =>
    let outcomes := catalog.outcomes.set name (outcomeOf name)
    sortTools outcomeOf rest
      (if outcomeOf name = .deny then
        { catalog with hidden := catalog.hidden ++ [name], outcomes := outcomes }
      else { catalog with visible := catalog.visible ++ [name], outcomes := outcomes })

/-- `by_resource.get(resource, Outcome.DENY) if resource else Outcome.DENY`. -/
def outcomeIn (byResource : Dict String Outcome) (name : String) : Outcome :=
  ((toolResource? name).bind byResource.get).getD .deny

namespace AgentSession

variable {Text : Type} (s : AgentSession Text)

/-- The event of a listing that the token refused. There is no chain to attach. -/
def unprovenEvent (reason : String) (at_ : ℤ) (eventId : String) : AuditEvent where
  kind := .toolsListed
  timestamp := .utc at_
  subject := "-"
  actor := s.caller
  delegationDepth := 0
  action := "act:can_invoke"
  resource := "tool:*"
  outcome := "DENY"
  reason := reason
  engineLatencyMs := zeroMs
  tokenFingerprint := s.tokens.fingerprint s.token
  argsHash := .null
  decisionId := .null
  eventId := eventId

/-- The event of a listing. -/
def listedEvent (rt : Runtime) (chain : PrincipalChain) (catalog : ToolCatalog) (at_ : ℤ)
    (eventId : String) : AuditEvent where
  kind := .toolsListed
  timestamp := .utc at_
  subject := chain.subject
  actor := chain.actor
  delegationDepth := chain.depth
  action := "act:can_invoke"
  resource := "tool:*"
  outcome := (if catalog.visible = [] then "DENY" else "ALLOW" : String)
  reason := ("visible=" ++ String.ofList (natText catalog.visible.length) ++
    " hidden=" ++ String.ofList (natText catalog.hidden.length) ++
    " token_refused=" ++ String.ofList (natText catalog.tokenRefused) ++
    " visible_sha256=" ++ String.ofList ((digest rt
      (catalog.visible.map fun n => (toolResource? n).getD n)).toList.take 16) : String)
  engineLatencyMs := zeroMs
  tokenFingerprint := .null
  argsHash := digest rt (catalog.hidden.map fun n => (toolResource? n).getD n)
  decisionId := .null
  eventId := eventId

/-- What the token proves: its chain, and its answers for the resources. -/
def proven (wanted : List String) : Sessions (PrincipalChain × List (String × Bool)) := do
  let chain ← s.chain
  let answers ← (if wanted = [] then pure [] else s.permits .act wanted)
  return (chain, answers)

/-- The handler of `visible_tools`: everything is hidden. -/
def hideAll (exc : HocError) (tools : List String) : Gated ToolCatalog := do
  let at_ ← Gated.now
  let eventId ← Gated.uuid4
  Gated.record (s.unprovenEvent exc.reason at_ eventId)
  return ⟨[], tools, 0, .fromKeys tools .deny⟩

/-- The rest of `visible_tools`, once the token has answered. -/
def listTools (gate : ActionGate) (tools wanted : List String) (chain : PrincipalChain)
    (answers : List (String × Bool)) : Gated ToolCatalog := do
  let refused := wanted.filter fun r => !(answers.lookup r).getD false
  let candidates := wanted.filter (· ∉ refused)
  let decisions ← Gated.core (gate.decider.decideEach chain .invoke candidates false none none)
  let byResource := (Dict.fromKeys refused .deny).setAll
    (decisions.map fun d => (d.resource, d.outcome))
  let catalog := sortTools (outcomeIn byResource) tools ⟨[], [], refused.length, .empty⟩
  let at_ ← Gated.now
  let eventId ← Gated.uuid4
  Gated.record (listedEvent gate.decider.rt chain catalog at_ eventId)
  return catalog

/-- `visible_tools`: the gate is the one of the session if none is given. -/
def visibleTools (tools : List String) (gate : Option ActionGate) : Sessions ToolCatalog :=
  if tools = [] then pure ⟨[], [], 0, .empty⟩
  else do
    let wanted := (FrozenSet.ofList (tools.filterMap toolResource?)).items
    let answer ← (s.proven wanted).attempt
    match answer with
    | .ok (chain, answers) =>
      Sessions.gated (listTools (gate.getD s.gate) tools wanted chain answers)
    | .error (.hoc exc) =>
      if exc.cls.isTokenInvalid then Sessions.gated (s.hideAll exc tools) else .raise (.hoc exc)
    | .error (.other name) => .raise (.other name)

end AgentSession

/-! ### What the catalog lists -/

/-- The catalog lists the names by their outcomes, in order. -/
structure ToolCatalog.Sorts (catalog : ToolCatalog) (tools : List String)
    (outcomeOf : String → Outcome) : Prop where
  visible : catalog.visible = tools.filter fun name => outcomeOf name ≠ .deny
  hidden : catalog.hidden = tools.filter fun name => outcomeOf name = .deny
  outcomes : ∀ name ∈ tools, catalog.outcomes.get name = some (outcomeOf name)

theorem sortTools_eq (outcomeOf : String → Outcome) (tools : List String) (catalog : ToolCatalog) :
    (sortTools outcomeOf tools catalog).visible =
        catalog.visible ++ tools.filter (fun name => outcomeOf name ≠ .deny) ∧
      (sortTools outcomeOf tools catalog).hidden =
        catalog.hidden ++ tools.filter (fun name => outcomeOf name = .deny) ∧
      (sortTools outcomeOf tools catalog).outcomes =
        catalog.outcomes.setAll (tools.map fun name => (name, outcomeOf name)) := by
  induction tools generalizing catalog with
  | nil => exact ⟨(List.append_nil _).symm, (List.append_nil _).symm, rfl⟩
  | cons name tools ih =>
    rw [sortTools]
    by_cases hdeny : outcomeOf name = .deny
    · rw [if_pos hdeny]
      refine ⟨(ih _).1.trans ?_, (ih _).2.1.trans ?_, (ih _).2.2⟩
      · rw [List.filter_cons_of_neg (by simpa using hdeny)]
      · rw [List.filter_cons_of_pos (by simpa using hdeny), ← List.append_cons]
    · rw [if_neg hdeny]
      refine ⟨(ih _).1.trans ?_, (ih _).2.1.trans ?_, (ih _).2.2⟩
      · rw [List.filter_cons_of_pos (by simpa using hdeny), ← List.append_cons]
      · rw [List.filter_cons_of_neg (by simpa using hdeny)]

theorem sorts_sortTools {outcomeOf : String → Outcome} {tools : List String} {refused : ℕ} :
    (sortTools outcomeOf tools ⟨[], [], refused, .empty⟩).Sorts tools outcomeOf := by
  obtain ⟨hvisible, hhidden, houtcomes⟩ :=
    sortTools_eq outcomeOf tools ⟨[], [], refused, .empty⟩
  refine ⟨hvisible, hhidden, fun name hname => ?_⟩
  rw [houtcomes, Dict.get_setAll_map, if_pos hname]

theorem ToolCatalog.Sorts.congr {catalog : ToolCatalog} {tools : List String}
    {f g : String → Outcome} (h : catalog.Sorts tools f) (heq : ∀ name ∈ tools, f name = g name) :
    catalog.Sorts tools g := by
  refine ⟨h.visible.trans ?_, h.hidden.trans ?_, fun name hname => ?_⟩
  · exact List.filter_congr fun name hname => by rw [heq name hname]
  · exact List.filter_congr fun name hname => by rw [heq name hname]
  · rw [h.outcomes name hname, heq name hname]

namespace AgentSession

variable {Text : Type} (s : AgentSession Text) (w : SessionAnswers)

/-- The token as the catalog reads it: held, and not past the expiry of its authority block. -/
def current : Option Loaded := do
  let loaded ← s.tokens.held w s.token s.caller
  guard ¬w.clock ≥ loaded.expiresAt
  return loaded

/-- The outcome that the catalog finds for a name. -/
def catalogOutcome (name : String) : Outcome :=
  if (s.current w).isSome then w.gateOutcome s name else .deny

/-- A value read off what `inspect` and `verify_many` return for a current token. -/
theorem map_current {α β : Type} (v : Loaded → α) (k : α → β) :
    (s.current w).map (fun l => k (v l)) = (do
      let loaded ← s.tokens.held w s.token s.caller
      guard ¬w.clock ≥ loaded.expiresAt
      return v loaded) >>= fun a => some (k a) := by
  rw [current]
  cases s.tokens.held w s.token s.caller with
  | none => rfl
  | some l =>
    by_cases hfresh : w.clock < l.expiresAt
    · simp [guard, hfresh]
    · simp [guard, hfresh]

theorem under_chain :
    Raises.Under w.Gives (Proves ((s.current w).map fun l => l.chain)) s.chain := by
  change Raises.Under _ (Proves ((s.current w).map fun l => (s.tokens.verified s.token l).chain)) _
  rw [s.map_current w (s.tokens.verified s.token) VerifiedToken.chain]
  exact Proves.bind (under_tokens w (TokenService.under_inspect s.caller_isRef))
    fun verified _ => proves_pure _

theorem under_permits {wanted : List String}
    (hvalid : ∀ r ∈ wanted, isResourcePattern r = true) (hnodup : wanted.Nodup) :
    Raises.Under w.Gives (Proves ((s.current w).map fun l =>
        TokenService.answersFor l s.caller .act w.clock wanted))
      (s.permits .act wanted) := by
  rw [s.map_current w (fun l => (s.tokens.verified s.token l,
    TokenService.answersFor l s.caller .act w.clock wanted)) Prod.snd]
  exact Proves.bind (under_tokens w (TokenService.under_verifyMany s.caller_isRef hvalid hnodup))
    fun answer _ => proves_pure _

/-- `proven`: the chain of a current token, and its answers. -/
theorem under_proven {wanted : List String}
    (hvalid : ∀ r ∈ wanted, isResourcePattern r = true) (hnodup : wanted.Nodup) :
    Raises.Under w.Gives (Proves ((s.current w).map fun l =>
        (l.chain, TokenService.answersFor l s.caller .act w.clock wanted)))
      (s.proven wanted) := by
  have hshape : ((s.current w).map fun l =>
      (l.chain, TokenService.answersFor l s.caller .act w.clock wanted)) =
        ((s.current w).map fun l => l.chain) >>= fun chain =>
          ((s.current w).map fun l => TokenService.answersFor l s.caller .act w.clock wanted) >>=
            fun answers => some (chain, answers) := by
    cases s.current w <;> rfl
  rw [hshape]
  refine Proves.bind (s.under_chain w) fun chain hchain => ?_
  refine Proves.bind ?_ fun answers _ => proves_pure _
  by_cases hempty : wanted = []
  · -- with nothing to ask the token has answered nothing
    obtain ⟨l, hl, -⟩ := Option.map_eq_some_iff.mp hchain
    rw [if_pos hempty, hempty, hl]
    exact proves_pure _
  · rw [if_neg hempty]
    exact s.under_permits w hvalid hnodup

/-! ### The catalog and the gate -/

theorem toolResource?_eq_some {name resource : String} :
    toolResource? name = some resource ↔
      isRef (prefixedTool name) "tool" = true ∧ resource = prefixedTool name := by
  rw [← toolResource_eq_ok, toolResource?]
  cases toolResource name with
  | ok r => simp [Except.toOption]
  | error exc => simp [Except.toOption]

/-- The resources that the catalog asks about. -/
def wantedOf (tools : List String) : List String :=
  (FrozenSet.ofList (tools.filterMap toolResource?)).items

theorem mem_wantedOf {tools : List String} {r : String} :
    r ∈ wantedOf tools ↔ ∃ name ∈ tools, isRef (prefixedTool name) "tool" = true ∧
      r = prefixedTool name := by
  rw [wantedOf, ← FrozenSet.mem_def, FrozenSet.mem_ofList, List.mem_filterMap]
  exact exists_congr fun name => and_congr_right fun _ => toolResource?_eq_some

theorem wantedOf_nodup (tools : List String) : (wantedOf tools).Nodup :=
  (FrozenSet.ofList (tools.filterMap toolResource?)).increasing.imp ne_of_lt

theorem wantedOf_isRef {tools : List String} : ∀ r ∈ wantedOf tools, isRef r "tool" = true := by
  intro r hr
  obtain ⟨name, -, hname, rfl⟩ := mem_wantedOf.mp hr
  exact hname

theorem current_eq_some {l : Loaded} : s.current w = some l ↔
    s.tokens.held w s.token s.caller = some l ∧ w.clock < l.expiresAt := by
  rw [current]
  cases s.tokens.held w s.token s.caller with
  | none => simp
  | some l' =>
    change (guard (¬w.clock ≥ l'.expiresAt) >>= fun _ => some l') = some l ↔ _
    by_cases hfresh : w.clock < l'.expiresAt
    · rw [guard, if_pos (not_le.mpr hfresh)]
      refine ⟨fun h => ?_, fun h => h.1⟩
      obtain rfl := Option.some.inj h
      exact ⟨rfl, hfresh⟩
    · rw [guard, if_neg (not_not.mpr (not_lt.mp hfresh))]
      refine ⟨fun h => (nomatch h), fun h => ?_⟩
      obtain rfl := Option.some.inj h.1
      exact absurd h.2 hfresh

/-- What the catalog collects for the resources it asked about. -/
theorem get_collected {wanted : List String} {permits : String → Bool} {judge : String → Outcome}
    {r : String} :
    ((Dict.fromKeys (wanted.filter fun r => !permits r) .deny).setAll
      ((wanted.filter (· ∉ wanted.filter fun r => !permits r)).map fun r => (r, judge r))).get r =
        if r ∈ wanted then some (if permits r then judge r else .deny) else none := by
  rw [Dict.get_setAll_map, Dict.get_fromKeys]
  by_cases hr : r ∈ wanted
  · cases hpermits : permits r with
    | true => simp [hr, hpermits]
    | false => simp [hr, hpermits]
  · simp [hr]

variable {s w} {l : Loaded} {tools : List String}

theorem proves_of_held {resource : String} (hheld : s.tokens.held w s.token s.caller = some l) :
    w.proves s resource =
      if TokenService.authorized l s.caller .act resource w.clock then some l.chain else none := by
  rw [SessionAnswers.proves, hheld]
  by_cases hauth : TokenService.authorized l s.caller .act resource w.clock = true
  · simp [guard, hauth]
  · simp [guard, hauth]

/-- The outcome of a name, from what is collected for a token that is held. -/
theorem outcomeIn_collected {byResource : Dict String Outcome} {name : String}
    (hname : name ∈ tools) (hheld : s.tokens.held w s.token s.caller = some l)
    (hget : ∀ r, byResource.get r = if r ∈ wantedOf tools then
      some (if TokenService.authorized l s.caller .act r w.clock then
        w.core.outcome s.gate.decider l.chain .invoke r [] .none else .deny) else none) :
    outcomeIn byResource name = w.gateOutcome s name := by
  rw [outcomeIn, SessionAnswers.gateOutcome]
  by_cases hvalid : isRef (prefixedTool name) "tool" = true
  · have hwanted : prefixedTool name ∈ wantedOf tools := mem_wantedOf.mpr ⟨name, hname, hvalid, rfl⟩
    have hresource : toolResource? name = some (prefixedTool name) :=
      toolResource?_eq_some.mpr ⟨hvalid, rfl⟩
    rw [if_pos hvalid, hresource, proves_of_held hheld, Option.bind_some, hget, if_pos hwanted]
    cases TokenService.authorized l s.caller .act (prefixedTool name) w.clock with
    | true => rfl
    | false => rfl
  · have hnone : toolResource? name = none :=
      Option.eq_none_iff_forall_ne_some.mpr fun r hr => hvalid (toolResource?_eq_some.mp hr).1
    rw [if_neg hvalid, hnone]
    rfl

theorem under_listTools (hheld : s.tokens.held w s.token s.caller = some l) :
    Raises.Under w.GivesGate (fun x => ∃ c, x = .ok c ∧ c.Sorts tools (w.gateOutcome s))
      (listTools s.gate tools (wantedOf tools) l.chain
        (TokenService.answersFor l s.caller .act w.clock (wantedOf tools))) := by
  have hrefused : ((wantedOf tools).filter fun r =>
      !((TokenService.answersFor l s.caller .act w.clock (wantedOf tools)).lookup r).getD false) =
        (wantedOf tools).filter fun r => !TokenService.authorized l s.caller .act r w.clock :=
    List.filter_congr fun r hr => by rw [TokenService.lookup_answersFor hr, Option.getD_some]
  rw [listTools]
  simp only [hrefused]
  refine (ActionGate.under_core (Decider.under_decideEach (fun r hr => ?_) none none)).bind_ok
    fun decisions hdecisions => ?_
  · exact isResourcePattern_of_isRef (wantedOf_isRef r (List.mem_filter.mp hr).1)
  intro at_ _ eventId _ answer hanswer
  obtain rfl : answer = .ok () := hanswer
  refine ⟨_, rfl, ?_⟩
  rw [hdecisions]
  exact sorts_sortTools.congr fun name hname =>
    outcomeIn_collected hname hheld fun r => get_collected

theorem under_hideAll {exc : HocError} :
    Raises.Under w.GivesGate (fun x => ∃ c, x = .ok c ∧ c.Sorts tools fun _ => .deny)
      (s.hideAll exc tools) := by
  intro at_ _ eventId _ answer hanswer
  obtain rfl : answer = .ok () := hanswer
  refine ⟨_, rfl, ⟨?_, ?_, fun name hname => ?_⟩⟩
  · exact (List.filter_eq_nil_iff.mpr fun name _ => by simp).symm
  · exact (List.filter_eq_self.mpr fun name _ => by simp).symm
  · rw [Dict.get_fromKeys, if_pos hname]

/-- **`visible_tools`** lists the names by the outcome of the gate, as long as the token is not
past the expiry that its authority block states. -/
theorem under_visibleTools :
    Raises.Under w.Gives (fun x => ∃ c, x = .ok c ∧ c.Sorts tools (s.catalogOutcome w))
      (s.visibleTools tools none) := by
  rw [visibleTools]
  by_cases hempty : tools = []
  · rw [if_pos hempty, hempty]
    exact Raises.under_pure ⟨_, rfl, ⟨rfl, rfl, fun name hname => absurd hname List.not_mem_nil⟩⟩
  rw [if_neg hempty]
  have hproven := s.under_proven w (fun r hr => isResourcePattern_of_isRef (wantedOf_isRef r hr))
    (wantedOf_nodup tools)
  refine hproven.attempt.bind_ok fun answer hanswer => ?_
  -- a token that proves nothing hides every tool, and one that does is asked for each
  cases answer with
  | ok pair =>
    obtain ⟨l, hl, rfl⟩ := Option.map_eq_some_iff.mp hanswer
    have hheld : s.tokens.held w s.token s.caller = some l := ((s.current_eq_some w).mp hl).1
    refine (under_gated w (under_listTools hheld)).mono ?_
    rintro x ⟨c, rfl, hc⟩
    refine ⟨c, rfl, hc.congr fun name _ => ?_⟩
    rw [catalogOutcome, hl]
    rfl
  | error exn =>
    obtain ⟨hnone, exc, rfl, hexc⟩ := hanswer
    change Raises.Under _ _ (if exc.cls.isTokenInvalid = true then _ else _)
    rw [if_pos hexc]
    refine (under_gated w under_hideAll).mono ?_
    rintro x ⟨c, rfl, hc⟩
    refine ⟨c, rfl, hc.congr fun name _ => ?_⟩
    rw [catalogOutcome, Option.map_eq_none_iff.mp hnone]
    rfl

/-! ### Agreement -/

variable (s w)

/-- **The catalog and the gate agree** about the names: whatever the two are answered, the
catalog is returned, its lists partition the names in order, and a name is visible if and only if
the gate returns a decision other than DENY, with the outcome that the catalog gives for it. -/
def Agrees (tools : List String) : Prop :=
  ∀ tr r, Raises.Run (s.visibleTools tools none) tr r → (∀ e ∈ tr, w.Gives e) →
    ∃ c : ToolCatalog, r = .ok c ∧
      (∃ p : String → Bool, c.visible = tools.filter p ∧ c.hidden = tools.filter fun n => !p n) ∧
      ∀ name ∈ tools, ∀ tr' r', Raises.Run (s.authorize name (some [])) tr' r' →
        (∀ e ∈ tr', w.Gives e) →
        (name ∈ c.visible ↔ ∃ g, r' = .ok g ∧ g.decision.outcome ≠ .deny) ∧
          c.outcomes.get name = some (GateResult.outcomeOf r')

/-- The token is past the expiry that its authority block states, and the gate grants it one of
the tools all the same. -/
def Lapsed (tools : List String) : Prop :=
  ∃ l, s.tokens.held w s.token s.caller = some l ∧ l.expiresAt ≤ w.clock ∧
    ∃ name ∈ tools, w.gateOutcome s name ≠ .deny

variable {s w}

theorem outcomeOf_ne_deny {r : Except Exn GateResult} :
    GateResult.outcomeOf r ≠ .deny ↔ ∃ g, r = .ok g ∧ g.decision.outcome ≠ .deny := by
  cases r with
  | ok g => exact ⟨fun h => ⟨g, rfl, h⟩, fun ⟨_, heq, h⟩ => Except.ok.inj heq ▸ h⟩
  | error exn => exact ⟨fun h => absurd rfl h, fun ⟨_, heq, _⟩ => nomatch heq⟩

/-- The catalog finds what the gate finds, unless the token has lapsed. -/
theorem catalogOutcome_eq (h : ¬ s.Lapsed w tools) :
    ∀ name ∈ tools, s.catalogOutcome w name = w.gateOutcome s name := by
  intro name hname
  rw [catalogOutcome]
  cases hcurrent : s.current w with
  | some l => rfl
  | none =>
    -- a token that is not held is denied everywhere, one that is past its expiry by hypothesis
    by_contra hne
    have hgate : w.gateOutcome s name ≠ .deny := fun heq => hne heq.symm
    cases hheld : s.tokens.held w s.token s.caller with
    | none =>
      rw [SessionAnswers.gateOutcome, SessionAnswers.proves, hheld] at hgate
      exact hgate (ite_self _)
    | some l =>
      refine h ⟨l, hheld, ?_, name, hname, hgate⟩
      by_contra hfresh
      exact absurd (hcurrent.symm.trans ((s.current_eq_some w).mpr ⟨hheld, not_le.mp hfresh⟩))
        (by simp)

/-- **The catalog and the gate agree exactly when the token has not lapsed.** -/
theorem agrees_iff : s.Agrees w tools ↔ ¬ s.Lapsed w tools := by
  constructor
  · rintro hagrees ⟨l, hheld, hexpired, name, hname, hgate⟩
    have hrun := Raises.run_result (S := SessionSig) w.answer (s.visibleTools tools none)
    have hgives := Prog.exec_answered w.gives_answer (s.visibleTools tools none).run
    obtain ⟨c, hc, hsorts⟩ := under_visibleTools.run hrun hgives
    obtain ⟨c', hc', -, hall⟩ := hagrees _ _ hrun hgives
    obtain rfl : c = c' := Except.ok.inj (hc.symm.trans hc')
    -- the run of the gate for the name
    have hgate' := Raises.run_result (S := SessionSig) w.answer (s.authorize name (some []))
    have hgives' := Prog.exec_answered w.gives_answer (s.authorize name (some [])).run
    have houtcome := (s.under_authorize w name).run hgate' hgives'
    have hname' := (hall name hname _ _ hgate' hgives').2
    rw [hsorts.outcomes name hname, houtcome, catalogOutcome] at hname'
    cases hcurrent : s.current w with
    | none =>
      rw [hcurrent] at hname'
      exact hgate (Option.some.inj hname').symm
    | some l' =>
      obtain ⟨hheld', hfresh⟩ := (s.current_eq_some w).mp hcurrent
      obtain rfl : l = l' := Option.some.inj (hheld.symm.trans hheld')
      exact absurd hexpired (not_le.mpr hfresh)
  · intro hlapsed tr r hrun hgives
    obtain ⟨c, rfl, hsorts⟩ := under_visibleTools.run hrun hgives
    refine ⟨c, rfl, ⟨fun name => s.catalogOutcome w name ≠ .deny, hsorts.visible, ?_⟩, ?_⟩
    · rw [hsorts.hidden]
      exact List.filter_congr fun name _ => by simp
    · intro name hname tr' r' hrun' hgives'
      have houtcome := (s.under_authorize w name).run hrun' hgives'
      rw [hsorts.outcomes name hname, hsorts.visible, List.mem_filter, houtcome,
        catalogOutcome_eq hlapsed name hname, ← outcomeOf_ne_deny, houtcome]
      exact ⟨by simp [hname], rfl⟩

/-- The token is one that the service has issued, with any blocks appended to it. -/
def Issued (s : AgentSession Text) : Prop :=
  ∃ c ttl mandateId issuedAt key id blocks, s.token = s.tokens.lib.toBase64
    ((s.tokens.rootToken c ttl mandateId issuedAt key id).append blocks)

theorem proves_eq_some {resource : String} {chain : PrincipalChain}
    (h : w.proves s resource = some chain) (hheld : s.tokens.held w s.token s.caller = some l) :
    TokenService.authorized l s.caller .act resource w.clock = true := by
  rw [proves_of_held hheld] at h
  by_contra hauth
  rw [if_neg hauth] at h
  nomatch h

/-- **A token of the service does not lapse**: its authority block carries the check. -/
theorem Issued.not_lapsed (h : s.Issued) : ¬ s.Lapsed w tools := by
  rintro ⟨l, hheld, hexpired, name, -, hgate⟩
  have hissued : s.tokens.Issued s.token := h
  rw [SessionAnswers.gateOutcome] at hgate
  by_cases hvalid : isRef (prefixedTool name) "tool" = true
  · rw [if_pos hvalid] at hgate
    cases hproves : w.proves s (prefixedTool name) with
    | none =>
      rw [hproves] at hgate
      exact hgate rfl
    | some chain =>
      -- the name is valid and the token permits its resource, so its date is still to come
      refine absurd hexpired (not_le.mpr ?_)
      exact hissued.authorized_lt (s.tokens.load_of_held w s.token s.caller hheld)
        (isResourcePattern_of_isRef hvalid) (proves_eq_some hproves hheld)
  · rw [if_neg hvalid] at hgate
    exact hgate rfl

/-- **The tool catalog and the gate** agree about any list of names exactly when the token has not
lapsed; in particular they agree about every token that the service has issued. -/
theorem catalog_agrees (s : AgentSession Text) (w : SessionAnswers) (tools : List String) :
    (s.Agrees w tools ↔ ¬ s.Lapsed w tools) ∧ (s.Issued → s.Agrees w tools) :=
  ⟨agrees_iff, fun h => agrees_iff.mpr h.not_lapsed⟩

/-! ### A token without the check -/

/-- One second after the epoch, with nothing revoked and an engine that relates everything. -/
def secondOne : SessionAnswers where
  core := ⟨fun _ _ _ => true, fun _ _ _ _ _ => .ok ⟨.allow, "allowed"⟩⟩
  clock := 1000000
  revoked _ := false

theorem catalog_agrees_reader :
    readerSession.Agrees secondOne ["mail.send", "tool:mail.send", ""] :=
  (catalog_agrees readerSession secondOne ["mail.send", "tool:mail.send", ""]).2
    ⟨.aliceReader, none, none, 0, [], "", [], rfl⟩

/-- A token signed with the key of the service, whose authority block states that it expires at
the epoch and has no check. -/
def uncheckedToken : Biscuit :=
  { authorityBuilder "user:alice" "agent:a" (.fromIterable [⟨.act, "tool:*", Eq.refl true⟩]) 0 0
    none with
    checks := []
    rootKeyId := some 1 }.build TokenService.oneKey.lib [] ""

/-- Its session. -/
def uncheckedSession : AgentSession Biscuit := { readerSession with token := uncheckedToken }

/-- A catalog that agrees shows what the gate grants. -/
theorem Agrees.visible {name : String} (h : s.Agrees w tools) (hname : name ∈ tools)
    (hgrants : GateResult.outcomeOf ((s.authorize name (some [])).result w.answer) ≠ .deny) :
    ∃ c, (s.visibleTools tools none).result w.answer = .ok c ∧ name ∈ c.visible := by
  obtain ⟨c, hc, -, hall⟩ := h _ _ (Raises.run_result (S := SessionSig) w.answer _)
    (Prog.exec_answered w.gives_answer _)
  refine ⟨c, hc, ?_⟩
  exact (hall name hname _ _ (Raises.run_result (S := SessionSig) w.answer _)
    (Prog.exec_answered w.gives_answer _)).1.mpr (outcomeOf_ne_deny.mp hgrants)

/-- The catalog hides what the gate allows. -/
theorem unchecked_hidden :
    ((uncheckedSession.visibleTools ["mail.send"] none).result secondOne.answer).toOption.map
        ToolCatalog.visible = some [] ∧
      GateResult.outcomeOf
        ((uncheckedSession.authorize "mail.send" (some [])).result secondOne.answer) = .allow ∧
      ¬ uncheckedSession.Agrees secondOne ["mail.send"] := by
  have hhidden : ((uncheckedSession.visibleTools ["mail.send"] none).result
      secondOne.answer).toOption.map ToolCatalog.visible = some [] := by decide +kernel
  have hallowed : GateResult.outcomeOf ((uncheckedSession.authorize "mail.send" (some [])).result
      secondOne.answer) = .allow := by decide +kernel
  refine ⟨hhidden, hallowed, fun hagrees => ?_⟩
  have hgrants : GateResult.outcomeOf ((uncheckedSession.authorize "mail.send" (some [])).result
      secondOne.answer) ≠ .deny := by
    rw [hallowed]
    decide
  obtain ⟨c, hc, hvisible⟩ := hagrees.visible (List.mem_singleton.mpr rfl) hgrants
  rw [hc] at hhidden
  have hnil : c.visible = [] := Option.some.inj hhidden
  rw [hnil] at hvisible
  exact absurd hvisible List.not_mem_nil

end AgentSession

end HeadOfContext
