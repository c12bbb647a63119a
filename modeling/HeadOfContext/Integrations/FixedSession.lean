import HeadOfContext.Core.FixedEngine
import HeadOfContext.Integrations.Session
import HeadOfContext.Tokens.Refusals

/-!
# Sessions at a fixed clock

Where the clock, the revocation store, the engine and the policy answer by fixed functions, what a
session returns is a function of its token and of the tool. `Proves` says it for the methods of
the token service, whose only exceptions are refusals of the token, and `under_authorize` for
the gate.
-/

namespace HeadOfContext

open Effects Except

/-! ### A fixed clock, a fixed revocation state and a fixed engine -/

/-- An engine and a policy that answer by fixed functions, the reading of the clock and what the
revocation store says. -/
structure SessionAnswers where
  core : FixedAnswers
  clock : ℤ
  revoked : List String → Bool

namespace SessionAnswers

variable (w : SessionAnswers)

/-- The answers to the token service. -/
def GivesToken : Event TokenSig → Prop
  | ⟨.now, answer⟩ => answer = w.clock
  | ⟨.isRevoked ids, answer⟩ => answer = .ok (w.revoked ids)
  | _ => True

/-- The answers to the gate. The approval store works, and a channel may fail in its own way. -/
def GivesGate : Event GateSig → Prop
  | ⟨.core o, answer⟩ => w.core.Gives ⟨o, answer⟩
  | ⟨.create _, answer⟩ => answer = .ok ()
  | ⟨.notify _ _, answer⟩ => answer = .ok () ∨
      ∃ exc, answer = .error (.hoc exc) ∧ exc.cls = .approvalChannelError
  | _ => True

/-- The answers to the session. -/
def Gives : Event SessionSig → Prop
  | ⟨.token o, answer⟩ => w.GivesToken ⟨o, answer⟩
  | ⟨.gate o, answer⟩ => w.GivesGate ⟨o, answer⟩

/-- Collaborators that give these answers. -/
def answer : ∀ o, SessionSig.Res o
  | .token .now => w.clock
  | .token .uuid4 => ""
  | .token .sign => ""
  | .token (.isRevoked ids) => .ok (w.revoked ids)
  | .token (.revoke _ _ _) => .ok ()
  | .token (.record _) => .ok ()
  | .token (.check _ _ _) => .ok false
  | .token (.createMandate _) => .ok ()
  | .token (.getMandate _) => .ok none
  | .token (.updateMandate _) => .ok ()
  | .token (.listMandates _) => .ok []
  | .token (.expireActive _) => .ok []
  | .gate (.core o) => w.core.answer o
  | .gate (.create _) => .ok ()
  | .gate (.get _) => .ok none
  | .gate (.update _) => .ok ()
  | .gate (.transition _ _ _ _) => .ok none
  | .gate (.consume _ _) => .ok none
  | .gate (.listPending _) => .ok []
  | .gate (.expirePending _) => .ok 0
  | .gate (.notify _ _) => .ok ()

theorem gives_answer (o : SessionOp) : w.Gives ⟨o, w.answer o⟩ := by
  cases o with
  | token o => cases o <;> first | rfl | trivial
  | gate o =>
    cases o with
    | core o => exact w.core.gives_answer o
    | create => rfl
    | notify => exact .inl rfl
    | _ => trivial

end SessionAnswers

/-! ### What the token proves -/

/-- The method returns the value, or raises `TokenInvalid` where there is none. -/
def Proves {α : Type} (o : Option α) : Except Exn α → Prop
  | .ok a => o = some a
  | .error exn => o = none ∧ ∃ exc, exn = .hoc exc ∧ exc.cls.isTokenInvalid = true

section Proves

variable {S : Sig} {G : Event S → Prop} {α β : Type}

theorem Proves.bind {p : Raises S Exn α} {f : α → Raises S Exn β} {o : Option α}
    {k : α → Option β} (hp : Raises.Under G (Proves o) p)
    (hf : ∀ a, o = some a → Raises.Under G (Proves (k a)) (f a)) :
    Raises.Under G (Proves (o >>= k)) (p >>= f) := by
  refine Raises.Under.bind hp (fun e he => ?_) fun a ha => ?_
  · obtain ⟨hnone, hexc⟩ := he
    exact ⟨by rw [hnone]; rfl, hexc⟩
  · have hsome : o = some a := ha
    rw [hsome]
    exact hf a hsome

theorem proves_pure (a : α) : Raises.Under G (Proves (some a)) (pure a : Raises S Exn α) := rfl

theorem under_ofHoc {x : Except HocError α} (hx : RaisesOnly SaysTokenInvalid x) :
    Raises.Under G (Proves x.toOption) (Core.ofHoc x : Raises S Exn α) := by
  cases x with
  | ok a => exact rfl
  | error exc => exact ⟨rfl, exc, rfl, hx exc rfl⟩

/-- A test that raises `TokenInvalid`. -/
theorem under_raiseIf {c : Prop} [Decidable c] {exc : HocError} (hexc : SaysTokenInvalid exc) :
    Raises.Under G (Proves (guard ¬c)) (Core.ofHoc (raiseIf c exc) : Raises S Exn Unit) := by
  have hoption : (raiseIf c exc).toOption = guard ¬c := by
    unfold raiseIf
    by_cases hc : c
    · rw [if_pos hc, guard, if_neg (not_not.mpr hc)]
      rfl
    · rw [if_neg hc, guard, if_pos hc]
      rfl
  rw [← hoption]
  exact under_ofHoc (raisesOnly_raiseIf hexc)

end Proves

namespace TokenService

variable {Text : Type} (svc : TokenService Text) (w : SessionAnswers) (token : Text)
  (caller : String)

/-- The token that the caller holds, unless it is revoked. -/
def held : Option Loaded := do
  let loaded ← (load svc.lib svc.keyring token).toOption
  guard ¬w.revoked loaded.revocationIds = true
  guard ¬caller ≠ loaded.chain.actor
  return loaded

theorem load_of_held {l : Loaded} (h : svc.held w token caller = some l) :
    load svc.lib svc.keyring token = .ok l := by
  obtain ⟨l', hload, h⟩ := Option.bind_eq_some_iff.mp h
  obtain ⟨-, -, h⟩ := Option.bind_eq_some_iff.mp h
  obtain ⟨-, -, h⟩ := Option.bind_eq_some_iff.mp h
  obtain rfl := Option.some.inj h
  cases hx : load svc.lib svc.keyring token with
  | error exc => exact absurd (hx ▸ hload) (by simp [Except.toOption])
  | ok l'' =>
    rw [hx] at hload
    exact congrArg Except.ok (Option.some.inj hload)

theorem under_isRevoked (ids : List String) :
    Raises.Under w.GivesToken (fun x => ∃ b, x = .ok b ∧ b = w.revoked ids) (isRevoked ids) := by
  intro answer hanswer
  obtain rfl : answer = .ok (w.revoked ids) := hanswer
  exact ⟨_, rfl, rfl⟩

theorem under_loadHeld :
    Raises.Under w.GivesToken (Proves (svc.held w token caller)) (svc.loadHeld token caller) := by
  refine Proves.bind (under_ofHoc raisesOnly_load) fun l _ => ?_
  refine (under_isRevoked w l.revocationIds).bind_ok ?_
  rintro revoked rfl
  refine Proves.bind (under_raiseIf rfl) fun _ _ => ?_
  exact Proves.bind (under_raiseIf rfl) fun _ _ => proves_pure l

theorem under_now : Raises.Under w.GivesToken (fun x => ∃ t, x = .ok t ∧ t = w.clock) Tokens.now :=
  fun t ht => ⟨t, rfl, ht⟩

variable {svc w token caller} {operation : Kind} {resource : String} {now : ℤ} {l : Loaded}

theorem raisesOnly_authorizeOrRaise :
    RaisesOnly SaysTokenInvalid (authorizeOrRaise l caller operation resource now) := by
  unfold authorizeOrRaise
  split
  · exact raisesOnly_ok
  · split_ifs
    · exact raisesOnly_error rfl
    · exact raisesOnly_error rfl

/-- `verify` asks the authorizer as `verify_many` does. -/
theorem toOption_authorizeOrRaise :
    (authorizeOrRaise l caller operation resource now).toOption =
      guard (authorized l caller operation resource now = true) := by
  unfold authorizeOrRaise authorized
  cases (authorizer caller operation resource now).authorize l.biscuit with
  | ok u => rfl
  | error exc =>
    dsimp only
    split_ifs <;> rfl

/-- **`verify`** proves the chain of a token that is held and permits the resource. -/
theorem under_verify (svc : TokenService Text) (w : SessionAnswers) (token : Text)
    (operation : Kind) (hcaller : isRef caller "agent" = true)
    (hresource : isResourcePattern resource = true) :
    Raises.Under w.GivesToken (Proves (do
        let loaded ← svc.held w token caller
        guard (authorized loaded caller operation resource w.clock = true)
        return svc.verified token loaded))
      (svc.verify token caller operation resource) := by
  rw [verify, validateRef_eq_ok.mpr ⟨hcaller, rfl⟩,
    validateResourcePattern_eq_ok.mpr ⟨hresource, rfl⟩]
  refine Proves.bind (svc.under_loadHeld w token caller) fun l _ => ?_
  refine (under_now w).bind_ok ?_
  -- the checks of the token are asked at the one time that is given
  rintro now rfl
  rw [← toOption_authorizeOrRaise]
  exact Proves.bind (under_ofHoc raisesOnly_authorizeOrRaise) fun _ _ => proves_pure _

/-- **`inspect`** proves the chain of a token that is held and not past its expiry. -/
theorem under_inspect (hcaller : isRef caller "agent" = true) :
    Raises.Under w.GivesToken (Proves (do
        let loaded ← svc.held w token caller
        guard ¬w.clock ≥ loaded.expiresAt
        return svc.verified token loaded))
      (svc.inspect token caller) := by
  rw [inspect, validateRef_eq_ok.mpr ⟨hcaller, rfl⟩]
  refine Proves.bind (svc.under_loadHeld w token caller) fun l _ => ?_
  refine (under_now w).bind_ok ?_
  rintro now rfl
  exact Proves.bind (under_raiseIf rfl) fun _ _ => proves_pure _

/-- The answers of `verify_many`, one for each distinct resource. -/
def answersFor (l : Loaded) (caller : String) (operation : Kind) (now : ℤ)
    (resources : List String) : List (String × Bool) :=
  resources.map fun r => (r, authorized l caller operation r now)

theorem lookup_answersFor {resources : List String} {r : String} (hr : r ∈ resources) :
    (answersFor l caller operation now resources).lookup r =
      some (authorized l caller operation r now) := by
  induction resources with
  | nil => exact absurd hr List.not_mem_nil
  | cons r' resources ih =>
    rw [answersFor, List.map_cons]
    by_cases heq : r = r'
    · rw [heq]
      exact List.lookup_cons_self
    · rw [List.lookup_cons, beq_false_of_ne heq]
      exact ih ((List.mem_cons.mp hr).resolve_left heq)

theorem permitsLoop_eq {permits : List (String × Bool)} {resources : List String}
    (hvalid : ∀ r ∈ resources, isResourcePattern r = true)
    (hnew : ∀ r ∈ resources, permits.lookup r = none) (hnodup : resources.Nodup) :
    permitsLoop l caller operation now permits resources =
      .ok (permits ++ answersFor l caller operation now resources) := by
  induction resources generalizing permits with
  | nil => exact congrArg Except.ok (List.append_nil _).symm
  | cons r resources ih =>
    obtain ⟨hhead, htail⟩ := List.forall_mem_cons.mp hvalid
    obtain ⟨hr, hrest⟩ := List.forall_mem_cons.mp hnew
    obtain ⟨hnot, hnodup⟩ := List.nodup_cons.mp hnodup
    have hnext : ∀ r' ∈ resources,
        (permits ++ [(r, authorized l caller operation r now)]).lookup r' = none := by
      intro r' hr'
      have hne : r' ≠ r := fun heq => hnot (heq ▸ hr')
      rw [List.lookup_append, hrest r' hr', List.lookup_cons, beq_false_of_ne hne]
      rfl
    rw [permitsLoop, hr, if_neg (by simp), validateResourcePattern_eq_ok.mpr ⟨hhead, rfl⟩]
    refine (ih htail hnext hnodup).trans ?_
    rw [List.append_assoc]
    rfl

/-- **`verify_many`** proves what `inspect` proves, and answers for every resource. -/
theorem under_verifyMany {resources : List String} (hcaller : isRef caller "agent" = true)
    (hvalid : ∀ r ∈ resources, isResourcePattern r = true) (hnodup : resources.Nodup) :
    Raises.Under w.GivesToken (Proves (do
        let loaded ← svc.held w token caller
        guard ¬w.clock ≥ loaded.expiresAt
        return (svc.verified token loaded, answersFor loaded caller operation w.clock resources)))
      (svc.verifyMany token caller operation resources) := by
  rw [verifyMany, validateRef_eq_ok.mpr ⟨hcaller, rfl⟩]
  refine Proves.bind (svc.under_loadHeld w token caller) fun l _ => ?_
  refine (under_now w).bind_ok ?_
  rintro now rfl
  refine Proves.bind (under_raiseIf rfl) fun _ _ => ?_
  rw [permitsLoop_eq hvalid (fun _ _ => rfl) hnodup]
  exact proves_pure _

end TokenService

/-! ### What the gate decides -/

namespace ActionGate

variable {w : SessionAnswers} {G : ActionGate}

theorem under_core {α : Type} {p : Core α} {Q : Except Exn α → Prop}
    (hp : Raises.Under w.core.Gives Q p) : Raises.Under w.GivesGate Q (Gated.core p) :=
  hp.embed fun _ _ h => h

theorem under_record (event : AuditEvent) :
    Raises.Under w.GivesGate (fun x => ∃ u, x = .ok u ∧ u = ()) (Gated.record event) :=
  fun _ hanswer => ⟨(), hanswer, rfl⟩

theorem under_recordEvent {kind : EventKind} {request : ApprovalRequest} {outcome reason : String} :
    Raises.Under w.GivesGate (fun x => ∃ u, x = .ok u ∧ u = ())
      (recordEvent kind request outcome reason) :=
  fun _ _ _ _ => under_record _

/-- The channels are told, or their failures journaled. -/
theorem under_notify {request : ApprovalRequest} {channels : List String} :
    Raises.Under w.GivesGate (fun x => ∃ u, x = .ok u ∧ u = ()) (notify request channels) := by
  induction channels with
  | nil => exact Raises.under_pure ⟨(), rfl, rfl⟩
  | cons channel rest ih =>
    rw [notify]
    rintro answer (rfl | ⟨exc, rfl, hexc⟩)
    · exact ih
    · change Raises.Under _ _ (if exc.cls = .approvalChannelError then _ else _)
      rw [if_pos hexc]
      exact under_recordEvent.bind_ok fun _ _ => ih

/-- **`gate`** decides as the decider does, and parks what needs approval. -/
theorem under_gate {chain : PrincipalChain} {tool : String} {args : Option Args}
    (htool : isRef tool "tool" = true) :
    Raises.Under w.GivesGate (fun x => ∃ g, x = .ok g ∧
        g.decision.outcome =
          w.core.outcome G.decider chain .invoke tool (args.getD []) .none)
      (G.gate chain tool args) := by
  rw [gate, validateRef_eq_ok.mpr ⟨htool, rfl⟩]
  refine (under_core (Decider.under_decide (isResourcePattern_of_isRef htool)
    (some (args.getD [])) none)).bind_ok fun decision hdecision => ?_
  change Raises.Under _ _ (if decision.outcome ≠ .requireApproval then _ else _)
  by_cases hpending : decision.outcome ≠ .requireApproval
  · rw [if_pos hpending]
    exact Raises.under_pure ⟨_, rfl, hdecision⟩
  · rw [if_neg hpending]
    intro now _ requestId _ answer hanswer
    obtain rfl : answer = .ok () := hanswer
    refine under_recordEvent.bind_ok fun _ _ => under_notify.bind_ok fun _ _ => ?_
    exact Raises.under_pure ⟨_, rfl, hdecision⟩

end ActionGate

/-! ### What the session returns -/

namespace SessionAnswers

variable {Text : Type} (w : SessionAnswers) (s : AgentSession Text)

/-- The chain that the token proves for a resource. -/
def proves (resource : String) : Option PrincipalChain := do
  let loaded ← s.tokens.held w s.token s.caller
  guard (TokenService.authorized loaded s.caller .act resource w.clock = true)
  return loaded.chain

/-- The outcome of the gate for a name, DENY for a name that is not valid and for a resource that
the token does not permit. -/
def gateOutcome (name : String) : Outcome :=
  if isRef (prefixedTool name) "tool" then
    match w.proves s (prefixedTool name) with
    | some chain =>
      w.core.outcome s.gate.decider chain .invoke (prefixedTool name) [] .none
    | none => .deny
  else .deny

end SessionAnswers

/-- The outcome of a call of the gate: an exception denies. -/
def GateResult.outcomeOf : Except Exn GateResult → Outcome
  | .ok g => g.decision.outcome
  | .error _ => .deny

namespace AgentSession

variable {Text : Type} (s : AgentSession Text) (w : SessionAnswers)

theorem under_tokens {α : Type} {p : Tokens α} {Q : Except Exn α → Prop}
    (hp : Raises.Under w.GivesToken Q p) : Raises.Under w.Gives Q (Sessions.tokens p) :=
  hp.embed fun _ _ h => h

theorem under_gated {α : Type} {p : Gated α} {Q : Except Exn α → Prop}
    (hp : Raises.Under w.GivesGate Q p) : Raises.Under w.Gives Q (Sessions.gated p) :=
  hp.embed fun _ _ h => h

/-- A refused token is journaled, and the call raises. -/
theorem under_refuse {α : Type} (resource : String) (exc : HocError) :
    Raises.Under w.GivesGate (fun x => ∃ exn, x = .error exn)
      (s.refuse resource exc : Gated α) := by
  intro at_ _ eventId _ answer hanswer
  obtain rfl : answer = .ok () := hanswer
  exact ⟨_, rfl⟩

/-- `_verify` returns the chain that the token proves, and raises where there is none. -/
theorem under_verify {resource : String} (hresource : isResourcePattern resource = true) :
    Raises.Under w.Gives (fun x => (∃ c, w.proves s resource = some c ∧ x = .ok c) ∨
        w.proves s resource = none ∧ ∃ exn, x = .error exn)
      (s.verify resource) := by
  have hchain : w.proves s resource = (do
      let loaded ← s.tokens.held w s.token s.caller
      guard (TokenService.authorized loaded s.caller .act resource w.clock = true)
      return s.tokens.verified s.token loaded).map VerifiedToken.chain := by
    rw [SessionAnswers.proves]
    cases s.tokens.held w s.token s.caller with
    | none => rfl
    | some l =>
      by_cases hauth : TokenService.authorized l s.caller .act resource w.clock = true
      · simp [guard, hauth, TokenService.verified]
      · simp [guard, hauth]
  have hverify := under_tokens w
    (s.tokens.under_verify w s.token .act s.caller_isRef hresource)
  rw [verify, hchain]
  refine hverify.attempt.bind_ok fun answer hanswer => ?_
  cases answer with
  | ok verified =>
    have hsome : _ = some verified := hanswer
    rw [hsome]
    exact Raises.under_pure (.inl ⟨_, rfl, rfl⟩)
  | error exn =>
    obtain ⟨hnone, exc, rfl, hexc⟩ := hanswer
    rw [hnone]
    change Raises.Under _ _ (if exc.cls.isTokenInvalid = true then _ else _)
    rw [if_pos hexc]
    exact (under_gated w (s.under_refuse w resource exc)).mono fun x hx => .inr ⟨rfl, hx⟩

/-- **`authorize`** has the outcome of the gate. -/
theorem under_authorize (name : String) :
    Raises.Under w.Gives (fun x => GateResult.outcomeOf x = w.gateOutcome s name)
      (s.authorize name (some [])) := by
  rw [authorize, SessionAnswers.gateOutcome]
  by_cases hname : isRef (prefixedTool name) "tool" = true
  · rw [if_pos hname, toolResource_eq_ok.mpr ⟨hname, rfl⟩]
    change Raises.Under _ _ (s.verify (prefixedTool name) >>= _)
    refine Raises.Under.bind (s.under_verify w (isResourcePattern_of_isRef hname)) ?_ ?_
    · rintro exn (⟨c, -, heq⟩ | ⟨hnone, -⟩)
      · nomatch heq
      · rw [hnone]
        rfl
    · -- the token proves its chain, and the gate decides for that chain
      rintro chain (⟨c, hsome, heq⟩ | ⟨-, exn, heq⟩)
      · obtain rfl := Except.ok.inj heq
        rw [hsome]
        refine (under_gated w (ActionGate.under_gate hname)).mono ?_
        rintro x ⟨g, rfl, hg⟩
        exact hg
      · nomatch heq
  · rw [if_neg hname]
    have herror : ∃ exc, toolResource name = .error exc := by
      cases hresource : toolResource name with
      | ok r => exact absurd (toolResource_eq_ok.mp hresource).1 hname
      | error exc => exact ⟨exc, rfl⟩
    obtain ⟨exc, hexc⟩ := herror
    rw [hexc]
    rfl

end AgentSession

end HeadOfContext
