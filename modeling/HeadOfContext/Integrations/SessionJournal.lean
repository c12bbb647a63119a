import HeadOfContext.Actions.GateJournal
import HeadOfContext.Integrations.Session
import HeadOfContext.Tokens.Refusals
import HeadOfContext.Tokens.Revocation

/-!
# When a session denies silently

A call of a session is refused at five layers: the name of the tool, the token, the revocation
store, the scope and the engine, and the gate. Each layer has exceptions of its own, and only
some of them pass by the code that journals. `Escapes` lists the answers whose exceptions do not;
`never_silent_iff` says that a call accounts for its outcome exactly when its tool has a valid
name and it meets none of them.
-/

namespace HeadOfContext

open Effects Except

/-! ### Reading a run -/

namespace SessionOp

/-- The audit sink accepted a decision that denies the resource. -/
def denies (resource : String) : Event SessionSig → Bool
  | ⟨.gate o, r⟩ => GateOp.denies resource ⟨o, r⟩
  | ⟨.token (.record e), .ok ()⟩ => e.isDenial resource
  | _ => false

/-- The audit sink failed. -/
def SinkFails : Event SessionSig → Prop
  | ⟨.gate o, r⟩ => GateOp.SinkFails ⟨o, r⟩
  | ⟨.token (.record _), .error _⟩ => True
  | _ => False

/-- **An exception that the session lets pass**: one of the gate, or a typed error of the
revocation store that is no `TokenInvalid`. -/
def Escapes : Event SessionSig → Prop
  | ⟨.gate o, r⟩ => GateOp.Escapes ⟨o, r⟩
  | ⟨.token (.isRevoked _), .error (.hoc exc)⟩ => exc.cls.isTokenInvalid = false
  | _ => False

/-- The audit sink accepted the event of the decision. -/
def Records (d : Decision) : Event SessionSig → Prop
  | ⟨.gate o, r⟩ => GateOp.Records d ⟨o, r⟩
  | _ => False

end SessionOp

open SessionOp

/-- The audit sink failed in the run. -/
def SinkFailed (tr : Trace SessionSig) : Prop := ∃ e ∈ tr, SinkFails e

/-- **A call about `tool` accounts for its outcome**: the decision that it returns is journaled,
or it raises after one denial of the tool was. -/
def Accounted {α : Type} (decision : α → Decision) (tool : String) (tr : Trace SessionSig) :
    Except Exn α → Prop
  | .ok a => ∃ e ∈ tr, Records (decision a) e
  | .error _ => (tr.filter (denies (prefixedTool tool))).length = 1

/-- The tool has a valid name, and no exception passes by the code that journals. -/
def Heard (tool : String) (tr : Trace SessionSig) : Prop :=
  isRef (prefixedTool tool) "tool" = true ∧ ∀ e ∈ tr, ¬ Escapes e

/-! ### What the token service raises -/

/-- A typed error of the revocation store that is no `TokenInvalid`. -/
def TokenOp.Escapes : Event TokenSig → Prop
  | ⟨.isRevoked _, .error (.hoc exc)⟩ => exc.cls.isTokenInvalid = false
  | _ => False

namespace TokenService

section Fair

variable {α β : Type}

/-- What a method of the token service raises: `TokenInvalid`, or the typed error it has met. -/
def Fair (tr : Trace TokenSig) : Except Exn α → Prop
  | .ok _ => ∀ e ∈ tr, ¬ TokenOp.Escapes e
  | .error x => ∃ exc, x = .hoc exc ∧
      ((exc.cls.isTokenInvalid = true ∧ ∀ e ∈ tr, ¬ TokenOp.Escapes e) ∨
        exc.cls.isTokenInvalid = false ∧ ∃ e ∈ tr, TokenOp.Escapes e)

/-- Every run of the program is fair. -/
def IsFair (p : Tokens α) : Prop := ∀ tr r, Raises.Run p tr r → Fair tr r

theorem isFair_pure (a : α) : IsFair (Pure.pure a : Tokens α) := by
  intro tr r h
  obtain ⟨rfl, rfl⟩ := Raises.run_pure.mp h
  exact fun e he => absurd he List.not_mem_nil

theorem isFair_ofHoc {x : Except HocError α} (hx : RaisesOnly SaysTokenInvalid x) :
    IsFair (Core.ofHoc x : Tokens α) := by
  intro tr r h
  obtain ⟨rfl, rfl⟩ := Raises.run_ofExcept.mp h
  cases x with
  | ok a => exact fun e he => absurd he List.not_mem_nil
  | error exc => exact ⟨exc, rfl, .inl ⟨hx exc rfl, fun e he => absurd he List.not_mem_nil⟩⟩

theorem isFair_now : IsFair Tokens.now := by
  intro tr r h
  obtain ⟨t, tr', rfl, h'⟩ := Prog.run_call.mp h
  obtain ⟨rfl, rfl⟩ := Prog.run_ret.mp h'
  intro e he hescapes
  obtain rfl := List.mem_singleton.mp he
  exact hescapes

theorem isFair_isRevoked {ids : List String} : IsFair (isRevoked ids) := by
  intro tr r h
  obtain ⟨answer, tr', rfl, h'⟩ := Prog.run_call.mp h
  -- the store answers, refuses as it may, or fails with an exception of its own
  match answer with
  | .ok revoked =>
    obtain ⟨rfl, rfl⟩ := Prog.run_ret.mp h'
    intro e he hescapes
    obtain rfl := List.mem_singleton.mp he
    exact hescapes
  | .error (.hoc exc) =>
    obtain ⟨rfl, rfl⟩ := Prog.run_ret.mp h'
    refine ⟨exc, rfl, ?_⟩
    cases hcls : exc.cls.isTokenInvalid with
    | true =>
      refine .inl ⟨rfl, fun e he hescapes => ?_⟩
      obtain rfl := List.mem_singleton.mp he
      have hfalse : exc.cls.isTokenInvalid = false := hescapes
      exact absurd (hcls.symm.trans hfalse) (by decide)
    | false => exact .inr ⟨rfl, _, List.mem_singleton.mpr rfl, hcls⟩
  | .error (.other name) =>
    obtain ⟨rfl, rfl⟩ := Prog.run_ret.mp h'
    refine ⟨_, rfl, .inl ⟨rfl, fun e he hescapes => ?_⟩⟩
    obtain rfl := List.mem_singleton.mp he
    exact hescapes

theorem IsFair.bind {p : Tokens α} {f : α → Tokens β} (hp : IsFair p) (hf : ∀ a, IsFair (f a)) :
    IsFair (p >>= f) := by
  intro tr r h
  rcases Raises.run_bind.mp h with ⟨x, h₁, rfl⟩ | ⟨a, tr₁, tr₂, rfl, h₁, h₂⟩
  · exact hp tr _ h₁
  · have hclean : ∀ e ∈ tr₁, ¬ TokenOp.Escapes e := hp tr₁ _ h₁
    match r, hf a tr₂ r h₂ with
    | .ok b, hrest => exact List.forall_mem_append.mpr ⟨hclean, hrest⟩
    | .error x, ⟨exc, hexc, .inl ⟨hcls, hrest⟩⟩ =>
      exact ⟨exc, hexc, .inl ⟨hcls, List.forall_mem_append.mpr ⟨hclean, hrest⟩⟩⟩
    | .error x, ⟨exc, hexc, .inr ⟨hcls, e, he, hescapes⟩⟩ =>
      exact ⟨exc, hexc, .inr ⟨hcls, e, List.mem_append_right _ he, hescapes⟩⟩

end Fair

variable {Text : Type} {svc : TokenService Text} {token : Text} {caller : String}

theorem isFair_loadHeld : IsFair (svc.loadHeld token caller) :=
  .bind (isFair_ofHoc raisesOnly_load) fun _ => .bind isFair_isRevoked fun _ =>
    .bind (isFair_ofHoc (raisesOnly_raiseIf rfl)) fun _ =>
      .bind (isFair_ofHoc (raisesOnly_raiseIf rfl)) fun _ => isFair_pure _

/-- A holder who asks about a valid resource meets `TokenInvalid`, or a typed error of the
revocation store. -/
theorem isFair_verify {operation : Kind} {resource : String} (hcaller : isRef caller "agent" = true)
    (hresource : isResourcePattern resource = true) :
    IsFair (svc.verify token caller operation resource) := by
  have hagent : validateRef caller "agent" = .ok caller := validateRef_eq_ok.mpr ⟨hcaller, rfl⟩
  have hpattern : validateResourcePattern resource = .ok resource :=
    validateResourcePattern_eq_ok.mpr ⟨hresource, rfl⟩
  unfold verify
  rw [hagent, hpattern]
  refine .bind (isFair_ofHoc raisesOnly_ok) fun _ => .bind (isFair_ofHoc raisesOnly_ok) fun _ => ?_
  refine .bind isFair_loadHeld fun l => .bind isFair_now fun now => ?_
  refine .bind (isFair_ofHoc fun e he => ?_) fun _ => isFair_pure _
  rw [SaysTokenInvalid, authorizeOrRaise_error he]
  rfl

/-- A call that journals nothing. -/
def Unjournaled : TokenOp → Prop
  | .record _ => False
  | _ => True

theorem unjournaled_verify {operation : Kind} {resource : String} :
    Raises.Calls (S := TokenSig) Unjournaled (svc.verify token caller operation resource) := by
  have hasks : ∀ ids, Raises.Calls (S := TokenSig) Unjournaled (isRevoked ids) := by
    intro ids
    refine .bind (.attempt (Raises.calls_invoke trivial)) fun answer => ?_
    match answer with
    | .ok _ => exact Raises.calls_pure _
    | .error (.hoc _) => exact Raises.calls_raise _
    | .error (.other _) => exact Raises.calls_raise _
  have hheld : Raises.Calls (S := TokenSig) Unjournaled (svc.loadHeld token caller) :=
    .bind calls_ofHoc fun _ => .bind (hasks _) fun _ => .bind calls_ofHoc fun _ =>
      .bind calls_ofHoc fun _ => Raises.calls_pure _
  exact .bind calls_ofHoc fun _ => .bind calls_ofHoc fun _ => .bind hheld fun _ =>
    .bind (Raises.calls_lift_invoke trivial) fun _ => .bind calls_ofHoc fun _ => Raises.calls_pure _

end TokenService

/-! ### The session -/

namespace AgentSession

variable {Text : Type} {s : AgentSession Text} {tool resource : String}

/-- Neither sink nor store fails the call. -/
def Clean (tr : Trace SessionSig) : Prop := ∀ e ∈ tr, ¬ SinkFails e ∧ ¬ Escapes e

/-- **What `_verify` journals.** -/
theorem verify_run {tr : Trace SessionSig} {r : Except Exn PrincipalChain}
    (hresource : isRef resource "tool" = true) (h : Raises.Run (s.verify resource) tr r) :
    (∀ chain, r = .ok chain → Clean tr ∧ tr.filter (denies resource) = []) ∧
      ∀ x, r = .error x → SinkFailed tr ∨
        (Clean tr ∧ (tr.filter (denies resource)).length = 1) ∨
        ((∃ e ∈ tr, Escapes e) ∧ (∀ e ∈ tr, ¬ SinkFails e) ∧ tr.filter (denies resource) = []) := by
  unfold verify at h
  rcases Raises.run_bind.mp h with ⟨x, h₁, -⟩ | ⟨answer, tr₁, tr₂, rfl, h₁, h₂⟩
  · -- handing the exception over as a value never raises
    obtain ⟨r', tr', tr'', rfl, -, h'⟩ := Prog.run_bind.mp h₁
    exact absurd (Prog.run_ret.mp h').2 (by simp)
  obtain ⟨tr₀, rfl, hverify⟩ := Sessions.run_tokens.mp (Raises.run_attempt_ok.mp h₁)
  have hfair := TokenService.isFair_verify s.caller_isRef (isResourcePattern_of_isRef hresource)
    tr₀ answer hverify
  have hquiet : ∀ e ∈ tr₀.map Sessions.ofToken, ¬ SinkFails e ∧ denies resource e = false := by
    intro e he
    obtain ⟨e₀, he₀, rfl⟩ := List.mem_map.mp he
    have hcall := TokenService.unjournaled_verify.of_run hverify he₀
    obtain ⟨o, r⟩ := e₀
    cases o with
    | record e => exact hcall.elim
    | _ => exact ⟨id, rfl⟩
  have hnone : (tr₀.map Sessions.ofToken).filter (denies resource) = [] := by
    refine List.filter_eq_nil_iff.mpr fun e he => ?_
    rw [(hquiet e he).2]
    exact Bool.false_ne_true
  have hescapes : ∀ {e}, Escapes (Sessions.ofToken e) ↔ TokenOp.Escapes e := by
    rintro ⟨o, r⟩
    cases o with
    | isRevoked ids =>
      match r with
      | .ok b => exact Iff.rfl
      | .error (.hoc exc) => exact Iff.rfl
      | .error (.other name) => exact Iff.rfl
    | _ => exact Iff.rfl
  have hclean : (∀ e ∈ tr₀, ¬ TokenOp.Escapes e) → Clean (tr₀.map Sessions.ofToken) := by
    intro hall e he
    obtain ⟨e₀, he₀, rfl⟩ := List.mem_map.mp he
    exact ⟨(hquiet _ he).1, fun h => hall e₀ he₀ (hescapes.mp h)⟩
  match answer, hfair with
  | .ok verified, hall =>
    obtain ⟨rfl, rfl⟩ := Raises.run_pure.mp h₂
    rw [List.append_nil]
    exact ⟨fun _ _ => ⟨hclean hall, hnone⟩, fun x hx => (nomatch hx)⟩
  | .error x, ⟨exc, hx, .inr ⟨hcls, e, he, hesc⟩⟩ =>
    -- the typed error passes by the handler
    subst hx
    change Raises.Run (if exc.cls.isTokenInvalid = true then _ else _) tr₂ r at h₂
    rw [if_neg (by rw [hcls]; decide)] at h₂
    obtain ⟨rfl, rfl⟩ := Raises.run_raise.mp h₂
    rw [List.append_nil]
    refine ⟨fun _ hok => (nomatch hok), fun _ _ =>
      .inr (.inr ⟨⟨_, List.mem_map_of_mem he, ?_⟩, ?_, hnone⟩)⟩
    · exact hescapes.mpr hesc
    · exact fun e he => (hquiet e he).1
  | .error x, ⟨exc, hx, .inl ⟨hcls, hall⟩⟩ =>
    subst hx
    change Raises.Run (if exc.cls.isTokenInvalid = true then _ else _) tr₂ r at h₂
    rw [if_pos hcls] at h₂
    obtain ⟨tr₃, rfl, hrefuse⟩ := Sessions.run_gated.mp h₂
    obtain ⟨at_, tr₄, rfl, h₄⟩ := Prog.run_call.mp hrefuse
    obtain ⟨eventId, tr₅, rfl, h₅⟩ := Prog.run_call.mp h₄
    obtain ⟨accepted, tr₆, rfl, h₆⟩ := Prog.run_call.mp h₅
    match accepted with
    | .error x =>
      obtain ⟨rfl, rfl⟩ := Prog.run_ret.mp h₆
      refine ⟨fun _ hok => (nomatch hok), fun _ _ => .inl ?_⟩
      refine ⟨⟨.gate (.core (.record (s.refusedEvent resource exc.reason at_ eventId))), .error x⟩,
        ?_, trivial⟩
      exact List.mem_append_right _ (by simp [Sessions.ofGate])
    | .ok () =>
      obtain ⟨rfl, rfl⟩ := Prog.run_ret.mp h₆
      refine ⟨fun _ hok => (nomatch hok), fun _ _ => .inr (.inl ⟨?_, ?_⟩)⟩
      · refine List.forall_mem_append.mpr ⟨hclean hall, ?_⟩
        intro e he
        rcases List.mem_map.mp he with ⟨e₀, he₀, rfl⟩
        simp only [List.mem_cons, List.not_mem_nil, or_false] at he₀
        rcases he₀ with rfl | rfl | rfl
        · exact ⟨id, id⟩
        · exact ⟨id, id⟩
        · exact ⟨id, id⟩
      · rw [List.filter_append, hnone, List.nil_append]
        have hdenial : (s.refusedEvent resource exc.reason at_ eventId).isDenial resource =
            true := by
          simp [AuditEvent.isDenial, refusedEvent, isText, Outcome.str]
        simp [Sessions.ofGate, denies, GateOp.denies, hdenial]

/-- What a gate program leaves behind, inside the session. -/
theorem gated_run {α : Type} {p : Gated α} {decision : α → Decision} {tr : Trace SessionSig}
    {r : Except Exn α} (hstops : Raises.StopsAt ActionGate.Trips p)
    (hhushed : ActionGate.Hushed resource p)
    (hjournals : ∀ tr a, Raises.Run p tr (.ok a) →
      ∃ e ∈ tr, GateOp.Records (decision a) e)
    (h : Raises.Run (Sessions.gated p) tr r) :
    (∀ a, r = .ok a → Clean tr ∧ ∃ e ∈ tr, Records (decision a) e) ∧
      ∀ x, r = .error x → SinkFailed tr ∨
        ((∃ e ∈ tr, Escapes e) ∧ tr.filter (denies resource) = []) := by
  obtain ⟨tr₀, rfl, h₀⟩ := Sessions.run_gated.mp h
  obtain ⟨hok, herror⟩ := hstops.run h₀
  constructor
  · rintro a rfl
    obtain ⟨e, he, hrecords⟩ := hjournals tr₀ a h₀
    refine ⟨fun e' he' => ?_, _, List.mem_map_of_mem he, hrecords⟩
    obtain ⟨e₀, he₀, rfl⟩ := List.mem_map.mp he'
    exact ⟨fun hsink => hok a rfl e₀ he₀ (.inl hsink), fun hesc => hok a rfl e₀ he₀ (.inr hesc)⟩
  · -- the program stops at the first call that trips, so nothing is journaled after it
    rintro x rfl
    rcases hhushed tr₀ x h₀ with ⟨e, he, hsink⟩ | hnone
    · exact .inl ⟨_, List.mem_map_of_mem he, hsink⟩
    obtain ⟨pre, e, rfl, -, hsink | hesc⟩ := herror x rfl
    · exact .inl ⟨Sessions.ofGate e, by simp, hsink⟩
    · refine .inr ⟨⟨Sessions.ofGate e, by simp, hesc⟩, ?_⟩
      have hcomp : denies resource ∘ Sessions.ofGate = GateOp.denies resource := rfl
      rw [List.filter_map, hcomp, hnone]
      rfl

/-- A call of a session: check the name, verify the token, and run the gate. -/
theorem accounted_iff {α : Type} {decision : α → Decision} {p : String → PrincipalChain → Gated α}
    (hstops : ∀ resource chain, isRef resource "tool" = true →
      Raises.StopsAt ActionGate.Trips (p resource chain))
    (hhushed : ∀ resource chain, isRef resource "tool" = true →
      ActionGate.Hushed resource (p resource chain))
    (hjournals : ∀ resource chain tr a, Raises.Run (p resource chain) tr (.ok a) →
      ∃ e ∈ tr, GateOp.Records (decision a) e)
    {tr : Trace SessionSig} {r : Except Exn α}
    (h : Raises.Run (Core.ofHoc (toolResource tool) >>= fun resource =>
      s.verify resource >>= fun chain => Sessions.gated (p resource chain)) tr r) :
    (SinkFailed tr ∨ Accounted decision tool tr r) ↔ (SinkFailed tr ∨ Heard tool tr) := by
  refine or_congr_right' fun hsink => ?_
  rcases Raises.run_bind.mp h with ⟨x, h₁, rfl⟩ | ⟨resource, tr₁, tr₂, rfl, h₁, h₂⟩
  · -- the name is refused
    obtain ⟨rfl, hx⟩ := Raises.run_ofExcept.mp h₁
    refine ⟨fun hone => absurd hone (by simp [Accounted]), fun hheard => ?_⟩
    have hok : toolResource tool = .ok (prefixedTool tool) :=
      toolResource_eq_ok.mpr ⟨hheard.1, rfl⟩
    rw [hok] at hx
    exact nomatch hx
  -- the name is a tool, so it is heard exactly when no exception escapes
  obtain ⟨rfl, hresource⟩ := Core.run_ofHoc_ok.mp h₁
  obtain ⟨htool, rfl⟩ := toolResource_eq_ok.mp hresource
  rw [List.nil_append] at hsink ⊢
  have hheard : Heard tool tr₂ ↔ ∀ e ∈ tr₂, ¬ Escapes e := and_iff_right htool
  rw [hheard]
  rcases Raises.run_bind.mp h₂ with ⟨x, h₃, rfl⟩ | ⟨chain, tr₃, tr₄, rfl, h₃, h₄⟩
  · -- the token is not accepted
    rcases (verify_run htool h₃).2 x rfl with hfailed | ⟨hclean, hone⟩ | ⟨⟨e, he, hesc⟩, -, hnone⟩
    · exact absurd hfailed hsink
    · exact iff_of_true hone fun e he => (hclean e he).2
    · refine iff_of_false (fun hone => ?_) fun hall => hall e he hesc
      have hlength : (tr₂.filter (denies (prefixedTool tool))).length = 1 := hone
      rw [hnone] at hlength
      exact absurd hlength (by simp)
  · -- the token is accepted, and the gate decides
    obtain ⟨hclean, hnone⟩ := (verify_run htool h₃).1 chain rfl
    obtain ⟨hok, herror⟩ := gated_run (hstops _ chain htool) (hhushed _ chain htool)
      (hjournals _ chain) h₄
    cases r with
    | ok a =>
      obtain ⟨hclean', e, he, hrecords⟩ := hok a rfl
      refine iff_of_true ⟨e, List.mem_append_right _ he, hrecords⟩ ?_
      exact List.forall_mem_append.mpr ⟨fun e he => (hclean e he).2, fun e he => (hclean' e he).2⟩
    | error x =>
      rcases herror x rfl with ⟨e, he, hfails⟩ | ⟨⟨e, he, hesc⟩, hnone'⟩
      · exact absurd ⟨e, List.mem_append_right _ he, hfails⟩ hsink
      · refine iff_of_false (fun hone => ?_) fun hall => hall e (List.mem_append_right _ he) hesc
        have hlength : ((tr₃ ++ tr₄).filter (denies (prefixedTool tool))).length = 1 := hone
        rw [List.filter_append, hnone, hnone'] at hlength
        exact absurd hlength (by simp)

/-- **When a session denies silently.** Whatever its collaborators answer, and unless the audit
sink fails, a call returns a decision that is journaled, or raises after exactly one denial of
the tool was, if and only if the tool has a valid name, the revocation store raises no typed
error but `TokenInvalid`, and neither the approval store nor a channel raises. -/
theorem never_silent_iff (s : AgentSession Text) (tool : String) (args : Option Args) :
    (∀ tr r, Raises.Run (s.authorize tool args) tr r →
      ((SinkFailed tr ∨ Accounted GateResult.decision tool tr r) ↔
        (SinkFailed tr ∨ Heard tool tr))) ∧
    ∀ requestId tr r, Raises.Run (s.redeem requestId tool args) tr r →
      ((SinkFailed tr ∨ Accounted id tool tr r) ↔ (SinkFailed tr ∨ Heard tool tr)) := by
  constructor
  · intro tr r h
    refine accounted_iff (p := fun resource chain => s.gate.gate chain resource args)
      (fun resource chain htool => ?_) (fun resource chain _ => ?_)
      (fun resource chain tr a => ?_) h
    · exact ActionGate.stopsAt_gate htool
    · exact ActionGate.hushed_gate
    · exact ActionGate.gate_journals
  · intro requestId tr r h
    refine accounted_iff
      (p := fun resource chain => s.gate.redeem chain requestId args (some resource))
      (fun resource chain htool => ?_) (fun resource chain htool => ?_)
      (fun resource chain tr a => ?_) h
    · exact ActionGate.stopsAt_redeem htool
    · exact ActionGate.hushed_redeem htool
    · exact ActionGate.redeem_journals

/-! ### A silent refusal -/

/-- `agent:a` holds `readerToken`, and its gate has no channels. -/
def readerSession : AgentSession Biscuit :=
  ⟨TokenService.readerToken, "agent:a", TokenService.oneKey,
    ⟨Decider.guarded, 3600000000, false, []⟩,
    [], by decide⟩

/-- Collaborators that answer at the instant 0, with the answer of the revocation store. -/
def answeringAt (revoked : Except Exn Bool) : ∀ o, SessionSig.Res o
  | .token .now => (0 : ℤ)
  | .token .uuid4 => ""
  | .token .sign => ""
  | .token (.isRevoked _) => revoked
  | .token (.revoke _ _ _) => .ok ()
  | .token (.record _) => .ok ()
  | .token (.check _ _ _) => .ok true
  | .token (.createMandate _) => .ok ()
  | .token (.getMandate _) => .ok none
  | .token (.updateMandate _) => .ok ()
  | .token (.listMandates _) => .ok []
  | .token (.expireActive _) => .ok []
  | .gate (.core .now) => (0 : ℤ)
  | .gate (.core .uuid4) => ""
  | .gate (.core .elapsedMs) => zeroMs
  | .gate (.core (.check _ _ _)) => .ok true
  | .gate (.core (.batchCheck _ _)) => .ok []
  | .gate (.core (.policy _ _ _ _ _)) => .ok ⟨.allow, ""⟩
  | .gate (.core (.record _)) => .ok ()
  | .gate (.create _) => .ok ()
  | .gate (.get _) => .ok none
  | .gate (.update _) => .ok ()
  | .gate (.transition _ _ _ _) => .ok none
  | .gate (.consume _ _) => .ok none
  | .gate (.listPending _) => .ok []
  | .gate (.expirePending _) => .ok 0
  | .gate (.notify _ _) => .ok ()

/-- The event asks the revocation store. -/
def asksRevocations : Event SessionSig → Bool
  | ⟨.token (.isRevoked _), _⟩ => true
  | _ => false

/-- The exception of a `PostgresRevocationStore` without its database. -/
def storeUnavailable : Except Exn Bool :=
  .error (.hoc (HocClass.revocationStoreUnavailable.error "revocation lookup failed"))

/-- A run that only asks the revocation store, and raises, has not accounted for its outcome. -/
theorem not_accounted {tr : Trace SessionSig} {r : Except Exn GateResult} {tool : String}
    (hasks : tr.all asksRevocations = true) (hraises : r.returns (fun _ => true) = false) :
    ¬ (SinkFailed tr ∨ Accounted GateResult.decision tool tr r) := by
  have hasked : ∀ e ∈ tr, ¬ SinkFails e ∧ denies (prefixedTool tool) e = false := by
    rintro ⟨o, r⟩ he
    have hask : asksRevocations ⟨o, r⟩ = true := List.all_eq_true.mp hasks _ he
    cases o with
    | gate o => exact absurd hask Bool.false_ne_true
    | token o =>
      cases o with
      | isRevoked ids => exact ⟨id, rfl⟩
      | _ => exact absurd hask Bool.false_ne_true
  -- neither has the sink failed, nor is there the one entry of the refusal
  rintro (⟨e, he, hfails⟩ | haccounted)
  · exact (hasked e he).1 hfails
  · match r with
    | .ok a => simp [Except.returns] at hraises
    | .error x =>
      have hnone : tr.filter (denies (prefixedTool tool)) = [] := by
        refine List.filter_eq_nil_iff.mpr fun e he => ?_
        rw [(hasked e he).2]
        exact Bool.false_ne_true
      have hlength : (tr.filter (denies (prefixedTool tool))).length = 1 := haccounted
      rw [hnone] at hlength
      exact absurd hlength (by simp)

/-- **It can fail.** The revocation store cannot answer, and the call raises without a word
in the journal. -/
theorem store_unavailable_unjournaled :
    ∃ tr r, Raises.Run (readerSession.authorize "mail.send" none) tr r ∧
      ¬ (SinkFailed tr ∨ Accounted GateResult.decision "mail.send" tr r) :=
  ⟨_, _, Raises.run_result (S := SessionSig) (answeringAt storeUnavailable)
    (readerSession.authorize "mail.send" none),
    not_accounted (by decide +kernel) (by decide +kernel)⟩

/-- The event is an answer of a store that works, or of the clock, the ids or the sink. -/
def isPlain : Event SessionSig → Bool
  | ⟨.token (.isRevoked _), .ok _⟩ => true
  | ⟨.gate (.core _), _⟩ => true
  | _ => false

theorem not_escapes_of_isPlain {tr : Trace SessionSig} (h : tr.all isPlain = true) :
    ∀ e ∈ tr, ¬ Escapes e := by
  rintro ⟨o, r⟩ he hescapes
  have htest : isPlain ⟨o, r⟩ = true := List.all_eq_true.mp h _ he
  cases o with
  | gate o =>
    cases o with
    | core o => exact hescapes
    | _ => exact absurd htest Bool.false_ne_true
  | token o =>
    cases o with
    | isRevoked ids =>
      cases r with
      | ok b => exact hescapes
      | error x => exact absurd htest Bool.false_ne_true
    | _ => exact absurd htest Bool.false_ne_true

/-- A revoked token is refused, and journaled. -/
theorem never_silent_iff_revoked :
    ∃ tr r, Raises.Run (readerSession.authorize "mail.send" none) tr r ∧
      (SinkFailed tr ∨ Accounted GateResult.decision "mail.send" tr r) := by
  have hrun := Raises.run_result (S := SessionSig) (answeringAt (.ok true))
    (readerSession.authorize "mail.send" none)
  refine ⟨_, _, hrun, ((never_silent_iff readerSession "mail.send" none).1 _ _ hrun).mpr (.inr ?_)⟩
  exact ⟨by decide, not_escapes_of_isPlain (by decide +kernel)⟩

end AgentSession

end HeadOfContext
