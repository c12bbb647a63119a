import HeadOfContext.Framework.Pool
import HeadOfContext.Tokens.Loading
import HeadOfContext.Tokens.MandateRuns

/-!
# Runs of the token layer

Clients issue, attenuate, revoke and present tokens concurrently, over one revocation
store. The store is a set of ids; signing a block draws an id that was never drawn, in
hexadecimal; the mandate store answers with the mandate it was asked for. The clock, the
engine, the audit sink and every failure are left open.

The tokens of a run form a forest: `Minted` grows it from the tokens issued, one
`attenuate` at a time, and `Descends` is its order. The block ids of a token are the ids
drawn for it and for its ancestors (`Minted.mem_revocationIds`).
-/

namespace HeadOfContext

open Effects Except Service

/-! ### The calls -/

/-- The calls of clients. -/
inductive TokenCall (Text : Type) where
  | issue (chain : PrincipalChain) (ttl : Option ℤ) (mandateId : Option String)
  | attenuate (token : Text) (toActor : String) (scope : Scope)
  | revoke (token : Text) (caller reason : String)
  /-- `MandateService.issue`. -/
  | issueUnder (mandateId caller : String) (scope : Scope) (ttl : Option ℤ)
  /-- `MandateService.revoke`. -/
  | revokeMandate (mandateId by_ reason : String)
  | verify (token : Text) (caller : String) (operation : Kind) (resource : String)
  | verifyMany (token : Text) (caller : String) (operation : Kind) (resources : List String)
  | inspect (token : Text) (caller : String)

namespace TokenCall

variable {Text : Type}

/-- What each call returns. -/
abbrev Out : TokenCall Text → Type
  | issue _ _ _ => Except Exn (IssuedToken Text)
  | attenuate _ _ _ => Except Exn (IssuedToken Text)
  | revoke _ _ _ => Except Exn String
  | issueUnder _ _ _ _ => Except Exn (IssuedToken Text)
  | revokeMandate _ _ _ => Except Exn Mandate
  | verify _ _ _ _ => Except Exn VerifiedToken
  | verifyMany _ _ _ _ => Except Exn (VerifiedToken × List (String × Bool))
  | inspect _ _ => Except Exn VerifiedToken

/-- The token that a call presents, and the caller who presents it. -/
def presented : TokenCall Text → Option (Text × String)
  | verify token caller _ _ => some (token, caller)
  | verifyMany token caller _ _ => some (token, caller)
  | inspect token caller => some (token, caller)
  | _ => none

end TokenCall

/-- The result is a `TokenRevoked`. -/
def IsTokenRevoked {α : Type} (r : Except Exn α) : Prop :=
  ∃ e, r = .error (.hoc e) ∧ e.cls = .tokenRevoked

namespace TokenCall

variable {Text : Type}

end TokenCall

namespace MandateService

variable {Text : Type} (svc : MandateService Text)

/-- The programs of the calls. -/
def service : Service TokenSig where
  Call := TokenCall Text
  Out := TokenCall.Out
  body
    | .issue chain ttl mandateId => (svc.tokens.issue chain ttl mandateId).run
    | .attenuate token toActor scope => (svc.tokens.attenuate token toActor scope).run
    | .revoke token caller reason => (svc.tokens.revoke token caller reason).run
    | .issueUnder mandateId caller scope ttl => (svc.issue mandateId caller scope ttl).run
    | .revokeMandate mandateId by_ reason => (MandateService.revoke mandateId by_ reason).run
    | .verify token caller operation resource =>
      (svc.tokens.verify token caller operation resource).run
    | .verifyMany token caller operation resources =>
      (svc.tokens.verifyMany token caller operation resources).run
    | .inspect token caller => (svc.tokens.inspect token caller).run

end MandateService

/-! ### The collaborators -/

/-- The hexadecimal digits, as `hex()` prints them. -/
def hexDigits : List Char := "0123456789abcdef".toList

/-- The form of a revocation id of a block. -/
def IsHex (id : String) : Prop := ∀ c ∈ id.toList, c ∈ hexDigits

instance (id : String) : Decidable (IsHex id) := inferInstanceAs (Decidable (∀ c ∈ _, _))

/-- The state of the token layer: the revoked ids, and the ids drawn for blocks. -/
structure TokenState where
  revoked : List String
  signed : List String

/-- `is_revoked`. -/
def TokenState.isRevoked (s : TokenState) (ids : List String) : Bool :=
  ids.any fun id => s.revoked.contains id

/-- The collaborators of the token layer. A call of the revocation store may also fail, and
then changes nothing. -/
def tokenWorld : World TokenSig where
  State := TokenState
  init := ⟨[], []⟩
  step s o r s' :=
    match o, r with
    | .isRevoked ids, .ok b => s' = s ∧ b = s.isRevoked ids
    | .revoke id _ _, .ok () => s' = { s with revoked := id :: s.revoked }
    | .sign, id => s' = { s with signed := id :: s.signed } ∧ id ∉ s.signed ∧ IsHex id
    | .getMandate mandateId, .ok (some m) => s' = s ∧ m.mandateId = mandateId
    | _, _ => s' = s

/-! ### Which calls write to the revocation store -/

variable {Text : Type} {svc : MandateService Text}

/-- What a call has done by its history: nothing for most calls, its own block for `revoke`,
the id of the mandate it read for `revokeMandate`. -/
def RevokesOnly (svc : MandateService Text) (c : TokenCall Text) (h : Trace TokenSig) :
    TokenOp → Prop
  | .revoke id _ _ =>
    match c with
    | .revoke token _ _ =>
      ∃ l, load svc.tokens.lib svc.tokens.keyring token = .ok l ∧ id = l.ownRevocationId
    | .revokeMandate mandateId _ _ =>
      ∃ m, ⟨.getMandate mandateId, .ok (some m)⟩ ∈ h ∧ id = m.revocationId
    | _ => False
  | _ => True

/-- A call of the interface that is no write to the revocation store. -/
def NoRevocation : TokenOp → Prop
  | .revoke _ _ _ => False
  | _ => True

theorem NoRevocation.revokesOnly {c : TokenCall Text} {h : Trace TokenSig} {o : TokenOp}
    (ho : NoRevocation o) : RevokesOnly svc c h o := by
  cases o <;> trivial

/-- A program without such writes revokes nothing. -/
theorem revokesOnly_of_calls {α : Type} {c : TokenCall Text} {p : Tokens α}
    {h : Trace TokenSig} (hp : Raises.Calls (S := TokenSig) NoRevocation p) :
    Prog.Spec (RevokesOnly svc c) (fun _ _ => True) p.run h :=
  Prog.Calls.spec hp fun _ _ => NoRevocation.revokesOnly

section Calls

variable {α : Type} {A : TokenOp → Prop}

/-- The predicate holds of the calls that read the clock, draw an id, look ids up or journal. -/
structure Passive (A : TokenOp → Prop) : Prop where
  now : A .now
  uuid4 : A .uuid4
  sign : A .sign
  isRevoked : ∀ ids, A (.isRevoked ids)
  record : ∀ e, A (.record e)

theorem passive_noRevocation : Passive NoRevocation :=
  ⟨trivial, trivial, trivial, fun _ => trivial, fun _ => trivial⟩

theorem calls_ofHoc {x : Except HocError α} : Raises.Calls (S := TokenSig) A (Core.ofHoc x) :=
  trivial

namespace Passive

variable (hA : Passive A)
include hA

theorem calls_now : Raises.Calls (S := TokenSig) A Tokens.now := Raises.calls_lift_invoke hA.now

theorem calls_uuid4 : Raises.Calls (S := TokenSig) A Tokens.uuid4 :=
  Raises.calls_lift_invoke hA.uuid4

theorem calls_sign : Raises.Calls (S := TokenSig) A Tokens.sign := Raises.calls_lift_invoke hA.sign

theorem calls_record {e : AuditEvent} : Raises.Calls (S := TokenSig) A (Tokens.record e) :=
  Raises.calls_invoke (hA.record e)

theorem calls_issue {tokens : TokenService Text} {chain : PrincipalChain} {ttl : Option ℤ}
    {mandateId : Option String} :
    Raises.Calls (S := TokenSig) A (tokens.issue chain ttl mandateId) := by
  refine .bind calls_ofHoc fun _ => .bind hA.calls_now fun _ => .bind calls_ofHoc fun _ =>
    .bind hA.calls_sign fun _ => .bind hA.calls_now fun _ => .bind hA.calls_uuid4 fun _ => ?_
  exact .bind hA.calls_record fun _ => Raises.calls_pure _

theorem calls_attenuate {tokens : TokenService Text} {token : Text} {toActor : String}
    {scope : Scope} :
    Raises.Calls (S := TokenSig) A (tokens.attenuate token toActor scope) := by
  refine .bind ?_ fun _ => .bind hA.calls_now fun _ => .bind hA.calls_uuid4 fun _ =>
    .bind hA.calls_record fun _ => Raises.calls_pure _
  exact .bind calls_ofHoc fun _ => .bind calls_ofHoc fun _ => .bind calls_ofHoc fun _ =>
    .bind calls_ofHoc fun _ => .bind hA.calls_sign fun _ => Raises.calls_pure _

theorem calls_isRevoked {ids : List String} :
    Raises.Calls (S := TokenSig) A (TokenService.isRevoked ids) := by
  refine .bind (.attempt (Raises.calls_invoke (hA.isRevoked ids))) fun answer => ?_
  match answer with
  | .ok _ => exact Raises.calls_pure _
  | .error (.hoc _) => exact Raises.calls_raise _
  | .error (.other _) => exact Raises.calls_raise _

theorem calls_loadHeld {tokens : TokenService Text} {token : Text} {caller : String} :
    Raises.Calls (S := TokenSig) A (tokens.loadHeld token caller) :=
  .bind calls_ofHoc fun _ => .bind hA.calls_isRevoked fun _ => .bind calls_ofHoc fun _ =>
    .bind calls_ofHoc fun _ => Raises.calls_pure _

theorem calls_verify {tokens : TokenService Text} {token : Text} {caller : String}
    {operation : Kind}
    {resource : String} :
    Raises.Calls (S := TokenSig) A (tokens.verify token caller operation resource) :=
  .bind calls_ofHoc fun _ => .bind calls_ofHoc fun _ => .bind hA.calls_loadHeld fun _ =>
    .bind hA.calls_now fun _ => .bind calls_ofHoc fun _ => Raises.calls_pure _

theorem calls_verifyMany {tokens : TokenService Text} {token : Text} {caller : String}
    {operation : Kind} {resources : List String} :
    Raises.Calls (S := TokenSig) A (tokens.verifyMany token caller operation resources) :=
  .bind calls_ofHoc fun _ => .bind hA.calls_loadHeld fun _ => .bind hA.calls_now fun _ =>
    .bind calls_ofHoc fun _ => .bind calls_ofHoc fun _ => Raises.calls_pure _

theorem calls_inspect {tokens : TokenService Text} {token : Text} {caller : String} :
    Raises.Calls (S := TokenSig) A (tokens.inspect token caller) :=
  .bind calls_ofHoc fun _ => .bind hA.calls_loadHeld fun _ => .bind hA.calls_now fun _ =>
    .bind calls_ofHoc fun _ => Raises.calls_pure _

theorem calls_recordEvent {kind : EventKind} {m : Mandate} {outcome reason : String} :
    Raises.Calls (S := TokenSig) A (MandateService.recordEvent kind m outcome reason) :=
  .bind hA.calls_now fun _ => .bind hA.calls_uuid4 fun _ => hA.calls_record

end Passive

theorem calls_mapHoc {f : HocError → HocError} {p : Tokens α}
    (hp : Raises.Calls (S := TokenSig) A p) : Raises.Calls (S := TokenSig) A (mapHoc f p) := by
  refine .bind (.attempt hp) fun answer => ?_
  match answer with
  | .ok _ => exact Raises.calls_pure _
  | .error (.hoc _) => exact Raises.calls_raise _
  | .error (.other _) => exact Raises.calls_raise _

theorem calls_fresh {m : Mandate} :
    Raises.Calls (S := TokenSig) NoRevocation (MandateService.fresh m) := by
  unfold MandateService.fresh
  split_ifs with hs
  · exact Raises.calls_pure _
  have hA := passive_noRevocation
  refine .bind hA.calls_now fun t => ?_
  split_ifs with ht
  · exact .bind (Raises.calls_invoke trivial) fun _ => .bind hA.calls_recordEvent fun _ =>
      Raises.calls_pure _
  refine .bind (calls_mapHoc hA.calls_isRevoked) fun idRevoked => ?_
  split_ifs with hr
  · exact .bind (Raises.calls_invoke trivial) fun _ => .bind hA.calls_recordEvent fun _ =>
      Raises.calls_pure _
  · exact Raises.calls_pure _

theorem calls_requireBinding {subject agent : String}
    (hcheck : A (.check subject BINDING_RELATION agent)) :
    Raises.Calls (S := TokenSig) A (svc.requireBinding subject agent) := by
  unfold MandateService.requireBinding
  split_ifs with he
  · exact Raises.calls_raise _
  refine .bind (.attempt (Raises.calls_invoke hcheck)) fun answer => ?_
  match answer with
  | .error (.hoc _) => exact Raises.calls_raise _
  | .error (.other _) => exact Raises.calls_raise _
  | .ok true => exact Raises.calls_pure _
  | .ok false => exact Raises.calls_raise _

theorem calls_issueUnder {mandateId caller : String} {scope : Scope} {ttl : Option ℤ} :
    Raises.Calls (S := TokenSig) NoRevocation (svc.issue mandateId caller scope ttl) := by
  refine .bind (.bind (Raises.calls_invoke trivial) fun stored => ?_) fun found => ?_
  · match stored with
    | none => exact Raises.calls_pure _
    | some m => exact .bind calls_fresh fun _ => Raises.calls_pure _
  · match found with
    | none => exact Raises.calls_raise _
    | some m =>
      exact .bind calls_ofHoc fun _ => .bind (calls_requireBinding trivial) fun _ =>
        .bind passive_noRevocation.calls_now fun _ => .bind calls_ofHoc fun _ =>
          passive_noRevocation.calls_issue

end Calls

/-- `revokeId` writes one id. -/
theorem spec_revokeId {c : TokenCall Text} {id reason : String} {h : Trace TokenSig}
    (hid : ∀ tr reason at_, RevokesOnly svc c (h ++ tr) (.revoke id reason at_)) :
    Raises.Spec (RevokesOnly svc c) (fun _ _ => True) (TokenService.revokeId id reason) h := by
  refine .seq (revokesOnly_of_calls passive_noRevocation.calls_now) fun tr t _ => ?_
  refine .seq ⟨hid _ _ _, fun _ => trivial⟩ fun tr' _ _ => ?_
  exact .seq (revokesOnly_of_calls passive_noRevocation.calls_uuid4) fun _ _ _ =>
    revokesOnly_of_calls (Raises.calls_invoke trivial)

theorem spec_revoke {token : Text} {caller reason : String} :
    Raises.Spec (RevokesOnly svc (.revoke token caller reason)) (fun _ _ => True)
      (svc.tokens.revoke token caller reason) [] := by
  refine .seq (revokesOnly_of_calls calls_ofHoc) fun tr l hrun => ?_
  obtain ⟨rfl, hload⟩ := Core.run_ofHoc_ok.mp hrun
  refine .seq (revokesOnly_of_calls calls_ofHoc) fun tr _ _ => ?_
  refine .seq (spec_revokeId fun _ _ _ => ⟨l, hload, rfl⟩) fun _ _ _ => trivial

theorem spec_revokeMandate {mandateId by_ reason : String} :
    Raises.Spec (RevokesOnly svc (.revokeMandate mandateId by_ reason)) (fun _ _ => True)
      (MandateService.revoke mandateId by_ reason) [] := by
  refine .seq (revokesOnly_of_calls (Raises.calls_invoke trivial)) fun tr stored hrun => ?_
  obtain rfl := Raises.run_invoke.mp hrun
  match stored with
  | none => exact revokesOnly_of_calls (Raises.calls_raise _)
  | some m =>
    refine .seq (revokesOnly_of_calls calls_ofHoc) fun tr _ _ => ?_
    refine .seq (revokesOnly_of_calls passive_noRevocation.calls_now) fun tr' _ _ => ?_
    refine .seq (spec_revokeId fun tr'' _ _ => ⟨m, by simp, rfl⟩) fun _ _ _ => ?_
    exact .seq (revokesOnly_of_calls (Raises.calls_invoke trivial)) fun _ _ _ =>
      .seq (revokesOnly_of_calls passive_noRevocation.calls_recordEvent) fun _ _ _ => trivial

/-- Every call revokes only what it may. -/
theorem spec_service (c : TokenCall Text) :
    Prog.Spec (RevokesOnly svc c) (fun _ _ => True) (svc.service.body c) [] := by
  cases c with
  | issue chain ttl mandateId => exact revokesOnly_of_calls passive_noRevocation.calls_issue
  | attenuate token toActor scope => exact revokesOnly_of_calls passive_noRevocation.calls_attenuate
  | revoke token caller reason => exact spec_revoke
  | issueUnder mandateId caller scope ttl => exact revokesOnly_of_calls calls_issueUnder
  | revokeMandate mandateId by_ reason => exact spec_revokeMandate
  | verify token caller operation resource =>
    exact revokesOnly_of_calls passive_noRevocation.calls_verify
  | verifyMany token caller operation resources =>
    exact revokesOnly_of_calls passive_noRevocation.calls_verifyMany
  | inspect token caller => exact revokesOnly_of_calls passive_noRevocation.calls_inspect

/-! ### What a run keeps -/

/-- The record of a run of the token layer. -/
abbrev TokenRun (svc : MandateService Text) := List (svc.service.Moment tokenWorld)

/-- The call number `i` drew the id. -/
def Signs (run : TokenRun svc) (i : ℕ) (id : String) : Prop := ⟨.sign, id⟩ ∈ history i run

/-- The call number `i` revoked the id. -/
def Revokes (run : TokenRun svc) (i : ℕ) (id : String) : Prop :=
  ∃ reason at_, ⟨.revoke id reason at_, .ok ()⟩ ∈ history i run

/-- What holds between the record of a run and the state of its collaborators. -/
structure Kept (run : TokenRun svc) (s : TokenState) : Prop where
  drawn : ∀ {i id}, Signs run i id → id ∈ s.signed
  hex : ∀ {i id}, Signs run i id → IsHex id
  drawnOnce : ∀ {i j id}, Signs run i id → Signs run j id → i = j
  revoked : ∀ {id}, id ∈ s.revoked ↔ ∃ i, Revokes run i id
  mandates : ∀ {i mandateId m}, ⟨.getMandate mandateId, .ok (some m)⟩ ∈ history i run →
    m.mandateId = mandateId
  revokers : ∀ {i id}, Revokes run i id → ∃ c h, (calls run)[i]? = some c ∧
    (∀ e ∈ h, e ∈ history i run) ∧ ∀ reason at_, RevokesOnly svc c h (.revoke id reason at_)

variable {run : TokenRun svc} {s s' : TokenState}

/-- What an event has to satisfy. -/
theorem Kept.event {i : ℕ} {c : TokenCall Text} {e : Event TokenSig} (hk : Kept run s)
    (hcall : (calls run)[i]? = some c)
    (hobeys : RevokesOnly svc c (history i run) e.op)
    (hdrawn : ∀ id, id ∈ s.signed ∨ e = ⟨.sign, id⟩ → id ∈ s'.signed)
    (hsign : ∀ id, e = ⟨.sign, id⟩ → id ∉ s.signed ∧ IsHex id)
    (hrevoked : ∀ id, id ∈ s'.revoked ↔
      id ∈ s.revoked ∨ ∃ reason at_, e = ⟨.revoke id reason at_, .ok ()⟩)
    (hmandate : ∀ mandateId m, e = ⟨.getMandate mandateId, .ok (some m)⟩ →
      m.mandateId = mandateId) :
    Kept (run ++ [⟨s, .event i e⟩]) s' where
  drawn h := by
    rcases mem_history_event.mp h with hold | ⟨-, hnew⟩
    · exact hdrawn _ (.inl (hk.drawn hold))
    · exact hdrawn _ (.inr hnew.symm)
  hex h := by
    rcases mem_history_event.mp h with hold | ⟨-, hnew⟩
    · exact hk.hex hold
    · exact (hsign _ hnew.symm).2
  -- an id that was drawn before is not drawn again, in this call or in another one
  drawnOnce h h' := by
    rcases mem_history_event.mp h with hold | ⟨rfl, hnew⟩
    · rcases mem_history_event.mp h' with hold' | ⟨-, hnew'⟩
      · exact hk.drawnOnce hold hold'
      · exact absurd (hk.drawn hold) (hsign _ hnew'.symm).1
    · rcases mem_history_event.mp h' with hold' | ⟨rfl, -⟩
      · exact absurd (hk.drawn hold') (hsign _ hnew.symm).1
      · rfl
  revoked := by
    intro id
    rw [hrevoked, hk.revoked]
    constructor
    · rintro (⟨j, reason, at_, h⟩ | ⟨reason, at_, rfl⟩)
      · exact ⟨j, reason, at_, mem_history_event.mpr (.inl h)⟩
      · exact ⟨i, reason, at_, mem_history_event.mpr (.inr ⟨rfl, rfl⟩)⟩
    · rintro ⟨j, reason, at_, h⟩
      rcases mem_history_event.mp h with hold | ⟨-, rfl⟩
      · exact .inl ⟨j, reason, at_, hold⟩
      · exact .inr ⟨reason, at_, rfl⟩
  mandates h := by
    rcases mem_history_event.mp h with hold | ⟨-, hnew⟩
    · exact hk.mandates hold
    · exact hmandate _ _ hnew.symm
  revokers := by
    rintro j id ⟨reason, at_, h⟩
    rcases mem_history_event.mp h with hold | ⟨rfl, rfl⟩
    · obtain ⟨c', h', hc', hsub, hspec⟩ := hk.revokers ⟨reason, at_, hold⟩
      exact ⟨c', h', calls_getElem?_append hc',
        fun e' he' => mem_history_event.mpr (.inl (hsub e' he')), hspec⟩
    · exact ⟨c, history i run, calls_getElem?_append hcall,
        fun e' he' => mem_history_event.mpr (.inl he'), fun _ _ => hobeys⟩

/-- **Every run keeps it.** -/
theorem kept (h : Exec svc.service tokenWorld run s) : Kept run s := by
  refine h.invariant spec_service (I := Kept) ?_ ?_ ?_
  · exact ⟨fun h => absurd h List.not_mem_nil, fun h => absurd h List.not_mem_nil,
      fun h => absurd h List.not_mem_nil,
      ⟨fun h => absurd h List.not_mem_nil, fun ⟨_, _, _, h⟩ => absurd h List.not_mem_nil⟩,
      fun h => absurd h List.not_mem_nil, fun ⟨_, _, h⟩ => absurd h List.not_mem_nil⟩
  · -- starting a call changes no history
    intro run s c _ hk
    have hhist : ∀ i, history i (run ++ [⟨s, .spawn c⟩]) = history i run := by
      intro i
      rw [history_append, history_spawn, List.append_nil]
    have hsigns : ∀ i id, Signs (run ++ [⟨s, .spawn c⟩]) i id ↔ Signs run i id := by
      intro i id
      rw [Signs, hhist, Signs]
    have hrevokes : ∀ i id, Revokes (run ++ [⟨s, .spawn c⟩]) i id ↔ Revokes run i id := by
      intro i id
      rw [Revokes, hhist, Revokes]
    refine ⟨fun h => hk.drawn ((hsigns _ _).mp h), fun h => hk.hex ((hsigns _ _).mp h),
      fun h h' => hk.drawnOnce ((hsigns _ _).mp h) ((hsigns _ _).mp h'), ?_,
      fun h => hk.mandates (hhist _ ▸ h), ?_⟩
    · intro id
      rw [hk.revoked]
      exact exists_congr fun i => (hrevokes i id).symm
    · intro i id hrev
      obtain ⟨c', h', hc', hsub, hspec⟩ := hk.revokers ((hrevokes i id).mp hrev)
      exact ⟨c', h', calls_getElem?_append hc', fun e he => hhist i ▸ hsub e he, hspec⟩
  · -- only `sign` draws an id, only `revoke` writes one, and only `get_mandate` shows a mandate
    intro run s i c o r s' _ hk hcall hobeys hstep
    cases o with
    | sign =>
      obtain ⟨rfl, hfresh, hhex⟩ := hstep
      refine hk.event hcall hobeys ?_ ?_ ?_ ?_
      · rintro id (hid | hid)
        · exact List.mem_cons_of_mem _ hid
        · cases hid
          exact List.mem_cons_self
      · intro id hid
        cases hid
        exact ⟨hfresh, hhex⟩
      · simp
      · simp
    | revoke id reason at_ =>
      match r with
      | .ok () =>
        obtain rfl := hstep
        refine hk.event hcall hobeys ?_ ?_ ?_ ?_
        · simp
        · simp
        · intro id'
          change id' ∈ id :: s.revoked ↔ _
          rw [List.mem_cons, or_comm]
          refine or_congr_right ⟨?_, ?_⟩
          · rintro rfl
            exact ⟨reason, at_, rfl⟩
          · rintro ⟨_, _, he⟩
            cases he
            rfl
        · simp
      | .error e =>
        obtain rfl := hstep
        refine hk.event hcall hobeys ?_ ?_ ?_ ?_ <;> simp
    | getMandate mandateId =>
      match r with
      | .ok (some m) =>
        obtain ⟨rfl, hid⟩ := hstep
        refine hk.event hcall hobeys ?_ ?_ ?_ ?_ <;> simp_all
      | .ok none =>
        obtain rfl := hstep
        refine hk.event hcall hobeys ?_ ?_ ?_ ?_ <;> simp
      | .error e =>
        obtain rfl := hstep
        refine hk.event hcall hobeys ?_ ?_ ?_ ?_ <;> simp
    | isRevoked ids =>
      match r with
      | .ok b =>
        obtain ⟨rfl, -⟩ := hstep
        refine hk.event hcall hobeys ?_ ?_ ?_ ?_ <;> simp
      | .error e =>
        obtain rfl := hstep
        refine hk.event hcall hobeys ?_ ?_ ?_ ?_ <;> simp
    | _ =>
      obtain rfl := hstep
      refine hk.event hcall hobeys ?_ ?_ ?_ ?_ <;> simp

end HeadOfContext
