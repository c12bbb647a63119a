import HeadOfContext.Tokens.Attenuation
import HeadOfContext.Tokens.Mandates

/-!
# Runs of the mandate service

What a call of `MandateService` that returned has asked and been told. The last section
reads off how long a token issued under a mandate lives: `issue` bounds the lifetime from
one reading of the clock and the token counts it from the next, and a lifetime of zero is
replaced by the default one (`issue_within_mandate_iff`).
-/

namespace HeadOfContext

open Effects Except

theorem run_mapHoc_ok {S : Sig} {α : Type} {f : HocError → HocError} {p : Raises S Exn α}
    {tr : Trace S} {a : α} :
    Raises.Run (mapHoc f p) tr (.ok a) ↔ Raises.Run p tr (.ok a) := by
  unfold mapHoc
  rw [Raises.run_bind_ok]
  constructor
  · rintro ⟨answer, tr₁, tr₂, rfl, h₁, h₂⟩
    rw [Raises.run_attempt_ok] at h₁
    match answer with
    | .ok b =>
      obtain ⟨rfl, rfl⟩ := Raises.run_pure_ok.mp h₂
      rwa [List.append_nil]
    | .error (.hoc exc) => exact absurd (Raises.run_raise.mp h₂).2 (by simp)
    | .error (.other name) => exact absurd (Raises.run_raise.mp h₂).2 (by simp)
  · intro h
    exact ⟨.ok a, tr, [], (List.append_nil _).symm, Raises.run_attempt_ok.mpr h,
      Raises.run_pure_ok.mpr ⟨rfl, rfl⟩⟩

namespace TokenService

theorem run_isRevoked_ok {ids : List String} {tr : Trace TokenSig} {r : Bool} :
    Raises.Run (isRevoked ids) tr (.ok r) ↔ tr = [⟨.isRevoked ids, .ok r⟩] := by
  unfold isRevoked
  rw [Raises.run_bind_ok]
  constructor
  · rintro ⟨answer, tr₁, tr₂, rfl, h₁, h₂⟩
    obtain rfl := Raises.run_invoke.mp (Raises.run_attempt_ok.mp h₁)
    match answer with
    | .ok b =>
      obtain ⟨rfl, rfl⟩ := Raises.run_pure_ok.mp h₂
      rfl
    | .error (.hoc exc) => exact absurd (Raises.run_raise.mp h₂).2 (by simp)
    | .error (.other name) => exact absurd (Raises.run_raise.mp h₂).2 (by simp)
  · rintro rfl
    exact ⟨.ok r, _, [], rfl, Raises.run_attempt_ok.mpr (Raises.run_invoke.mpr rfl),
      Raises.run_pure_ok.mpr ⟨rfl, rfl⟩⟩

end TokenService

namespace MandateService

variable {Text : Type} {svc : MandateService Text}

/-- A binding that is accepted was answered True by the engine. -/
theorem requireBinding_run {subject agent : String} {tr : Trace TokenSig} {u : Unit}
    (h : Raises.Run (svc.requireBinding subject agent) tr (.ok u)) :
    tr = [⟨.check subject BINDING_RELATION agent, .ok true⟩] := by
  unfold requireBinding at h
  by_cases he : svc.hasEngine = false
  · rw [if_pos he] at h
    exact absurd (Raises.run_raise.mp h).2 (by simp)
  · rw [if_neg he] at h
    obtain ⟨answer, tr₁, tr₂, rfl, h₁, h₂⟩ := Raises.run_bind_ok.mp h
    obtain rfl := Raises.run_invoke.mp (Raises.run_attempt_ok.mp h₁)
    match answer with
    | .error (.hoc exc) => exact absurd (Raises.run_raise.mp h₂).2 (by simp)
    | .error (.other _) => exact absurd (Raises.run_raise.mp h₂).2 (by simp)
    | .ok false => exact absurd (Raises.run_raise.mp h₂).2 (by simp)
    | .ok true =>
      obtain ⟨rfl, -⟩ := Raises.run_pure_ok.mp h₂
      rfl

/-- A mandate that reads ACTIVE is the stored one: it has not expired and its id is not
revoked. -/
theorem fresh_active {m m' : Mandate} {tr : Trace TokenSig}
    (h : Raises.Run (fresh m) tr (.ok m')) (hactive : m'.status = .active) :
    m' = m ∧ ∃ t, t < m.expiresAt ∧
      tr = [⟨.now, t⟩, ⟨.isRevoked [m.revocationId], .ok false⟩] := by
  unfold fresh at h
  by_cases hs : m.status ≠ .active
  · rw [if_pos hs] at h
    obtain ⟨-, rfl⟩ := Raises.run_pure_ok.mp h
    exact absurd hactive hs
  rw [if_neg hs] at h
  obtain ⟨t, tr₁, tr₂, rfl, hnow, h₂⟩ := Raises.run_bind_ok.mp h
  obtain rfl := Raises.run_lift_invoke_ok.mp hnow
  by_cases ht : m.expiresAt ≤ t
  · -- the mandate reads EXPIRED
    rw [if_pos ht] at h₂
    obtain ⟨_, tr₁, tr₃, rfl, -, h₃⟩ := Raises.run_bind_ok.mp h₂
    obtain ⟨_, tr₁, tr₄, rfl, -, h₄⟩ := Raises.run_bind_ok.mp h₃
    obtain ⟨-, rfl⟩ := Raises.run_pure_ok.mp h₄
    exact absurd hactive (by simp)
  rw [if_neg ht] at h₂
  obtain ⟨idRevoked, tr₁, tr₃, rfl, hrevoked, h₃⟩ := Raises.run_bind_ok.mp h₂
  obtain rfl := TokenService.run_isRevoked_ok.mp (run_mapHoc_ok.mp hrevoked)
  cases idRevoked with
  | true =>
    -- the mandate reads REVOKED
    obtain ⟨_, tr₁, tr₃, rfl, -, h₄⟩ := Raises.run_bind_ok.mp h₃
    obtain ⟨_, tr₁, tr₄, rfl, -, h₅⟩ := Raises.run_bind_ok.mp h₄
    obtain ⟨-, rfl⟩ := Raises.run_pure_ok.mp h₅
    exact absurd hactive (by simp)
  | false =>
    obtain ⟨rfl, rfl⟩ := Raises.run_pure_ok.mp h₃
    exact ⟨rfl, t, not_le.mp ht, rfl⟩

theorem refusals_eq_ok {m : Mandate} {caller : String} {scope : Scope} {u : Unit} :
    refusals m caller scope = .ok u ↔
      m.status = .active ∧ caller = m.agent ∧ scope.isSubsetOf m.scope = true := by
  simp only [refusals, bind_eq_ok, raiseIf_eq_ok]
  constructor
  · rintro ⟨_, hr, _, he, _, hc, hs⟩
    refine ⟨?_, not_not.mp hc, by simpa using hs⟩
    cases hm : m.status with
    | active => rfl
    | revoked => exact absurd hm hr
    | expired => exact absurd hm he
  · rintro ⟨hm, hc, hs⟩
    exact ⟨(), by simp [hm], (), by simp [hm], (), not_not.mpr hc, by simp [hs]⟩

/-- **What `issue` asks before it issues**: the stored mandate, whether it has expired or
its id is revoked, whether the agent is bound, and the clock for the lifetime. -/
theorem issue_run {mandateId caller : String} {scope : Scope} {ttl : Option ℤ}
    {tr : Trace TokenSig} {issued : IssuedToken Text}
    (h : Raises.Run (svc.issue mandateId caller scope ttl) tr (.ok issued)) :
    ∃ m t₁ t₂ chain tr', m.status = .active ∧ caller = m.agent ∧
      scope.isSubsetOf m.scope = true ∧ t₁ < m.expiresAt ∧
      PrincipalChain.root m.subject m.agent scope = .ok chain ∧
      tr = ⟨.getMandate mandateId, .ok (some m)⟩ :: ⟨.now, t₁⟩ ::
        ⟨.isRevoked [m.revocationId], .ok false⟩ ::
        ⟨.check m.subject BINDING_RELATION m.agent, .ok true⟩ :: ⟨.now, t₂⟩ :: tr' ∧
      Raises.Run (svc.tokens.issue chain (some (effectiveTtl m ttl t₂)) (some m.mandateId)) tr'
        (.ok issued) := by
  unfold issue get at h
  obtain ⟨found, tr₁, tr₂, rfl, hget, h₂⟩ := Raises.run_bind_ok.mp h
  obtain ⟨stored, tr₃, tr₄, rfl, hstored, h₃⟩ := Raises.run_bind_ok.mp hget
  obtain rfl := Raises.run_invoke.mp hstored
  -- a mandate that is not there refuses; of one that is, every check has passed
  cases stored with
  | none =>
    obtain ⟨rfl, rfl⟩ := Raises.run_pure_ok.mp h₃
    exact absurd (Raises.run_raise.mp h₂).2 (by simp)
  | some m =>
    obtain ⟨m', tr₁, tr₅, rfl, hfresh, h₄⟩ := Raises.run_bind_ok.mp h₃
    obtain ⟨rfl, rfl⟩ := Raises.run_pure_ok.mp h₄
    obtain ⟨_, tr₆, tr₇, rfl, hadmit, h₅⟩ := Raises.run_bind_ok.mp h₂
    obtain ⟨rfl, hadmitted⟩ := Core.run_ofHoc_ok.mp hadmit
    obtain ⟨hactive, hcaller, hscope⟩ := refusals_eq_ok.mp hadmitted
    obtain ⟨rfl, t₁, ht₁, rfl⟩ := fresh_active hfresh hactive
    obtain ⟨_, tr₆, tr₈, rfl, hbinding, h₆⟩ := Raises.run_bind_ok.mp h₅
    obtain rfl := requireBinding_run hbinding
    obtain ⟨t₂, tr₆, tr₉, rfl, hnow, h₇⟩ := Raises.run_bind_ok.mp h₆
    obtain rfl := Raises.run_lift_invoke_ok.mp hnow
    obtain ⟨chain, tr₆, tr₁₀, rfl, hchain, h₈⟩ := Raises.run_bind_ok.mp h₇
    obtain ⟨rfl, hroot⟩ := Core.run_ofHoc_ok.mp hchain
    exact ⟨m', t₁, t₂, chain, tr₁₀, hactive, hcaller, hscope, ht₁, hroot, rfl, h₈⟩

theorem validateParties_eq_ok {subject agent : String} {u : Unit} :
    validateParties subject agent = .ok u ↔
      isRef subject "user" = true ∧ isRef agent "agent" = true := by
  simp [validateParties, bind_eq_ok, validateRef_eq_ok]

/-- **What `create` accepts.** -/
theorem create_run {subject agent createdBy : String} {scope : Scope} {expiresAt : ℤ}
    {maxTokenTtl : Option ℤ} {tr : Trace TokenSig} {m : Mandate}
    (h : Raises.Run (svc.create subject agent scope expiresAt createdBy maxTokenTtl) tr (.ok m)) :
    isRef subject "user" = true ∧ isRef agent "agent" = true ∧ createdBy = subject ∧
      m.createdAt < expiresAt ∧ 0 < m.maxTokenTtl ∧ scope.sorted ≠ [] ∧
      m.subject = subject ∧ m.agent = agent ∧ m.scope = scope ∧ m.expiresAt = expiresAt ∧
      m.status = .active ∧ ⟨.uuid4, m.mandateId⟩ ∈ tr ∧ ⟨.createMandate m, .ok ()⟩ ∈ tr := by
  unfold create at h
  -- the checks in the order of the source, then the row
  obtain ⟨_, tr₁, tr₂, rfl, hparties, h₂⟩ := Raises.run_bind_ok.mp h
  obtain ⟨rfl, hvalid⟩ := Core.run_ofHoc_ok.mp hparties
  obtain ⟨_, tr₁, tr₃, rfl, hcreator, h₃⟩ := Raises.run_bind_ok.mp h₂
  obtain ⟨rfl, hsame⟩ := Core.run_ofHoc_ok.mp hcreator
  obtain ⟨now, tr₁, tr₄, rfl, hnow, h₄⟩ := Raises.run_bind_ok.mp h₃
  obtain ⟨_, tr₅, tr₆, rfl, hexpired, h₆⟩ := Raises.run_bind_ok.mp h₄
  obtain ⟨rfl, hlater⟩ := Core.run_ofHoc_ok.mp hexpired
  obtain ⟨_, tr₅, tr₇, rfl, hlong, h₇⟩ := Raises.run_bind_ok.mp h₆
  obtain ⟨rfl, -⟩ := Core.run_ofHoc_ok.mp hlong
  obtain ⟨_, tr₅, tr₈, rfl, hempty, h₈⟩ := Raises.run_bind_ok.mp h₇
  obtain ⟨rfl, hscope⟩ := Core.run_ofHoc_ok.mp hempty
  obtain ⟨_, tr₅, tr₉, rfl, hpositive, h₉⟩ := Raises.run_bind_ok.mp h₈
  obtain ⟨rfl, httl⟩ := Core.run_ofHoc_ok.mp hpositive
  obtain ⟨_, tr₅, tr₁₀, rfl, -, h₁₀⟩ := Raises.run_bind_ok.mp h₉
  obtain ⟨mandateId, tr₁₁, tr₁₂, rfl, hid, h₁₁⟩ := Raises.run_bind_ok.mp h₁₀
  obtain rfl := Raises.run_lift_invoke_ok.mp hid
  obtain ⟨_, tr₁₃, tr₁₄, rfl, hstore, h₁₂⟩ := Raises.run_bind_ok.mp h₁₁
  obtain rfl := Raises.run_invoke.mp hstore
  obtain ⟨_, tr₁₅, tr₁₆, rfl, -, h₁₃⟩ := Raises.run_bind_ok.mp h₁₂
  obtain ⟨rfl, rfl⟩ := Raises.run_pure_ok.mp h₁₃
  obtain ⟨hsubject, hagent⟩ := validateParties_eq_ok.mp hvalid
  refine ⟨hsubject, hagent, not_not.mp (raiseIf_eq_ok.mp hsame), ?_, ?_, raiseIf_eq_ok.mp hscope,
    rfl, rfl, rfl, rfl, rfl, by simp, by simp⟩
  · exact not_le.mp (raiseIf_eq_ok.mp hlater)
  · exact not_le.mp (raiseIf_eq_ok.mp httl)

/-! ### How long a token lives -/

/-- The clock readings of a run, in order. -/
def readings (tr : Trace TokenSig) : List ℤ :=
  tr.filterMap fun
    | ⟨.now, t⟩ => some t
    | _ => none

/-- A lifetime that was capped by the rest of the mandate, counted from a later reading. -/
theorem lifetime_iff {t₂ t₃ wanted maxTtl expiresAt fallback : ℤ} (hle : t₂ ≤ t₃)
    (hwanted : 0 < wanted) (hmax : 0 < maxTtl) (hfallback : 0 < fallback) :
    (t₃ + TokenService.ttlOr (some (min (min wanted maxTtl) (expiresAt - t₂))) fallback ≤
      expiresAt ∧
      t₃ + TokenService.ttlOr (some (min (min wanted maxTtl) (expiresAt - t₂))) fallback - t₃
        ≤ maxTtl) ↔
      t₂ ≠ expiresAt ∧ (t₃ = t₂ ∨ t₃ + min wanted maxTtl ≤ expiresAt) := by
  have hcap : 0 < min wanted maxTtl := lt_min hwanted hmax
  have hcap' : min wanted maxTtl ≤ maxTtl := min_le_right _ _
  generalize min wanted maxTtl = cap at hcap hcap' ⊢
  by_cases heq : t₂ = expiresAt
  · -- nothing is left of the mandate, and the default lifetime takes over
    have hzero : min cap (expiresAt - t₂) = 0 := by omega
    rw [hzero, TokenService.ttlOr, if_pos rfl]
    omega
  · have hne : min cap (expiresAt - t₂) ≠ 0 := by omega
    rw [TokenService.ttlOr, if_neg hne]
    omega

/-- **When a token ends with its mandate.** A token issued under an accepted mandate ends
by the mandate's expiry and lives at most `max_token_ttl` exactly when the reading that
bounds the lifetime is not the expiry itself, and either no time passes before the token
counts it or the requested lifetime still ends in time. -/
theorem issue_within_mandate_iff {m : Mandate} {subject agent createdBy mandateId caller : String}
    {scope scope' : Scope} {expiresAt : ℤ} {maxTokenTtl ttl : Option ℤ} {tr₀ tr : Trace TokenSig}
    {issued : IssuedToken Text}
    (hcreate : Raises.Run (svc.create subject agent scope expiresAt createdBy maxTokenTtl) tr₀
      (.ok m))
    (hdefault : 0 < svc.tokens.ttl) (hwanted : ∀ t, ttl = some t → 0 < t)
    (hissue : Raises.Run (svc.issue mandateId caller scope' ttl) tr (.ok issued))
    (hstored : ∀ answer, ⟨.getMandate mandateId, answer⟩ ∈ tr → answer = .ok (some m))
    (hclock : (readings tr).Pairwise (· ≤ ·)) :
    ∃ t₂ t₃ b, (readings tr)[1]? = some t₂ ∧ (readings tr)[2]? = some t₃ ∧
      issued.token = svc.tokens.lib.toBase64 b ∧
      ⟨"issued_at", [.ofInstant t₃]⟩ ∈ b.authority ∧
      ((issued.expiresAt ≤ m.expiresAt ∧ issued.expiresAt - t₃ ≤ m.maxTokenTtl) ↔
        t₂ ≠ m.expiresAt ∧
          (t₃ = t₂ ∨ t₃ + min (ttl.getD m.maxTokenTtl) m.maxTokenTtl ≤ m.expiresAt)) := by
  obtain ⟨-, -, -, -, hmax, -⟩ := create_run hcreate
  obtain ⟨m', t₁, t₂, chain, tr', -, -, -, -, -, rfl, htoken⟩ := issue_run hissue
  obtain rfl : m' = m := by
    have hanswer := hstored _ List.mem_cons_self
    exact Option.some.inj (Except.ok.inj hanswer)
  -- `issue` reads the clock at `t₂` to bound the lifetime, the token service at `t₃` to sign
  obtain ⟨t₃, key, id, at_, eventId, -, rfl, rfl⟩ := TokenService.issue_run htoken
  have hpairs : [t₁, t₂, t₃, at_].Pairwise (· ≤ ·) := hclock
  have hle : t₂ ≤ t₃ := by
    have htail := (List.pairwise_cons.mp hpairs).2
    exact (List.pairwise_cons.mp htail).1 t₃ List.mem_cons_self
  refine ⟨t₂, t₃, _, rfl, rfl, rfl, ?_, ?_⟩
  · rw [TokenService.rootToken_authority]
    exact mem_authorityBuilder.mpr (.inr (.inr (.inl rfl)))
  · -- the requested lifetime is positive, so `or` takes it where it is given
    have hor : TokenService.ttlOr ttl m'.maxTokenTtl = ttl.getD m'.maxTokenTtl := by
      cases ttl with
      | none => rfl
      | some t => exact if_neg (hwanted t rfl).ne'
    have hpos : 0 < ttl.getD m'.maxTokenTtl := by
      cases ttl with
      | none => exact hmax
      | some t => exact hwanted t rfl
    simp only [effectiveTtl, hor]
    exact lifetime_iff hle hpos hmax hdefault

/-! ### A token that outlives its mandate -/

/-- Collaborators whose clock ticks once a reading, with the mandate `m` stored. -/
def ticking (m : Option Mandate) (h : Trace TokenSig) : ∀ o, TokenOp.Res o
  | .now => (readings h).length
  | .uuid4 => "m"
  | .sign => "00"
  | .isRevoked _ => .ok false
  | .revoke _ _ _ => .ok ()
  | .record _ => .ok ()
  | .check _ _ _ => .ok true
  | .createMandate _ => .ok ()
  | .getMandate _ => .ok m
  | .updateMandate _ => .ok ()
  | .listMandates _ => .ok []
  | .expireActive _ => .ok []

/-- The mandates that a trace read under `mandateId` are all `m`. -/
def reads (m : Mandate) (mandateId : String) (tr : Trace TokenSig) : Bool :=
  tr.all fun
    | ⟨.getMandate id, .ok (some m')⟩ => id ≠ mandateId || m' = m
    | ⟨.getMandate id, _⟩ => id ≠ mandateId
    | _ => true

theorem reads_iff {m : Mandate} {mandateId : String} {tr : Trace TokenSig} :
    reads m mandateId tr = true ↔
      ∀ answer, ⟨.getMandate mandateId, answer⟩ ∈ tr → answer = .ok (some m) := by
  unfold reads
  rw [List.all_eq_true]
  constructor
  · intro h answer hmem
    have htest := h _ hmem
    match answer with
    | .ok (some m') => simpa using htest
    | .ok none => simp at htest
    | .error e => simp at htest
  · -- of the calls, only a read of this mandate is tested
    rintro h ⟨op, answer⟩ hmem
    cases op with
    | getMandate id =>
      by_cases hid : id = mandateId
      · subst hid
        rw [h answer hmem]
        simp
      · match answer with
        | .ok (some m') => simp [hid]
        | .ok none => simp [hid]
        | .error e => simp [hid]
    | _ => rfl

/-- A mandate service over `oneKey`, with an engine. -/
def boundToEngine : MandateService Biscuit := ⟨TokenService.oneKey, true, 90, 3600000000⟩

/-- The mandate of alice for `agent:a`, of ten seconds. -/
def tenSeconds : Mandate where
  mandateId := "m"
  subject := "user:alice"
  agent := "agent:a"
  scope := PrincipalChain.aliceReader.scope
  createdAt := 0
  expiresAt := 10000000
  maxTokenTtl := 3600000000
  createdBy := "user:alice"
  status := .active
  revokedAt := none
  revocationReason := none

theorem create_tenSeconds :
    ∃ tr, Raises.Run (boundToEngine.create "user:alice" "agent:a" tenSeconds.scope 10000000
      "user:alice" none) tr (.ok tenSeconds) := by
  have hresult : ((boundToEngine.create "user:alice" "agent:a" tenSeconds.scope 10000000
    "user:alice"
      none).run.execFrom (S := TokenSig) (ticking none) []).2.returns
        (fun m => decide (m = tenSeconds)) = true := by
    decide +kernel
  obtain ⟨m, hrun, heq⟩ := Raises.run_of_returns hresult
  obtain rfl := of_decide_eq_true heq
  exact ⟨_, hrun⟩

/-- What `issue` returns under it while the clock ticks, for the lifetimes `ttl`: every
reading is one tick after the one before, and the mandate does not change. -/
theorem issue_tenSeconds {ttl : Option ℤ} {expiresAt : ℤ}
    (h : ((boundToEngine.issue "m" "agent:a" tenSeconds.scope ttl).run.execFrom (S := TokenSig)
        (ticking (some tenSeconds)) []).2.returns
      (fun issued => decide (issued.expiresAt = expiresAt)) = true ∧
      reads tenSeconds "m" ((boundToEngine.issue "m" "agent:a" tenSeconds.scope ttl).run.execFrom
        (S := TokenSig) (ticking (some tenSeconds)) []).1 = true ∧
      readings ((boundToEngine.issue "m" "agent:a" tenSeconds.scope ttl).run.execFrom
        (S := TokenSig) (ticking (some tenSeconds)) []).1 = [0, 1, 2, 3]) :
    ∃ tr issued, Raises.Run (boundToEngine.issue "m" "agent:a" tenSeconds.scope ttl) tr
        (.ok issued) ∧
      (∀ answer, ⟨.getMandate "m", answer⟩ ∈ tr → answer = .ok (some tenSeconds)) ∧
      readings tr = [0, 1, 2, 3] ∧ issued.expiresAt = expiresAt := by
  obtain ⟨hresult, hreads, hclock⟩ := h
  obtain ⟨issued, hrun, hexpires⟩ := Raises.run_of_returns hresult
  exact ⟨_, issued, hrun, reads_iff.mp hreads, hclock, of_decide_eq_true hexpires⟩

/-- A token of one second ends in time: one tick passes, and one second is left. -/
theorem issue_within_mandate_iff_tenSeconds :
    ∃ tr issued, Raises.Run (boundToEngine.issue "m" "agent:a" tenSeconds.scope (some 1000000)) tr
        (.ok issued) ∧
      ∃ t₂ t₃ b, (readings tr)[1]? = some t₂ ∧ (readings tr)[2]? = some t₃ ∧
        issued.token = boundToEngine.tokens.lib.toBase64 b ∧
        ⟨"issued_at", [.ofInstant t₃]⟩ ∈ b.authority ∧
        ((issued.expiresAt ≤ tenSeconds.expiresAt ∧
            issued.expiresAt - t₃ ≤ tenSeconds.maxTokenTtl) ↔
          t₂ ≠ tenSeconds.expiresAt ∧
            (t₃ = t₂ ∨ t₃ + min ((some 1000000).getD tenSeconds.maxTokenTtl) tenSeconds.maxTokenTtl
              ≤ tenSeconds.expiresAt)) := by
  obtain ⟨tr₀, hcreate⟩ := create_tenSeconds
  obtain ⟨tr, issued, hissue, hstored, hclock, -⟩ :=
    issue_tenSeconds (by decide +kernel :
      ((boundToEngine.issue "m" "agent:a" tenSeconds.scope (some 1000000)).run.execFrom
          (S := TokenSig) (ticking (some tenSeconds)) []).2.returns
        (fun issued => decide (issued.expiresAt = 1000002)) = true ∧ _)
  refine ⟨tr, issued, hissue, ?_⟩
  exact issue_within_mandate_iff hcreate (by decide) (fun t ht => by cases ht; decide) hissue
    hstored (by rw [hclock]; decide)

/-- The token is issued one tick after its lifetime was bounded, and ends one tick after
the mandate. -/
theorem issue_outlives_mandate :
    (∃ tr₀, Raises.Run (boundToEngine.create "user:alice" "agent:a" tenSeconds.scope 10000000
      "user:alice" none) tr₀ (.ok tenSeconds)) ∧
    ∃ tr issued, Raises.Run (boundToEngine.issue "m" "agent:a" tenSeconds.scope none) tr
        (.ok issued) ∧
      (∀ answer, ⟨.getMandate "m", answer⟩ ∈ tr → answer = .ok (some tenSeconds)) ∧
      readings tr = [0, 1, 2, 3] ∧ issued.expiresAt = tenSeconds.expiresAt + 1 :=
  ⟨create_tenSeconds, issue_tenSeconds (by decide +kernel)⟩

end MandateService

end HeadOfContext
