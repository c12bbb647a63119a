import HeadOfContext.Tokens.Attenuation
import HeadOfContext.Tokens.Trail

/-!
# The two layers of a delegated token agree

A token that was issued and then attenuated says twice what it allows. To the authorizer
it says so in Datalog: the facts of the authority block, and one check for each hop. To
the rest of the service it says so through the chain that `load` rebuilds from the same
facts and from the trail. `layers_agree` states that the two answers are the same for
every operation and resource.

* For one scope, `scopeCheck_holds` and `policies_match` identify the Datalog with
  `Scope.covers`: the star that is stripped in a pattern is the star that `covers` strips.
* For a chain of hops, the checks ask that every declared scope covers the request. As
  each scope is covered by the one before it, the last one decides (`Minted.permits`).
-/

namespace HeadOfContext

open Effects Datalog Biscuit PyText Except

/-! ### One scope -/

/-- The facts name one operation and one resource. -/
structure Requests (facts : Facts) (target : Capability) : Prop where
  operation : ∀ ts, ⟨"operation", ts⟩ ∈ facts ↔ ts = [.str target.kind.str]
  resource : ∀ ts, ⟨"resource", ts⟩ ∈ facts ↔ ts = [.str target.resource]

variable {facts : Facts} {target : Capability}

theorem Requests.eq_operation (h : Requests facts target) {v : Value}
    (hmem : ⟨"operation", [v]⟩ ∈ facts) : v = .str target.kind.str :=
  (List.cons.inj ((h.operation _).mp hmem)).1

theorem Requests.eq_resource (h : Requests facts target) {v : Value}
    (hmem : ⟨"resource", [v]⟩ ∈ facts) : v = .str target.resource :=
  (List.cons.inj ((h.resource _).mp hmem)).1

theorem safe_scopeClause (cap : Capability) : (scopeClause cap).body.Safe := by
  intro g hg
  simp only [scopeClause, Clause.body, List.map_cons, List.map_nil, List.mem_cons,
    List.not_mem_nil, or_false] at hg
  rcases hg with rfl | rfl
  · simp [Body.Binds, Expr.guard, termVars, atomVars, scopeClause, Clause.body]
  · split <;> simp [Body.Binds, Expr.guard, termVars, atomVars, scopeClause, Clause.body]

theorem beq_str_iff {s t : String} : (Value.str s == Value.str t) = true ↔ s = t := by
  rw [beq_iff_eq, Value.str.injEq]

/-- The alternative of a capability holds exactly when it covers the request. -/
theorem scopeClause_holds (h : Requests facts target) (cap : Capability) :
    (scopeClause cap).body.holds facts = true ↔ cap.covers target = true := by
  rw [Body.holds_iff (safe_scopeClause cap), Capability.covers]
  constructor
  · rintro ⟨σ, hatoms, hguards⟩
    have hop : σ "op" = .str target.kind.str := h.eq_operation (hatoms _ List.mem_cons_self)
    have hr : σ "r" = .str target.resource :=
      h.eq_resource (hatoms _ (List.mem_cons_of_mem _ List.mem_cons_self))
    have hkind : target.kind = cap.kind := by
      have hg := hguards _ List.mem_cons_self
      simp only [Expr.guard, List.map_cons, List.map_nil, Term.eval, hop] at hg
      exact Kind.str_injective (beq_str_iff.mp hg)
    have hlast := hguards _ (List.mem_cons_of_mem _ List.mem_cons_self)
    rw [if_neg (not_not.mpr hkind.symm)]
    cases hp : cap.isPattern with
    | true =>
      simp only [hp, if_true, Expr.guard, List.map_cons, List.map_nil, Term.eval, hr] at hlast
      exact hlast
    | false =>
      simp only [hp, Bool.false_eq_true, if_false, Expr.guard, List.map_cons, List.map_nil,
        Term.eval, hr] at hlast
      simpa using (beq_str_iff.mp hlast).symm
  · intro hcov
    have hkind : cap.kind = target.kind := by
      by_contra hne
      rw [if_pos hne] at hcov
      exact absurd hcov (by decide)
    rw [if_neg (not_not.mpr hkind)] at hcov
    -- the one valuation that can match
    let σ : String → Value :=
      fun x => if x = "op" then .str target.kind.str else .str target.resource
    refine ⟨σ, fun a ha => ?_, fun g hg => ?_⟩
    · simp only [scopeClause, Clause.body, List.mem_cons, List.not_mem_nil, or_false] at ha
      rcases ha with rfl | rfl
      · exact (h.operation _).mpr rfl
      · exact (h.resource _).mpr rfl
    · simp only [scopeClause, Clause.body, List.map_cons, List.map_nil, List.mem_cons,
        List.not_mem_nil, or_false] at hg
      rcases hg with rfl | rfl
      · exact beq_str_iff.mpr (congrArg Kind.str hkind.symm)
      · cases hp : cap.isPattern with
        | true =>
          rw [hp] at hcov
          exact hcov
        | false =>
          rw [hp] at hcov
          exact beq_str_iff.mpr (beq_iff_eq.mp hcov).symm

/-- **The check of a hop is its declared scope.** -/
theorem scopeCheck_holds (h : Requests facts target) (scope : Scope) :
    (scopeCheck scope).holds facts = true ↔ scope.covers target = true := by
  rw [Scope.covers_iff, scopeCheck, Check.holds]
  by_cases hempty : scope.sorted = []
  · rw [if_pos hempty, hempty]
    have hsafe : (Clause.mk [] [.const false]).body.Safe := by
      intro g hg
      rw [List.mem_singleton.mp hg]
      exact List.nil_subset _
    constructor
    · intro hany
      obtain ⟨k, hk, hholds⟩ := List.any_eq_true.mp hany
      rw [List.mem_singleton.mp hk] at hholds
      obtain ⟨σ, -, hguards⟩ := (Body.holds_iff hsafe).mp hholds
      have hfalse : false = true := hguards _ List.mem_cons_self
      exact absurd hfalse (by decide)
    · rintro ⟨cap, hcap, -⟩
      exact absurd hcap List.not_mem_nil
  · rw [if_neg hempty]
    simp only [List.any_map, List.any_eq_true, Function.comp_apply]
    exact exists_congr fun cap => and_congr_right fun _ => scopeClause_holds h cap

/-! ### The policies -/

/-- The facts hold the capabilities of the scope, as `authority_builder` writes them. -/
structure Grants (facts : Facts) (scope : Scope) : Prop where
  exact : ∀ v w, ⟨"cap_exact", [v, w]⟩ ∈ facts ↔
    ∃ cap ∈ scope.sorted.filter (!·.isPattern), v = .str cap.kind.str ∧ w = .str cap.resource
  patterns : ∀ v w, ⟨"cap_prefix", [v, w]⟩ ∈ facts ↔
    ∃ cap ∈ scope.sorted.filter (·.isPattern),
      v = .str cap.kind.str ∧ w = .str (dropLast cap.resource)

theorem exactClause_holds {scope : Scope} (h : Requests facts target) (hg : Grants facts scope) :
    exactClause.body.holds facts = true ↔
      ∃ cap ∈ scope.sorted, cap.isPattern = false ∧ cap.covers target = true := by
  have hsafe : exactClause.body.Safe := fun g hg => absurd hg List.not_mem_nil
  rw [Body.holds_iff hsafe]
  constructor
  · -- the atoms bind the operation, the resource and an exact capability
    rintro ⟨σ, hatoms, -⟩
    have hop : σ "op" = .str target.kind.str := h.eq_operation (hatoms _ List.mem_cons_self)
    have hr : σ "r" = .str target.resource :=
      h.eq_resource (hatoms _ (List.mem_cons_of_mem _ List.mem_cons_self))
    obtain ⟨cap, hcap, hk, hres⟩ := (hg.exact _ _).mp (hatoms _
      (List.mem_cons_of_mem _ (List.mem_cons_of_mem _ List.mem_cons_self)))
    obtain ⟨hmem, hp⟩ := List.mem_filter.mp hcap
    have hp' : cap.isPattern = false := by simpa using hp
    simp only [Term.eval, hop, hr, Value.str.injEq] at hk hres
    exact ⟨cap, hmem, hp', Capability.covers_iff.mpr ⟨Kind.str_injective hk.symm,
      .inl ⟨hp', hres.symm⟩⟩⟩
  · rintro ⟨cap, hmem, hp, hcov⟩
    obtain ⟨hk, hres⟩ := Capability.covers_iff.mp hcov
    rcases hres with ⟨-, hres⟩ | ⟨hp', -⟩
    · -- the valuation that the covering capability gives
      let σ : String → Value := fun x =>
        if x = "op" then .str target.kind.str else .str target.resource
      refine ⟨σ, fun a ha => ?_, fun g hg => absurd hg List.not_mem_nil⟩
      simp only [exactClause, Clause.body, List.mem_cons, List.not_mem_nil, or_false] at ha
      rcases ha with rfl | rfl | rfl
      · exact (h.operation _).mpr rfl
      · exact (h.resource _).mpr rfl
      · refine (hg.exact _ _).mpr ⟨cap, List.mem_filter.mpr ⟨hmem, by simp [hp]⟩, ?_, ?_⟩
        · exact congrArg (fun k : Kind => Value.str k.str) hk.symm
        · exact congrArg Value.str hres.symm
    · rw [hp] at hp'
      exact absurd hp' (by decide)

theorem prefixClause_holds {scope : Scope} (h : Requests facts target) (hg : Grants facts scope) :
    prefixClause.body.holds facts = true ↔
      ∃ cap ∈ scope.sorted, cap.isPattern = true ∧ cap.covers target = true := by
  have hsafe : prefixClause.body.Safe := by
    intro g hg
    rw [List.mem_singleton.mp hg]
    simp [Body.Binds, Expr.guard, termVars, atomVars, prefixClause, Clause.body]
  rw [Body.holds_iff hsafe]
  constructor
  · -- the atoms bind the operation, the resource and the prefix of a granted pattern
    rintro ⟨σ, hatoms, hguards⟩
    have hop : σ "op" = .str target.kind.str := h.eq_operation (hatoms _ List.mem_cons_self)
    have hr : σ "r" = .str target.resource :=
      h.eq_resource (hatoms _ (List.mem_cons_of_mem _ List.mem_cons_self))
    obtain ⟨cap, hcap, hk, hpre⟩ := (hg.patterns _ _).mp (hatoms _
      (List.mem_cons_of_mem _ (List.mem_cons_of_mem _ List.mem_cons_self)))
    obtain ⟨hmem, hp⟩ := List.mem_filter.mp hcap
    have hstarts := hguards _ List.mem_cons_self
    simp only [Term.eval, hop, Value.str.injEq] at hk hpre
    simp only [Expr.guard, List.map_cons, List.map_nil, Term.eval, hr, hpre, startsWith_iff,
      toList_dropLast] at hstarts
    exact ⟨cap, hmem, hp, Capability.covers_iff.mpr ⟨Kind.str_injective hk.symm,
      .inr ⟨hp, hstarts⟩⟩⟩
  · rintro ⟨cap, hmem, hp, hcov⟩
    obtain ⟨hk, hres⟩ := Capability.covers_iff.mp hcov
    rcases hres with ⟨hp', -⟩ | ⟨-, hpre⟩
    · rw [hp] at hp'
      exact absurd hp' (by decide)
    · -- the valuation that the covering capability gives
      let σ : String → Value := fun x =>
        if x = "op" then .str target.kind.str
        else if x = "r" then .str target.resource else .str (dropLast cap.resource)
      refine ⟨σ, fun a ha => ?_, fun g hg => ?_⟩
      · simp only [prefixClause, Clause.body, List.mem_cons, List.not_mem_nil, or_false] at ha
        rcases ha with rfl | rfl | rfl
        · exact (h.operation _).mpr rfl
        · exact (h.resource _).mpr rfl
        · refine (hg.patterns _ _).mpr ⟨cap, List.mem_filter.mpr ⟨hmem, hp⟩, ?_, rfl⟩
          exact congrArg (fun k : Kind => Value.str k.str) hk.symm
      · rw [List.mem_singleton.mp hg]
        exact startsWith_iff.mpr (by rwa [toList_dropLast])

/-- **The policies allow what the scope covers.** -/
theorem policies_match {a : Authorizer} {b : Biscuit} {scope : Scope}
    (ha : a.policies = authorizerPolicies) (h : Requests (a.visible b) target)
    (hg : Grants (a.visible b) scope) :
    (∃ p, a.matched b = some p ∧ p.allow = true) ↔ scope.covers target = true := by
  have hscope : scope.covers target = true ↔
      exactClause.body.holds (a.visible b) = true ∨ prefixClause.body.holds (a.visible b) =
        true := by
    rw [exactClause_holds h hg, prefixClause_holds h hg, Scope.covers_iff]
    constructor
    · rintro ⟨cap, hcap, hcov⟩
      cases hp : cap.isPattern with
      | false => exact .inl ⟨cap, hcap, hp, hcov⟩
      | true => exact .inr ⟨cap, hcap, hp, hcov⟩
    · rintro (⟨cap, hcap, -, hcov⟩ | ⟨cap, hcap, -, hcov⟩)
      · exact ⟨cap, hcap, hcov⟩
      · exact ⟨cap, hcap, hcov⟩
  rw [hscope, Authorizer.matched, ha, authorizerPolicies]
  cases he : exactClause.body.holds (a.visible b) with
  | true => simp [he]
  | false =>
    cases hpre : prefixClause.body.holds (a.visible b) with
    | true => simp [he, hpre]
    | false =>
      -- neither matches, and the last policy denies
      simp only [List.find?, he, hpre, Bool.false_eq_true, or_self, iff_false, not_exists, not_and]
      intro p hp
      split at hp
      · obtain rfl := Option.some.inj hp
        decide
      · exact absurd hp (by simp)

/-! ### Issued and attenuated tokens -/

/-- Every resource of the scope is documented. -/
def DocumentedScope (scope : Scope) : Prop := ∀ cap ∈ scope.sorted, Documented cap.resource

namespace TokenService

variable {Text : Type} (svc : TokenService Text)

/-- A token that was issued and then attenuated any number of times, by calls that
returned, with references in the documented charset. -/
inductive Minted : Text → Prop
  | issue {c : PrincipalChain} {ttl : Option ℤ} {mandateId : Option String} {tr : Trace TokenSig}
      {issued : IssuedToken Text} (h : Raises.Run (svc.issue c ttl mandateId) tr (.ok issued))
      (hactor : Documented c.actor) (hscope : DocumentedScope c.scope) : Minted issued.token
  | attenuate {token : Text} {toActor : String} {scope : Scope} {tr : Trace TokenSig}
      {issued : IssuedToken Text} (hm : Minted token)
      (h : Raises.Run (svc.attenuate token toActor scope) tr (.ok issued))
      (hactor : Documented toActor) (hscope : DocumentedScope scope) : Minted issued.token

/-- What such a token is made of: the token, the chain it loads as, and its expiry before
it is cut to seconds. -/
inductive Built : Biscuit → PrincipalChain → ℤ → Prop
  | root {c root : PrincipalChain} {ttl : Option ℤ} {mandateId : Option String} {issuedAt : ℤ}
      {key : PrivateKey} {id : String}
      (hroot : PrincipalChain.root c.subject c.actor c.scope = .ok root)
      (hactor : Documented c.actor) :
      Built (svc.rootToken c ttl mandateId issuedAt key id) root (issuedAt + ttlOr ttl svc.ttl)
  | hop {b : Biscuit} {c c' : PrincipalChain} {expiresAt : ℤ} {toActor id : String} {scope : Scope}
      (hb : Built b c expiresAt) (hc : c.delegate toActor scope = .ok c')
      (hactor : Documented toActor) (hscope : DocumentedScope scope) :
      Built (b.appendBlock ((attenuationBuilder c.actor toActor scope).build svc.lib id)) c'
        expiresAt

variable {svc} {b : Biscuit} {c : PrincipalChain} {expiresAt : ℤ}

/-- The authority block of such a token. -/
theorem Built.authority (h : svc.Built b c expiresAt) :
    ∃ (c₀ root : PrincipalChain) (issuedAt : ℤ) (mandateId : Option String),
      b.authority =
        (authorityBuilder c₀.subject c₀.actor c₀.scope issuedAt expiresAt mandateId).facts ∧
      PrincipalChain.root c₀.subject c₀.actor c₀.scope = .ok root ∧
      followTrail root b.blocks = .ok c ∧ Documented c.actor ∧ b.blocks.length = c.depth := by
  -- the induction is on the hops; each appends one block, which reads as its hop
  induction h with
  | @root c₀ root ttl mandateId issuedAt key id hroot hactor =>
    obtain ⟨-, ha, hdel, -, -⟩ := PrincipalChain.make_ok hroot
    refine ⟨c₀, root, issuedAt, mandateId, rfl, hroot, rfl, ?_, ?_⟩
    · rw [ha]
      exact hactor
    · rw [PrincipalChain.depth, hdel]
      rfl
  | @hop b c c' expiresAt toActor id scope hb hc hactor hscope ih =>
    obtain ⟨c₀, root, issuedAt, mandateId, hauthority, hroot, htrail, hdoc, hlen⟩ := ih
    obtain ⟨-, -, hactor', -, link, hlink, -⟩ := PrincipalChain.delegate_ok hc
    have hto : isRef toActor "agent" = true := by
      rw [← hactor']
      exact c'.actor_isRef
    refine ⟨c₀, root, issuedAt, mandateId, hauthority, hroot, ?_, by rwa [hactor'], ?_⟩
    · refine followTrail_append.mpr ⟨c, htrail, ?_⟩
      rw [followTrail, parseTrailBlock_built svc.lib c.actor_isRef hto hdoc hactor hscope, ok_bind]
      simp only [bind_eq_ok, raiseIf_eq_ok]
      exact ⟨(), not_not.mpr rfl, c', hc, rfl⟩
    · rw [PrincipalChain.depth_delegate hc, ← hlen]
      exact List.length_append

/-- Such a token loads as its chain. -/
theorem Built.chain_of_load (h : svc.Built b c expiresAt) {l : Loaded}
    (hl : loadBiscuit svc.lib b = .ok l) :
    l.chain = c ∧ l.expiresAt = expiresAt / 1000000 * 1000000 := by
  obtain ⟨c₀, root, issuedAt, mandateId, hauthority, hroot, htrail, -, -⟩ := h.authority
  obtain ⟨-, authority, m, root', chain, ha, -, hroot', hchain, rfl⟩ := loadBiscuit_eq_ok.mp hl
  rw [readAuthority_built svc.lib hauthority] at ha
  obtain rfl := Except.ok.inj ha
  rw [hroot] at hroot'
  obtain rfl := Except.ok.inj hroot'
  rw [htrail] at hchain
  exact ⟨(Except.ok.inj hchain).symm, rfl⟩

/-- A minted token is built so. -/
theorem Minted.built {token : Text} (h : svc.Minted token) :
    ∃ b c expiresAt, token = svc.lib.toBase64 b ∧ svc.Built b c expiresAt := by
  induction h with
  | @issue c ttl mandateId tr issued h hactor hscope =>
    obtain ⟨issuedAt, key, id, -, -, hdepth, -, rfl⟩ := issue_run h
    obtain ⟨root, hroot⟩ := PrincipalChain.exists_root hdepth
    exact ⟨_, root, _, rfl, .root hroot hactor⟩
  | @attenuate token toActor scope tr issued hm h hactor hscope ih =>
    obtain ⟨b, c, expiresAt, rfl, hb⟩ := ih
    obtain ⟨l, c', id, at_, eventId, hto, hload, -, hc', -, rfl⟩ := attenuate_run h
    obtain ⟨-, hload⟩ := load_toBase64.mp hload
    obtain ⟨hchain, -⟩ := hb.chain_of_load hload
    have hbiscuit := biscuit_of_loadBiscuit hload
    rw [hchain] at hc'
    refine ⟨_, c', expiresAt, rfl, ?_⟩
    rw [hopToken, hbiscuit, hchain]
    exact .hop hb hc' hactor hscope

/-! ### What the authorizer sees -/

section Visible

variable {c₀ : PrincipalChain} {issuedAt now : ℤ} {mandateId : Option String} {caller : String}

/-- Facts with other names change neither the request nor the capabilities. -/
theorem requests_append {extra : Facts} (h : Requests facts target)
    (hextra : ∀ f ∈ extra, f.name ≠ "operation" ∧ f.name ≠ "resource") :
    Requests (facts ++ extra) target where
  operation ts := by
    rw [List.mem_append, or_iff_left fun hf => (hextra _ hf).1 rfl]
    exact h.operation ts
  resource ts := by
    rw [List.mem_append, or_iff_left fun hf => (hextra _ hf).2 rfl]
    exact h.resource ts

/-- No fact of an authority block has one of the names of the request. -/
theorem authority_name {f : Fact Value}
    (h : f ∈ (authorityBuilder c₀.subject c₀.actor c₀.scope issuedAt expiresAt mandateId).facts) :
    f.name ≠ "operation" ∧ f.name ≠ "resource" ∧ f.name ≠ "time" := by
  rcases mem_authorityBuilder.mp h with rfl | rfl | rfl | rfl | ⟨cap, -, rfl⟩ | ⟨id, -, rfl⟩
  · simp
  · simp
  · simp
  · simp
  · rw [capFact_name]
    split <;> decide
  · simp

/-- The facts of `authority_builder` and the request. -/
theorem requests_visible
    (h : b.authority =
      (authorityBuilder c₀.subject c₀.actor c₀.scope issuedAt expiresAt mandateId).facts) :
    Requests ((authorizer caller target.kind target.resource now).visible b) target := by
  refine ⟨fun ts => ?_, fun ts => ?_⟩
  · rw [Authorizer.visible, h, List.mem_append, or_iff_right fun hf => (authority_name hf).1 rfl]
    simp [authorizer]
  · rw [Authorizer.visible, h, List.mem_append, or_iff_right fun hf => (authority_name hf).2.1 rfl]
    simp [authorizer]

theorem grants_visible
    (h : b.authority =
      (authorityBuilder c₀.subject c₀.actor c₀.scope issuedAt expiresAt mandateId).facts) :
    Grants ((authorizer caller target.kind target.resource now).visible b) c₀.scope := by
  refine ⟨fun v w => ?_, fun v w => ?_⟩
  · rw [Authorizer.visible, h, List.mem_append, mem_cap_exact]
    exact or_iff_left (by simp [authorizer])
  · rw [Authorizer.visible, h, List.mem_append, mem_cap_prefix]
    exact or_iff_left (by simp [authorizer])

/-- The check of the authority block compares dates in whole seconds. -/
theorem expiryCheck_holds (target : Capability)
    (h : b.authority =
      (authorityBuilder c₀.subject c₀.actor c₀.scope issuedAt expiresAt mandateId).facts) :
    (expiryCheck expiresAt).holds
        ((authorizer caller target.kind target.resource now).visible b) = true ↔
      now / 1000000 < expiresAt / 1000000 := by
  -- the one `time` fact is the authorizer's
  have htime : ∀ ts, ⟨"time", ts⟩ ∈
      (authorizer caller target.kind target.resource now).visible b ↔ ts = [.ofInstant now] := by
    intro ts
    rw [Authorizer.visible, h, List.mem_append, or_iff_right fun hf => (authority_name hf).2.2 rfl]
    simp [authorizer]
  have hany : ∀ fs, (expiryCheck expiresAt).holds fs = true ↔
      ∃ k ∈ (expiryCheck expiresAt).clauses, k.body.Holds fs := fun fs => by
    rw [Check.holds, List.any_eq_true]
    exact exists_congr fun k => and_congr_right fun hk => Body.holds_iff (safe_expiryCheck hk)
  rw [hany]
  constructor
  · rintro ⟨k, hk, σ, hatoms, hguards⟩
    obtain rfl := List.mem_singleton.mp hk
    have ht : σ "t" = .ofInstant now :=
      (List.cons.inj ((htime _).mp (hatoms _ List.mem_cons_self))).1
    have hlt := hguards _ List.mem_cons_self
    simpa [Expr.guard, Term.eval, ht, Value.ofInstant] using hlt
  · intro hlt
    refine ⟨_, List.mem_singleton.mpr rfl, fun _ => .ofInstant now, fun a ha => ?_, fun g hg => ?_⟩
    · rw [List.mem_singleton.mp ha]
      exact (htime _).mpr rfl
    · rw [List.mem_singleton.mp hg]
      simpa [Expr.guard, Term.eval, Value.ofInstant] using hlt

end Visible

/-- The checks of a token with one more hop. -/
theorem forall_checks_appendBlock {block : Block} {facts : Facts} :
    (∀ check ∈ (b.appendBlock block).checks, check.holds facts = true) ↔
      (∀ check ∈ b.checks, check.holds facts = true) ∧
        ∀ check ∈ block.checks, check.holds facts = true := by
  unfold Biscuit.checks Biscuit.appendBlock
  rw [List.flatMap_append, ← List.append_assoc, List.forall_mem_append]
  simp

/-- **The authorizer permits what the last scope covers**, until the token expires. -/
theorem Built.permits (h : svc.Built b c expiresAt) {now : ℤ} {caller : String} :
    (authorizer caller target.kind target.resource now).authorize b = .ok () ↔
      now / 1000000 < expiresAt / 1000000 ∧ c.scope.covers target = true := by
  rw [Authorizer.authorize_eq_ok]
  induction h with
  | @root c₀ root ttl mandateId issuedAt key id hroot hactor =>
    obtain ⟨-, -, -, hscope, -⟩ := PrincipalChain.make_ok hroot
    rw [policies_match rfl (requests_visible rootToken_authority)
      (grants_visible rootToken_authority),
      hscope, and_comm]
    refine and_congr_left fun _ => ?_
    have hexpiry : (expiryCheck (issuedAt + ttlOr ttl svc.ttl)).holds
        ((authorizer caller target.kind target.resource now).visible
          (svc.rootToken c₀ ttl mandateId issuedAt key id)) = true ↔
        now / 1000000 < (issuedAt + ttlOr ttl svc.ttl) / 1000000 :=
      expiryCheck_holds target rootToken_authority
    rw [← hexpiry]
    constructor
    · intro hall
      exact hall _ (List.mem_append_left _ List.mem_cons_self)
    · intro hholds check hcheck
      rcases List.mem_append.mp hcheck with hcheck | hcheck
      · rw [rootToken_checks hcheck]
        exact hholds
      · exact absurd hcheck List.not_mem_nil
  | @hop b c c' expiresAt toActor id scope hb hc hactor hscope ih =>
    obtain ⟨c₀, -, issuedAt, mandateId, hauthority, -, -, -, -⟩ := hb.authority
    obtain ⟨hsub, -, -, hsc, -⟩ := PrincipalChain.delegate_ok hc
    have hrequests : Requests ((authorizer caller target.kind target.resource now).visible b ++
        (attenuationBuilder c.actor toActor scope).facts) target := by
      refine requests_append (requests_visible hauthority) fun f hf => ?_
      rcases List.mem_cons.mp hf with rfl | hf
      · simp
      · obtain ⟨cap, -, rfl⟩ := List.mem_map.mp hf
        simp
    have hblock : (∀ check ∈ ((attenuationBuilder c.actor toActor scope).build svc.lib id).checks,
        check.holds ((authorizer caller target.kind target.resource now).visible b) = true) ↔
          scope.covers target = true := by
      rw [← scopeCheck_holds hrequests]
      constructor
      · exact fun hall => hall _ List.mem_cons_self
      · intro hholds check hcheck
        rw [List.mem_singleton.mp hcheck]
        exact hholds
    have hsame : ∀ block : Block,
        (authorizer caller target.kind target.resource now).visible (b.appendBlock block) =
          (authorizer caller target.kind target.resource now).visible b := fun _ => rfl
    rw [forall_checks_appendBlock, hsame, hblock, ← and_assoc, hsc]
    -- the new scope is inside the old one, so it decides alone
    refine (and_congr_left fun _ => ih).trans ?_
    constructor
    · rintro ⟨⟨hlt, -⟩, hcov⟩
      exact ⟨hlt, hcov⟩
    · rintro ⟨hlt, hcov⟩
      exact ⟨⟨hlt, Scope.covers_of_isSubsetOf hsub hcov⟩, hcov⟩

/-- **The two layers agree.** For a token issued and attenuated with documented references,
before its expiry, the authorizer permits exactly what the rebuilt scope covers. -/
theorem layers_agree {token : Text} {l : Loaded} (h : svc.Minted token)
    (hl : load svc.lib svc.keyring token = .ok l) (target : Capability) {now : ℤ}
    (hnow : now < l.expiresAt) (caller : String) :
    (authorizer caller target.kind target.resource now).authorize l.biscuit = .ok () ↔
      l.chain.scope.covers target = true := by
  obtain ⟨b, c, expiresAt, rfl, hb⟩ := h.built
  obtain ⟨-, hload⟩ := load_toBase64.mp hl
  obtain ⟨hchain, hexpires⟩ := hb.chain_of_load hload
  rw [biscuit_of_loadBiscuit hload, hb.permits, hchain]
  refine and_iff_right ?_
  rw [hexpires] at hnow
  omega

/-- The agreement at one hop to a narrower scope: `doc:1` is permitted, `doc:2` is not. -/
theorem layers_agree_hop :
    ∃ token l, load oneKey.lib oneKey.keyring token = .ok l ∧ l.chain.depth = 1 ∧
      (authorizer "agent:b" .read "doc:1" 0).authorize l.biscuit = .ok () ∧
      (authorizer "agent:b" .read "doc:2" 0).authorize l.biscuit ≠ .ok () := by
  let narrow : Scope := .fromIterable [⟨.read, "doc:1", by decide⟩]
  have hissue := Raises.run_result (S := TokenSig) (fixedAt 0 fun _ => false)
    (oneKey.issue .aliceReader none none)
  have hroot : oneKey.Minted readerToken := .issue hissue (by decide)
    (by unfold DocumentedScope; decide)
  -- the child is loaded, and its chain covers the one resource and not the other
  have hreturns : ((oneKey.attenuate readerToken "agent:b" narrow).result (S := TokenSig)
      (fixedAt 0 fun _ => false)).returns (fun issued =>
        (load oneKey.lib oneKey.keyring issued.token).returns fun l =>
          l.chain.depth == 1 && decide (0 < l.expiresAt) &&
            l.chain.scope.covers ⟨.read, "doc:1", by decide⟩ &&
            !l.chain.scope.covers ⟨.read, "doc:2", by decide⟩) = true := by
    decide +kernel
  obtain ⟨issued, hissued, hload⟩ := Except.returns_iff.mp hreturns
  obtain ⟨l, hl, hfacts⟩ := Except.returns_iff.mp hload
  simp only [Bool.and_eq_true, beq_iff_eq, decide_eq_true_eq, Bool.not_eq_true'] at hfacts
  obtain ⟨⟨⟨hdepth, hexpires⟩, hyes⟩, hno⟩ := hfacts
  have hrun := Raises.run_result (S := TokenSig) (fixedAt 0 fun _ => false)
    (oneKey.attenuate readerToken "agent:b" narrow)
  rw [hissued] at hrun
  have hminted : oneKey.Minted issued.token :=
    .attenuate hroot hrun (by decide) (by unfold DocumentedScope; decide)
  refine ⟨issued.token, l, hl, hdepth, ?_, ?_⟩
  · exact (layers_agree hminted hl ⟨.read, "doc:1", by decide⟩ hexpires "agent:b").mpr hyes
  · rw [Ne, layers_agree hminted hl ⟨.read, "doc:2", by decide⟩ hexpires "agent:b", hno]
    decide

end TokenService

end HeadOfContext
