import HeadOfContext.Api.RevokedTokens
import HeadOfContext.Framework.Handlers
import HeadOfContext.Integrations.SessionJournal
import HeadOfContext.Read.FilterSafety
import HeadOfContext.Tokens.Verifications

/-!
# The read filter over HTTP

`POST /v1/read/filter` filters a list of items for the agent whose bearer it carries, and for the
chain of the token in its body. The filter asks the engine, the clock and the journal of the
services. What it asks of the holder is answered by a program: `verify_many` of the same token, so
that each document passes the token's own checks before the engine is asked about it
(`filtered_verified`).
-/

namespace HeadOfContext

open Effects Except

/-! ### The collaborators -/

/-- A call of the route: one of the other routes', or ListObjects. -/
inductive ReadOp where
  | api (o : ApiOp)
  /-- `engine.list_objects(subject, relation, type)`. -/
  | listObjects (subject relation objectType : String)

/-- The answer to each call. -/
abbrev ReadOp.Res : ReadOp → Type
  | api o => ApiOp.Res o
  | listObjects _ _ _ => Except Exn (List String)

/-- The interface of the route. -/
abbrev ReadSig : Sig := ⟨ReadOp, ReadOp.Res⟩

/-- The route, and its parts. -/
abbrev Reading := Raises ReadSig Exn

namespace Reading

variable {α : Type} {tr : Trace ReadSig} {r : Except Exn α}

/-- Run a part of the other routes. -/
def routed (p : Routed α) : Reading α := p.embed (T := ReadSig) ⟨.api, fun _ r => r⟩

/-- A call of the other routes, as the route sees it. -/
def ofApi (e : Event ApiSig) : Event ReadSig := ⟨.api e.op, e.res⟩

theorem run_routed {p : Routed α} : Raises.Run (routed p) tr r ↔
    ∃ tr₀ : Trace ApiSig, tr = tr₀.map ofApi ∧ Raises.Run p tr₀ r :=
  Prog.run_embed_iff (fun _ => rfl) fun e => ⟨⟨e.op, e.res⟩, rfl⟩

end Reading

/-! ### The route -/

/-- `FilterItem`: of an item the filter reads its `id`. -/
structure FilterItem where
  id : Json

namespace FilterItem

/-- `default_id_of`, of which the filter takes a string. -/
def idOf (item : FilterItem) : Except Exn (Option String) :=
  match item.id with
  | .str s => .ok (PyStr.text s)
  | _ => .ok none

/-- `str(item["id"])`, where `repr` is the text of what is no string. -/
def str (repr : Json → PyStr) (item : FilterItem) : PyStr :=
  match item.id with
  | .str s => s
  | v => repr v

end FilterItem

/-- `FilterResponse`. -/
structure FilterResponse where
  kept : List PyStr
  dropped : List String
  strategy : Option Strategy

namespace Services

variable {Text : Type} (s : Services Text)

/-- `chain_of`. -/
def chainOf (caller : Caller) (token : Text) : Routed PrincipalChain := do
  let verified ← Routed.tokens (s.tokens.inspect token caller.ref)
  return verified.chain

/-- `permits_of`. -/
def permitsOf (caller : Caller) (token : Text) (operation : Kind) (resources : List String) :
    Routed (List (String × Bool)) := do
  let verified ← Routed.tokens (s.tokens.verifyMany token caller.ref operation resources)
  return verified.2

/-- The collaborators of the filter: the services, and the holder's answers by `permits_of`. -/
def filterCalls (caller : Caller) (token : Text) : Handler FilterSig ReadSig
  | .core o => .invoke (S := ReadSig) (.api (.session (.gate (.core o))))
  | .listObjects subject relation objectType =>
    .invoke (S := ReadSig) (.listObjects subject relation objectType)
  | .permits operation resources =>
    (Reading.routed (s.permitsOf caller token operation resources)).run

/-- `Decider(engine, audit, clock)`: there is no policy. -/
def readDecider : Decider := ⟨s.gate.decider.rt, false⟩

/-- `POST /v1/read/filter`. -/
def readFilter (authorization : Option String) (token : Text) (items : List FilterItem)
    (relation : String) (strategy : Strategy) : Reading FilterResponse := do
  let caller ← Reading.routed (s.requireAgent authorization)
  let chain ← Reading.routed (s.chainOf caller token)
  let result ← (filterItems s.readDecider chain items FilterItem.idOf relation strategy false
    true).handle (s.filterCalls caller token)
  return ⟨result.kept.map (FilterItem.str s.repr), result.dropped, result.strategy⟩

end Services

/-! ### What the route is told -/

namespace Reading

/-- The call of the other routes that this is. -/
def apiOf : Event ReadSig → Option (Event ApiSig)
  | ⟨.api o, answer⟩ => some ⟨o, answer⟩
  | _ => none

/-- The calls of the other routes. -/
def apiTrace (tr : Trace ReadSig) : Trace ApiSig := tr.filterMap apiOf

theorem apiTrace_append {tr tr' : Trace ReadSig} :
    apiTrace (tr ++ tr') = apiTrace tr ++ apiTrace tr' := List.filterMap_append

theorem apiTrace_map_ofApi (tr : Trace ApiSig) : apiTrace (tr.map ofApi) = tr := by
  rw [apiTrace, List.filterMap_map]
  exact List.filterMap_some

/-- The call of the core that this is. -/
def coreOf : Event ApiSig → Option (Event CoreSig)
  | ⟨.session (.gate (.core o)), answer⟩ => some ⟨o, answer⟩
  | _ => none

/-- The calls of the core. -/
def coreTrace (h : Trace ApiSig) : Trace CoreSig := h.filterMap coreOf

end Reading

namespace TokenService

variable {l : Loaded} {caller : String} {operation : Kind} {now : ℤ}

/-- A True of the loop of `verify_many` was there before, or the checks of the token permit it. -/
theorem authorized_of_permitsLoop {permits answers : List (String × Bool)}
    {resources : List String}
    (h : permitsLoop l caller operation now permits resources = .ok answers) {r : String}
    (hyes : answers.lookup r = some true) :
    permits.lookup r = some true ∨ authorized l caller operation r now = true := by
  -- the induction is on the resources that are left, over the answers so far
  induction resources generalizing permits with
  | nil =>
    obtain rfl := Except.ok.inj h
    exact .inl hyes
  | cons resource rest ih =>
    rw [permitsLoop] at h
    split_ifs at h with hseen
    · -- a resource that has its answer is passed over
      exact ih h
    obtain ⟨_, -, hrest⟩ := Except.bind_eq_ok.mp h
    rcases ih hrest with hlookup | hauthorized
    · rw [List.lookup_append] at hlookup
      rcases Option.or_eq_some_iff.mp hlookup with hbefore | ⟨-, hnew⟩
      · exact .inl hbefore
      · by_cases hr : r = resource
        · subst hr
          rw [List.lookup_cons_self] at hnew
          exact .inr (Option.some.inj hnew)
        · rw [List.lookup_cons, beq_false_of_ne hr] at hnew
          cases hnew
    · exact .inr hauthorized

end TokenService

/-! ### Texts of references -/

/-- A text that was read is the string. -/
theorem PyStr.eq_of_text {s : PyStr} {t : String} (h : PyStr.text s = some t) :
    s = .ofString t := by
  have hchars : ∀ (cs : PyStr) (ds : List Char), (cs.mapM fun c =>
      if (Char.ofNat c.val).toNat = c.val then some (Char.ofNat c.val) else none) = some ds →
      cs = ds.map CodePoint.ofChar := by
    -- character by character: a code point that is one has been read as itself
    intro cs
    induction cs with
    | nil =>
      intro ds hds
      obtain rfl := Option.some.inj hds
      rfl
    | cons c cs ih =>
      intro ds hds
      rw [List.mapM_cons] at hds
      obtain ⟨d, hd, hrest⟩ := Option.bind_eq_some_iff.mp hds
      obtain ⟨ds', hds', hcons⟩ := Option.bind_eq_some_iff.mp hrest
      obtain rfl := Option.some.inj hcons
      split_ifs at hd with hscalar
      obtain rfl := Option.some.inj hd
      rw [List.map_cons, ← ih ds' hds']
      exact congrArg (· :: cs) (Fin.ext hscalar.symm)
  obtain ⟨ds, hds, rfl⟩ := Option.map_eq_some_iff.mp h
  rw [PyStr.ofString, String.toList_ofList]
  exact hchars s ds hds

namespace FilterItem

/-- What is printed of an item with a reference is the reference. -/
theorem str_of_reference {repr : Json → PyStr} {item : FilterItem} {ref : String}
    (h : reference idOf item = some ref) : item.str repr = .ofString ref := by
  obtain ⟨id⟩ := item
  -- only a string has a reference, and then it is the reference
  cases id with
  | str s =>
    have htext : PyStr.text s = some ref := by
      unfold reference at h
      split at h
      · next raw hraw =>
        split at h
        · next ref' hvalid =>
          obtain ⟨-, rfl⟩ := validateRef_eq_ok.mp hvalid
          obtain rfl := Option.some.inj h
          exact Except.ok.inj hraw
        · cases h
      · cases h
    exact PyStr.eq_of_text htext
  | _ =>
    have hnone : none = some ref := h
    cases hnone

/-- What is printed of items with references. -/
theorem map_str {repr : Json → PyStr} {items : List FilterItem}
    (h : ∀ item ∈ items, (reference idOf item).isSome = true) :
    items.map (str repr) = (items.filterMap (reference idOf)).map PyStr.ofString := by
  -- the induction is on the items, each of which has a reference
  induction items with
  | nil => rfl
  | cons item rest ih =>
    obtain ⟨hitem, hrest⟩ := List.forall_mem_cons.mp h
    obtain ⟨ref, href⟩ := Option.isSome_iff_exists.mp hitem
    rw [List.map_cons, List.filterMap_cons_some href, List.map_cons, ih hrest,
      str_of_reference href]

end FilterItem

/-! ### What passes -/

namespace Services

/-- **What vouches for a document that passes**, by the history of the route: at a reading of the
clock before the token's expiry, the token's own checks permit the caller to read this document;
the scope of the chain covers it; and the engine has related the chain's subject to it. -/
structure Readable (h : Trace ApiSig) (caller : Caller) (l : Loaded) (relation ref : String) :
    Prop where
  valid : isRef ref "document" = true
  permitted : ∃ now, Routed.ofToken ⟨.now, now⟩ ∈ h ∧ now < l.expiresAt ∧
    TokenService.authorized l caller.ref .read ref now = true
  covered : Covered l.chain .read ref
  related : Related (Reading.coreTrace h) l.chain.subject relation ref

variable {Text : Type} {s : Services Text}

variable (s) in
/-- **What an answer of the route is made of**: the items in their order, those that pass and the
references of the others, after a summary of the two that the journal has accepted. -/
structure FilterAnswer (h : Trace ApiSig) (caller : Caller) (l : Loaded) (relation : String)
    (refs : List (Option String)) (passes : String → Bool) (answer : FilterResponse) : Prop where
  readable : ∀ ref, passes ref = true → Readable h caller l relation ref
  kept : answer.kept = ((refs.filterMap id).filter passes).map PyStr.ofString
  dropped : answer.dropped = (refs.filter fun ref => !ref.any passes).map fun ref =>
    ref.getD "invalid"
  summary : refs ≠ [] → ∃ refused at_ eventId, Routed.ofGate ⟨.core (.record
    (summaryEvent s.readDecider.rt l.chain ⟨.read, relation⟩ ((refs.filterMap id).filter passes)
      answer.dropped refused at_ eventId)), .ok ()⟩ ∈ h

section Mono

variable {h h' : Trace ApiSig} {caller : Caller} {l : Loaded} {relation : String}

theorem Readable.mono {ref : String} (hr : Readable h caller l relation ref) (hsub : h ⊆ h') :
    Readable h' caller l relation ref := by
  obtain ⟨now, hnow, hfresh, hauthorized⟩ := hr.permitted
  exact ⟨hr.valid, ⟨now, hsub hnow, hfresh, hauthorized⟩, hr.covered,
    hr.related.mono (List.filterMap_subset _ hsub)⟩

theorem FilterAnswer.mono {refs : List (Option String)} {passes : String → Bool}
    {answer : FilterResponse} (ha : s.FilterAnswer h caller l relation refs passes answer)
    (hsub : h ⊆ h') : s.FilterAnswer h' caller l relation refs passes answer := by
  refine ⟨fun ref hpass => (ha.readable ref hpass).mono hsub, ha.kept, ha.dropped, fun hrefs => ?_⟩
  obtain ⟨refused, at_, eventId, hrecord⟩ := ha.summary hrefs
  exact ⟨refused, at_, eventId, hsub hrecord⟩

end Mono

section Served

variable {caller : Caller} {token : Text} {tr₀ : Trace FilterSig} {tr : Trace ReadSig}

/-- What the filter was answered by the services, the services have answered the route. -/
theorem core_served (hserves : (s.filterCalls caller token).Serves tr₀ tr) {e : Event CoreSig}
    (he : e ∈ Filtered.coreTrace tr₀) :
    Routed.ofGate ⟨.core e.op, e.res⟩ ∈ Reading.apiTrace tr := by
  obtain ⟨⟨o, r⟩, hmem, hcore⟩ := List.mem_filterMap.mp he
  -- the calls of the core are made as they are; the two others are not of the core
  cases o with
  | core o =>
    obtain rfl := Option.some.inj hcore
    obtain ⟨pre, seg, post, rfl, hrun⟩ := hserves.mem hmem
    obtain rfl := Raises.run_invoke.mp hrun
    rw [Reading.apiTrace_append, Reading.apiTrace_append]
    exact List.mem_append_left _ (List.mem_append_right _ (List.mem_singleton.mpr rfl))
  | listObjects subject relation objectType => cases hcore
  | permits operation resources => cases hcore

/-- A run of `permits_of` reads the clock, and answers by the checks of the token. -/
theorem permitsOf_run {operation : Kind} {resources : List String} {tr : Trace ApiSig}
    {answers : List (String × Bool)}
    (h : Raises.Run (s.permitsOf caller token operation resources) tr (.ok answers)) :
    ∃ l now, load s.tokens.lib s.tokens.keyring token = .ok l ∧
      Routed.ofToken ⟨.now, now⟩ ∈ tr ∧ now < l.expiresAt ∧
      ∀ r, answers.lookup r = some true →
        TokenService.authorized l caller.ref operation r now = true := by
  unfold permitsOf at h
  obtain ⟨⟨v, permits⟩, tr₁, tr₂, rfl, hverify, hdone⟩ := Raises.run_bind_ok.mp h
  obtain ⟨rfl, rfl⟩ := Raises.run_pure_ok.mp hdone
  obtain ⟨tr₀, rfl, hmany⟩ := Routed.run_tokens.mp hverify
  obtain ⟨l, now, hload, -, -, hfresh, hloop, rfl⟩ := TokenService.verifyMany_run_ok hmany
  refine ⟨l, now, hload, by simp, hfresh, fun r hyes => ?_⟩
  -- before the loop no resource has an answer
  rcases TokenService.authorized_of_permitsLoop hloop hyes with hbefore | hauthorized
  · cases hbefore
  · exact hauthorized

/-- What the token has permitted, its checks permit. -/
theorem permits_served (hserves : (s.filterCalls caller token).Serves tr₀ tr) {l : Loaded}
    (hload : load s.tokens.lib s.tokens.keyring token = .ok l) {ref : String}
    (hpermits : TokenPermits tr₀ ref) :
    ∃ now, Routed.ofToken ⟨.now, now⟩ ∈ Reading.apiTrace tr ∧ now < l.expiresAt ∧
      TokenService.authorized l caller.ref .read ref now = true := by
  obtain ⟨wanted, answers, hcall, hyes⟩ := hpermits
  obtain ⟨pre, seg, post, rfl, hrun⟩ := hserves.mem hcall
  obtain ⟨tr₁, rfl, hpermit⟩ := Reading.run_routed.mp hrun
  obtain ⟨l', now, hload', hnow, hfresh, hauthorized⟩ := permitsOf_run hpermit
  -- the token loads in one way
  obtain rfl := Except.ok.inj (hload.symm.trans hload')
  refine ⟨now, ?_, hfresh, hauthorized ref hyes⟩
  rw [Reading.apiTrace_append, Reading.apiTrace_append, Reading.apiTrace_map_ofApi]
  exact List.mem_append_left _ (List.mem_append_right _ hnow)

end Served

/-- A run of `chain_of`: the store was asked, and the chain is that of the token. -/
theorem chainOf_run {caller : Caller} {token : Text} {tr : Trace ApiSig} {chain : PrincipalChain}
    (h : Raises.Run (s.chainOf caller token) tr (.ok chain)) :
    ∃ l, load s.tokens.lib s.tokens.keyring token = .ok l ∧ caller.ref = l.chain.actor ∧
      chain = l.chain ∧ Routed.ofToken ⟨.isRevoked l.revocationIds, .ok false⟩ ∈ tr := by
  unfold chainOf at h
  obtain ⟨v, tr₁, tr₂, rfl, hinspect, hdone⟩ := Raises.run_bind_ok.mp h
  obtain ⟨rfl, rfl⟩ := Raises.run_pure_ok.mp hdone
  obtain ⟨tr₀, rfl, hrun⟩ := Routed.run_tokens.mp hinspect
  obtain ⟨l, now, hload, hholder, rfl, -, rfl⟩ := TokenService.inspect_run_ok hrun
  exact ⟨l, hload, hholder, rfl, by simp⟩

section Answers

variable {caller : Caller} {token : Text} {l : Loaded} {items : List FilterItem} {relation : String}
  {tr₀ : Trace FilterSig} {tr : Trace ReadSig} {result : FilterResult FilterItem}

/-- **What the filter keeps is readable**, where its calls are served for the holder of a token. -/
theorem filterAnswer_of_filters (hserves : (s.filterCalls caller token).Serves tr₀ tr)
    (hload : load s.tokens.lib s.tokens.keyring token = .ok l)
    (h : Filters s.readDecider l.chain relation true FilterItem.idOf items tr₀ result) :
    s.FilterAnswer (Reading.apiTrace tr) caller l relation
      (items.map (reference FilterItem.idOf)) (isKept result.decisionsByRef)
      ⟨result.kept.map (FilterItem.str s.repr), result.dropped, result.strategy⟩ := by
  have hkept : result.kept.filterMap (reference FilterItem.idOf) =
      ((items.map (reference FilterItem.idOf)).filterMap id).filter
        (isKept result.decisionsByRef) := by
    rw [h.kept, ← keptRefs_eq, keptRefs]
  have hkeeps : ∀ ref,
      keeps result.decisionsByRef ref = ref.any (isKept result.decisionsByRef) := by
    intro ref
    cases ref with
    | none => rfl
    | some ref => rfl
  refine ⟨fun ref hpass => ?_, ?_, ?_, fun hrefs => ?_⟩
  · -- an ALLOW is earned: by the token, the scope and the engine
    have hallow : result.decisionsByRef.get ref = some .allow := of_decide_eq_true hpass
    obtain ⟨-, hvalid, hpermits, hcovered, hearned⟩ := h.allow ref hallow
    refine ⟨hvalid, permits_served hserves hload (hpermits rfl), hcovered,
      hearned.related.mono fun e he => ?_⟩
    exact List.mem_filterMap.mpr ⟨_, core_served hserves he, rfl⟩
  · show result.kept.map (FilterItem.str s.repr) = _
    rw [FilterItem.map_str, hkept]
    intro item hitem
    rw [h.kept] at hitem
    have hkeep := (List.mem_filter.mp hitem).2
    cases href : reference FilterItem.idOf item with
    | none =>
      rw [href] at hkeep
      exact absurd hkeep Bool.false_ne_true
    | some ref => rfl
  · -- whatever does not pass is dropped, under its reference or as invalid
    show result.dropped = _
    rw [h.dropped, List.filter_map, List.map_map]
    simp only [hkeeps]
    rfl
  · -- the summary is the last thing the filter journals
    have hitems : items ≠ [] := fun hnil => hrefs (by rw [hnil]; rfl)
    obtain ⟨before, refs, refused, at_, eventId, rfl, hrefs', -, -⟩ := h.summary hitems
    refine ⟨refused, at_, eventId, ?_⟩
    rw [← hkept, ← hrefs']
    refine core_served (e := ⟨_, _⟩) hserves ?_
    exact List.mem_filterMap.mpr ⟨_, List.mem_append_right _ (List.mem_singleton.mpr rfl), rfl⟩

end Answers

/-- **What passes the read filter was verified.** Whatever the collaborators answer, and whatever
happens between their answers: where the route answers, the identity provider has verified its
bearer as the agent that holds the token, no id of the token is revoked, and what it returns are
the documents of the request that the token, the scope of its chain and the engine let this agent
read for this subject, in their order. Everything else is dropped, and the journal has a summary. -/
theorem filtered_verified {authorization : Option String} {token : Text} {items : List FilterItem}
    {relation : String} {strategy : Strategy} {tr : Trace ReadSig} {answer : FilterResponse}
    (h : Raises.Run (s.readFilter authorization token items relation strategy) tr (.ok answer)) :
    ∃ caller l passes, s.Authenticated (Reading.apiTrace tr) authorization caller ∧
      caller = ⟨.agent, l.chain.actor⟩ ∧ load s.tokens.lib s.tokens.keyring token = .ok l ∧
      Routed.ofToken ⟨.isRevoked l.revocationIds, .ok false⟩ ∈ Reading.apiTrace tr ∧
      s.FilterAnswer (Reading.apiTrace tr) caller l relation
        (items.map (reference FilterItem.idOf)) passes answer := by
  unfold readFilter at h
  -- the three parts of the route: the caller, the chain of the token, the filter
  obtain ⟨caller, tr₁, tr₂, rfl, hcaller, h₂⟩ := Raises.run_bind_ok.mp h
  obtain ⟨chain, tr₃, tr₄, rfl, hchain, h₃⟩ := Raises.run_bind_ok.mp h₂
  obtain ⟨result, tr₅, tr₆, rfl, hfilter, hdone⟩ := Raises.run_bind_ok.mp h₃
  obtain ⟨rfl, rfl⟩ := Raises.run_pure_ok.mp hdone
  obtain ⟨tr₁, rfl, hagent⟩ := Reading.run_routed.mp hcaller
  obtain ⟨hauthenticated, hkind, -⟩ := requireAgent_run hagent
  obtain ⟨tr₃, rfl, hchained⟩ := Reading.run_routed.mp hchain
  obtain ⟨l, hload, hholder, rfl, hunrevoked⟩ := chainOf_run hchained
  obtain ⟨tr₀, hserves, hrun⟩ := Raises.run_handle.mp hfilter
  have hanswer := filterAnswer_of_filters hserves hload (filters_of_run hrun)
  rw [List.append_nil, Reading.apiTrace_append, Reading.apiTrace_append,
    Reading.apiTrace_map_ofApi, Reading.apiTrace_map_ofApi]
  refine ⟨caller, l, _, hauthenticated.mono (List.subset_append_left _ _), ?_, hload, ?_,
    hanswer.mono fun e he => List.mem_append_right _ (List.mem_append_right _ he)⟩
  · rw [hkind, hholder]
  · exact List.mem_append_right _ (List.mem_append_left _ hunrevoked)

/-- Three items: a document that alice views, one that has no reference, and one that she does
not view. -/
def threeItems : List FilterItem :=
  [⟨.str (.ofString "document:plan")⟩, ⟨.null⟩, ⟨.str (.ofString "document:payroll")⟩]

/-- A token of alice's agent, for every document. -/
def documentToken : Biscuit := TokenService.oneKey.rootToken documentReader none none 0 [] ""

/-- Collaborators that revoke nothing and relate alice to one document. -/
def planIsViewed : ∀ o, ReadSig.Res o
  | .api (.session (.gate (.core (.batchCheck _ checks)))) =>
    .ok (checks.map fun check => check.2 == "document:plan")
  | .api (.session o) => AgentSession.answeringAt (.ok false) o
  | .api (.verifyUserToken bearer) => agentAndBob bearer
  | .listObjects _ _ _ => .ok []

/-- Her agent asks about the three items, and is given the first. -/
theorem filtered_verified_plan :
    ∃ tr answer caller l passes, answer.kept = [PyStr.ofString "document:plan"] ∧
      answer.dropped = ["invalid", "document:payroll"] ∧
      oneKey.Authenticated (Reading.apiTrace tr) (some "Bearer a") caller ∧
      oneKey.FilterAnswer (Reading.apiTrace tr) caller l "viewer"
        (threeItems.map (reference FilterItem.idOf)) passes answer := by
  have hrun := Raises.run_result (S := ReadSig) planIsViewed
    (oneKey.readFilter (some "Bearer a") documentToken threeItems "viewer" .auto)
  have hanswer : ((oneKey.readFilter (some "Bearer a") documentToken threeItems "viewer"
      .auto).result (S := ReadSig) planIsViewed).toOption.map (fun a => (a.kept, a.dropped)) =
        some ([PyStr.ofString "document:plan"], ["invalid", "document:payroll"]) := by
    decide +kernel
  cases hresult : (oneKey.readFilter (some "Bearer a") documentToken threeItems "viewer"
      .auto).result (S := ReadSig) planIsViewed with
  | error e =>
    rw [hresult] at hanswer
    cases hanswer
  | ok answer =>
    rw [hresult] at hanswer hrun
    obtain ⟨hkept, hdropped⟩ := Prod.mk.inj (Option.some.inj hanswer)
    obtain ⟨caller, l, passes, hauthenticated, -, -, -, hfiltered⟩ := filtered_verified hrun
    exact ⟨_, answer, caller, l, passes, hkept, hdropped, hauthenticated, hfiltered⟩

end Services

end HeadOfContext
