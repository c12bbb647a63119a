import HeadOfContext.Api.ReadFilter
import HeadOfContext.Memory.Admissions
import HeadOfContext.Memory.Runs

/-!
# Memory over HTTP

`POST /v1/memory/remember`, `/recall` and `/forget` run a method of the memory service for the
agent whose bearer they carry, and for the chain of the token in their body. The service asks its
own collaborators. What it asks of the holder is answered by a program: `verify_many` of the same
token. So no memory is returned (`recalled_verified`), written (`remembered_verified`) or deleted
(`forgotten_verified`) that the token's own checks do not permit.
-/

namespace HeadOfContext

open Effects

/-! ### The collaborators -/

/-- A call of a memory route: one of the other routes', or one of the memory service's. -/
inductive NotingOp where
  | api (o : ApiOp)
  | memory (o : MemoryOp)

/-- The answer to each call. -/
abbrev NotingOp.Res : NotingOp → Type
  | api o => ApiOp.Res o
  | memory o => MemoryOp.Res o

/-- The interface of the memory routes. -/
abbrev NotingSig : Sig := ⟨NotingOp, NotingOp.Res⟩

/-- A memory route, and its parts. -/
abbrev Noting := Raises NotingSig Thrown

namespace Noting

variable {α : Type} {tr tr' : Trace NotingSig}

/-- Run a part of the other routes. -/
def routed (p : Routed α) : Noting α :=
  ⟨(p.run.embed (T := NotingSig) ⟨.api, fun _ r => r⟩).bind fun r => .ret (r.mapError .exception)⟩

/-- A call of the other routes, as a memory route sees it. -/
def ofApi (e : Event ApiSig) : Event NotingSig := ⟨.api e.op, e.res⟩

theorem run_routed_ok {p : Routed α} {a : α} (h : Raises.Run (routed p) tr (.ok a)) :
    ∃ tr₀ : Trace ApiSig, tr = tr₀.map ofApi ∧ Raises.Run p tr₀ (.ok a) := by
  obtain ⟨r, tr₁, tr₂, rfl, hembed, hret⟩ := Prog.run_bind.mp h
  obtain ⟨rfl, hr⟩ := Prog.run_ret.mp hret
  have hiff : Prog.Run (p.run.embed (T := NotingSig) ⟨.api, fun _ r => r⟩) tr₁ r ↔
      ∃ tr₀ : Trace ApiSig, tr₁ = tr₀.map ofApi ∧ Prog.Run p.run tr₀ r :=
    Prog.run_embed_iff (fun _ => rfl) fun e => ⟨⟨e.op, e.res⟩, rfl⟩
  obtain ⟨tr₀, rfl, hrun⟩ := hiff.mp hembed
  cases r with
  | error e => cases hr
  | ok b =>
    obtain rfl := Except.ok.inj hr
    exact ⟨tr₀, List.append_nil _, hrun⟩

/-- The call of the other routes that this is. -/
def apiOf : Event NotingSig → Option (Event ApiSig)
  | ⟨.api o, answer⟩ => some ⟨o, answer⟩
  | _ => none

/-- The calls of the other routes. -/
def apiTrace (tr : Trace NotingSig) : Trace ApiSig := tr.filterMap apiOf

/-- The call of the memory service that this is. -/
def memoryOf : Event NotingSig → Option (Event MemorySig)
  | ⟨.memory o, answer⟩ => some ⟨o, answer⟩
  | _ => none

/-- The calls of the memory service. -/
def memoryTrace (tr : Trace NotingSig) : Trace MemorySig := tr.filterMap memoryOf

theorem apiTrace_append : apiTrace (tr ++ tr') = apiTrace tr ++ apiTrace tr' :=
  List.filterMap_append

theorem apiTrace_map_ofApi (tr : Trace ApiSig) : apiTrace (tr.map ofApi) = tr := by
  rw [apiTrace, List.filterMap_map]
  exact List.filterMap_some

theorem memoryTrace_append : memoryTrace (tr ++ tr') = memoryTrace tr ++ memoryTrace tr' :=
  List.filterMap_append

end Noting

/-! ### The bodies -/

/-- `MemoryModel`. -/
structure MemoryModel where
  memoryId : String
  content : PyStr
  derivedFrom : List String
  writtenFor : String
  writtenBy : String
  createdAt : Option ℤ

/-- `MemoryModel.from_core`. -/
def MemoryModel.fromCore (memory : Memory) : MemoryModel where
  memoryId := memory.memoryId
  content := memory.content
  derivedFrom := memory.derivedFrom
  writtenFor := memory.writtenFor
  writtenBy := memory.writtenBy
  createdAt := some memory.createdAt

/-- `RememberRequest`. -/
structure RememberRequest where
  content : PyStr
  derivedFrom : List String
  content_length : 1 ≤ content.length ∧ content.length ≤ 65536
  derivedFrom_length : derivedFrom.length ≤ 256

/-- `RecallRequest`. -/
structure RecallRequest where
  query : PyStr
  limit : ℤ
  query_length : 1 ≤ query.length ∧ query.length ≤ 4096
  limit_range : 1 ≤ limit ∧ limit ≤ 50

/-- `RecallResponse`. -/
structure RecallResponse where
  memories : List MemoryModel

/-- `ForgetRequest`. -/
structure ForgetRequest where
  memoryId : String
  memoryId_length : 8 ≤ memoryId.length ∧ memoryId.length ≤ 256

/-! ### The routes -/

namespace Services

variable {Text : Type} (s : Services Text)

/-- The mapping of `verify_many`: its resources, each with the first answer about it. -/
def mappingOf (answers : List (String × Bool)) : Dict String Bool :=
  answers.foldl (fun d answer => d.setdefault answer.1 answer.2) .empty

/-- The collaborators of the memory service: its own, and the holder's answers by `permits_of`. -/
def memoryCalls (caller : Caller) (token : Text) : Handler MemorySig NotingSig
  | .permits operation resources => (Noting.routed (do
      let answers ← s.permitsOf caller token operation resources
      return mappingOf answers)).run
  | o => .invoke (S := NotingSig) (.memory o)

variable (memory : MemoryService) (authorization : Option String) (token : Text)

/-- `POST /v1/memory/remember`. -/
def memoryRemember (body : RememberRequest) : Noting MemoryModel := do
  let caller ← Noting.routed (s.requireAgent authorization)
  let chain ← Noting.routed (s.chainOf caller token)
  let remembered ← (memory.remember chain body.content body.derivedFrom true).handle
    (s.memoryCalls caller token)
  return .fromCore remembered

/-- `POST /v1/memory/recall`. -/
def memoryRecall (body : RecallRequest) : Noting RecallResponse := do
  let caller ← Noting.routed (s.requireAgent authorization)
  let chain ← Noting.routed (s.chainOf caller token)
  let memories ← (memory.recall chain body.query body.limit true).handle
    (s.memoryCalls caller token)
  return ⟨memories.map MemoryModel.fromCore⟩

/-- `POST /v1/memory/forget`. -/
def memoryForget (body : ForgetRequest) : Noting MemoryModel := do
  let caller ← Noting.routed (s.requireAgent authorization)
  let chain ← Noting.routed (s.chainOf caller token)
  (memory.forget chain body.memoryId true).handle (s.memoryCalls caller token)
  return ⟨body.memoryId, [], [], chain.subject, chain.actor, none⟩

/-! ### What is asked of the holder -/

theorem get_mappingOf {answers : List (String × Bool)} {r : String}
    (h : (mappingOf answers).get r = some true) : answers.lookup r = some true := by
  have hfold : ∀ (answers : List (String × Bool)) (d : Dict String Bool),
      (answers.foldl (fun d answer => d.setdefault answer.1 answer.2) d).get r =
        (d.get r).or (answers.lookup r) := by
    -- the first answer about a resource stays, in the mapping as in the list
    intro answers
    induction answers with
    | nil => exact fun d => (Option.or_none).symm
    | cons answer rest ih =>
      intro d
      rw [List.foldl_cons, ih, Dict.get_setdefault, List.lookup_cons]
      by_cases hr : r = answer.1
      · subst hr
        rw [if_pos rfl, beq_self_eq_true]
        cases d.get answer.1 <;> rfl
      · rw [if_neg hr, beq_false_of_ne hr]
  have hget : (mappingOf answers).get r = answers.lookup r := hfold answers .empty
  rw [← hget]
  exact h

section Served

variable {s} {caller : Caller} {token : Text} {tr₀ : Trace MemorySig} {tr : Trace NotingSig}

/-- What is not asked of the token, the service's own collaborators have answered. -/
theorem memory_served (hserves : (s.memoryCalls caller token).Serves tr₀ tr) {e : Event MemorySig}
    (he : e ∈ tr₀) (hown : ¬ e.op.AsksToken) : e ∈ Noting.memoryTrace tr := by
  obtain ⟨o, r⟩ := e
  obtain ⟨pre, seg, post, rfl, hrun⟩ := hserves.mem he
  -- the handler hands on every call but `permits`
  have hinvoke : s.memoryCalls caller token o = .invoke (S := NotingSig) (.memory o) := by
    cases o with
    | permits operation resources => exact absurd trivial hown
    | _ => rfl
  have hcall : Prog.Run (Prog.invoke (S := NotingSig) (.memory o)) seg r := hinvoke ▸ hrun
  obtain rfl := Raises.run_invoke.mp hcall
  rw [Noting.memoryTrace_append, Noting.memoryTrace_append]
  exact List.mem_append_left _ (List.mem_append_right _ (List.mem_singleton.mpr rfl))

/-- The token's checks permit its holder the operation on the resource, at a reading of the clock
before the token's expiry. -/
def PermittedTo (h : Trace ApiSig) (caller : Caller) (l : Loaded) (operation : Kind)
    (resource : String) : Prop :=
  ∃ now, Routed.ofToken ⟨.now, now⟩ ∈ h ∧ now < l.expiresAt ∧
    TokenService.authorized l caller.ref operation resource now = true

/-- What the token has permitted, its checks permit. -/
theorem permitted_served (hserves : (s.memoryCalls caller token).Serves tr₀ tr) {l : Loaded}
    (hload : load s.tokens.lib s.tokens.keyring token = .ok l) {operation : Kind}
    {resource : String} (hpermitted : PermittedBy tr₀ operation resource) :
    PermittedTo (Noting.apiTrace tr) caller l operation resource := by
  obtain ⟨resources, mapping, hcall, hyes⟩ := hpermitted
  obtain ⟨pre, seg, post, rfl, hrun⟩ := hserves.mem hcall
  obtain ⟨tr₁, rfl, hasked⟩ := Noting.run_routed_ok hrun
  obtain ⟨answers, tr₂, tr₃, rfl, hpermits, hdone⟩ := Raises.run_bind_ok.mp hasked
  obtain ⟨rfl, rfl⟩ := Raises.run_pure_ok.mp hdone
  obtain ⟨l', now, hload', hnow, hfresh, hauthorized⟩ := permitsOf_run hpermits
  -- the token loads in one way
  obtain rfl := Except.ok.inj (hload.symm.trans hload')
  refine ⟨now, ?_, hfresh, hauthorized resource (get_mappingOf hyes)⟩
  rw [Noting.apiTrace_append, Noting.apiTrace_append, Noting.apiTrace_map_ofApi, List.append_nil]
  exact List.mem_append_left _ (List.mem_append_right _ hnow)

end Served

/-! ### What is done for the holder -/

/-- **For whom a memory route runs**, by its history: the agent of its bearer holds the token, and
no id of the token is revoked. -/
structure HeldBy (h : Trace ApiSig) (authorization : Option String) (token : Text)
    (caller : Caller) (l : Loaded) : Prop where
  authenticated : s.Authenticated h authorization caller
  holder : caller = ⟨.agent, l.chain.actor⟩
  loads : load s.tokens.lib s.tokens.keyring token = .ok l
  unrevoked : Routed.ofToken ⟨.isRevoked l.revocationIds, .ok false⟩ ∈ h

variable {s} {memory} {authorization} {token} {tr : Trace NotingSig}

/-- The memory routes are alike: the caller, the chain of the token, and a method of the service.
What the method was answered is in the history, and what the token permitted, its checks permit. -/
theorem held_run {α β : Type} {p : PrincipalChain → Remembering α}
    {f : PrincipalChain → α → β} {b : β} (h : Raises.Run (do
      let caller ← Noting.routed (s.requireAgent authorization)
      let chain ← Noting.routed (s.chainOf caller token)
      let a ← (p chain).handle (s.memoryCalls caller token)
      return f chain a) tr (.ok b)) :
    ∃ caller l tr₀ a, s.HeldBy (Noting.apiTrace tr) authorization token caller l ∧
      Raises.Run (p l.chain) tr₀ (.ok a) ∧ b = f l.chain a ∧
      (∀ e ∈ tr₀, ¬ e.op.AsksToken → e ∈ Noting.memoryTrace tr) ∧
      ∀ operation resource, PermittedBy tr₀ operation resource →
        PermittedTo (Noting.apiTrace tr) caller l operation resource := by
  obtain ⟨caller, tr₁, tr₂, rfl, hcaller, h₂⟩ := Raises.run_bind_ok.mp h
  obtain ⟨chain, tr₃, tr₄, rfl, hchain, h₃⟩ := Raises.run_bind_ok.mp h₂
  obtain ⟨a, tr₅, tr₆, rfl, hmethod, hdone⟩ := Raises.run_bind_ok.mp h₃
  obtain ⟨rfl, rfl⟩ := Raises.run_pure_ok.mp hdone
  obtain ⟨tr₁, rfl, hagent⟩ := Noting.run_routed_ok hcaller
  obtain ⟨hauthenticated, hkind, -⟩ := requireAgent_run hagent
  obtain ⟨tr₃, rfl, hchained⟩ := Noting.run_routed_ok hchain
  obtain ⟨l, hload, hholder, rfl, hunrevoked⟩ := chainOf_run hchained
  obtain ⟨tr₀, hserves, hrun⟩ := Raises.run_handle.mp hmethod
  refine ⟨caller, l, tr₀, a, ⟨?_, ?_, hload, ?_⟩, hrun, rfl, fun e he hown => ?_,
    fun operation resource hpermitted => ?_⟩
  · rw [Noting.apiTrace_append, Noting.apiTrace_map_ofApi]
    exact hauthenticated.mono (List.subset_append_left _ _)
  · rw [hkind, hholder]
  · rw [Noting.apiTrace_append, Noting.apiTrace_append, Noting.apiTrace_map_ofApi,
      Noting.apiTrace_map_ofApi]
    exact List.mem_append_right _ (List.mem_append_left _ hunrevoked)
  · -- the method's calls come after those of the two checks
    rw [List.append_nil, Noting.memoryTrace_append, Noting.memoryTrace_append]
    exact List.mem_append_right _ (List.mem_append_right _ (memory_served hserves he hown))
  · obtain ⟨now, hnow, hchecked⟩ := permitted_served hserves hload hpermitted
    refine ⟨now, ?_, hchecked⟩
    rw [List.append_nil, Noting.apiTrace_append, Noting.apiTrace_append]
    exact List.mem_append_right _ (List.mem_append_right _ hnow)

/-! ### One agent -/

/-- A token of alice's agent, for documents and memories. -/
def keeperToken : Biscuit := TokenService.oneKey.rootToken aliceKeeper none none 0 [] ""

/-- A memory that the agent wrote for alice, from one document. -/
def planNote : MemoryRecord :=
  ⟨"memory:1", "user:alice", "agent:a", ["document:plan"], "", "local", "n1", 0⟩

/-- Collaborators that revoke nothing, whose search finds the note and a hit that no row of the
ledger knows. -/
def noteIsFound : ∀ o, NotingSig.Res o
  | .api (.session o) => AgentSession.answeringAt (.ok false) o
  | .api (.verifyUserToken bearer) => agentAndBob bearer
  | .memory (.core o) => .ok (Decider.agreeable o)
  | .memory .now => (0 : ℤ)
  | .memory .memoryId => "1"
  | .memory .eventId => ""
  | .memory (.permits _ _) => .ok .empty
  | .memory (.writeTuples _) => .ok ()
  | .memory (.deleteTuples _) => .ok ()
  | .memory (.readTuples _ _) => .ok []
  | .memory (.store _ _ _) => .ok "n1"
  | .memory (.search _ _ _) => .ok [⟨.ofString "the plan", ["n1"]⟩, ⟨.ofString "stray", ["n2"]⟩]
  | .memory (.deleteContent _ _) => .ok ()
  | .memory (.put _) => .ok ()
  | .memory (.get _) => .ok (some planNote)
  | .memory (.getByBackendRef _ ref) => .ok (if ref = "n1" then some planNote else none)
  | .memory (.deleteRow _) => .ok ()
  | .memory (.record _) => .ok ()

/-- What her agent asks for. -/
def planQuery : RecallRequest where
  query := .ofString "plan"
  limit := 10
  query_length := by decide
  limit_range := by decide

/-- What her agent writes down. -/
def planWritten : RememberRequest where
  content := .ofString "the plan"
  derivedFrom := ["document:plan"]
  content_length := by decide
  derivedFrom_length := by decide

/-- What her agent has deleted. -/
def planForgotten : ForgetRequest where
  memoryId := "memory:1"
  memoryId_length := by decide

/-! ### What the routes return -/

/-- **What is recalled was verified.** Whatever the collaborators answer, and whatever happens to
their stores between their answers: where the route answers, the agent of its bearer holds the
token, which is not revoked, and the memories are no more than were asked for. Each comes from a
candidate of the search, all of whose references the ledger knows; the token's own checks permit
the agent to read every row and every source of it, the scope of the chain covers the rows, and
the engine has related the chain's subject to every source; and the journal has its entry. -/
theorem recalled_verified {body : RecallRequest} {answer : RecallResponse}
    (h : Raises.Run (s.memoryRecall memory authorization token body) tr (.ok answer)) :
    ∃ caller l, s.HeldBy (Noting.apiTrace tr) authorization token caller l ∧
      (answer.memories.length : ℤ) ≤ body.limit ∧
      ∀ model ∈ answer.memories, ∃ candidates candidate rows m, model = .fromCore m ∧
        ⟨.search body.query memory.space body.limit, .ok candidates⟩ ∈ Noting.memoryTrace tr ∧
        candidate ∈ candidates ∧
        memory.RestsOn l.chain (Noting.memoryTrace tr) candidate rows m ∧
        ∀ x ∈ rows.map MemoryRecord.memoryId ++ m.derivedFrom,
          PermittedTo (Noting.apiTrace tr) caller l .read x := by
  obtain ⟨caller, l, tr₀, memories, hheld, hrun, rfl, hserved, hchecked⟩ :=
    held_run (p := fun chain => memory.recall chain body.query body.limit true)
      (f := fun _ memories => (⟨memories.map MemoryModel.fromCore⟩ : RecallResponse)) h
  -- the limits of the request are those of the service
  have hlimit : max 1 (min body.limit MAX_LIMIT) = body.limit := by
    have hrange := body.limit_range
    rw [MAX_LIMIT, min_eq_left hrange.2, max_eq_right hrange.1]
  obtain ⟨hlength, hall⟩ := MemoryService.recall_run_ok hrun
  rw [hlimit] at hlength hall
  refine ⟨caller, l, hheld, ?_, fun model hmodel => ?_⟩
  · show ((memories.map MemoryModel.fromCore).length : ℤ) ≤ body.limit
    rwa [List.length_map]
  obtain ⟨m, hm, rfl⟩ := List.mem_map.mp hmodel
  obtain ⟨candidates, hsearch, candidate, hcandidate, rows, hrests, hpermitted⟩ := hall m hm
  exact ⟨candidates, candidate, rows, m, rfl, hserved _ hsearch id, hcandidate,
    hrests.mono hserved, fun x hx => hchecked _ _ (hpermitted rfl x hx)⟩

/-- Her agent is given the note, and not the stray hit. -/
theorem recalled_verified_plan :
    ∃ tr answer caller l, (RecallResponse.memories answer).map MemoryModel.memoryId = ["memory:1"] ∧
      oneKey.HeldBy (Noting.apiTrace tr) (some "Bearer a") keeperToken caller l := by
  have hrun := Raises.run_result (S := NotingSig) noteIsFound
    (oneKey.memoryRecall notebook (some "Bearer a") keeperToken planQuery)
  have hanswer : ((oneKey.memoryRecall notebook (some "Bearer a") keeperToken planQuery).result
      (S := NotingSig) noteIsFound).toOption.map (fun answer =>
        answer.memories.map MemoryModel.memoryId) = some ["memory:1"] := by
    decide +kernel
  cases hresult : (oneKey.memoryRecall notebook (some "Bearer a") keeperToken planQuery).result
      (S := NotingSig) noteIsFound with
  | error e =>
    rw [hresult] at hanswer
    cases hanswer
  | ok answer =>
    rw [hresult] at hanswer hrun
    obtain ⟨caller, l, hheld, -, -⟩ := recalled_verified hrun
    exact ⟨_, answer, caller, l, Option.some.inj hanswer, hheld⟩

/-- **What is remembered was permitted**: by the token's own checks and the scope of the chain on
every source, or on the memory itself where it has none, and by the engine on every source. -/
theorem remembered_verified {body : RememberRequest} {model : MemoryModel}
    (h : Raises.Run (s.memoryRemember memory authorization token body) tr (.ok model)) :
    ∃ caller l m, s.HeldBy (Noting.apiTrace tr) authorization token caller l ∧
      model = .fromCore m ∧
      memory.Written l.chain (Noting.memoryTrace tr) body.content (dedupe body.derivedFrom) m ∧
      (∀ x ∈ dedupe body.derivedFrom, Related
        (Remembering.coreTrace (Noting.memoryTrace tr)) l.chain.subject
        Action.remember.relation x) ∧
      ∀ x ∈ MemoryService.targetsOf (dedupe body.derivedFrom) m.memoryId,
        Covered l.chain .remember x ∧
          PermittedTo (Noting.apiTrace tr) caller l .remember x := by
  obtain ⟨caller, l, tr₀, m, hheld, hrun, rfl, hserved, hchecked⟩ :=
    held_run (p := fun chain => memory.remember chain body.content body.derivedFrom true)
      (f := fun _ m => MemoryModel.fromCore m) h
  obtain ⟨hwritten, hcovered, hrelated, hpermitted⟩ := MemoryService.remember_run_ok hrun
  refine ⟨caller, l, m, hheld, rfl, hwritten.mono hserved, fun x hx => ?_, fun x hx => ?_⟩
  · exact (hrelated x hx).mono (Remembering.coreTrace_mono hserved)
  · exact ⟨hcovered x hx, hchecked _ _ (hpermitted rfl x hx)⟩

/-- It writes one down, from a document that alice may view. -/
theorem remembered_verified_plan :
    ∃ tr model caller l, MemoryModel.derivedFrom model = ["document:plan"] ∧
      oneKey.HeldBy (Noting.apiTrace tr) (some "Bearer a") keeperToken caller l := by
  have hrun := Raises.run_result (S := NotingSig) noteIsFound
    (oneKey.memoryRemember notebook (some "Bearer a") keeperToken planWritten)
  have hanswer : ((oneKey.memoryRemember notebook (some "Bearer a") keeperToken
      planWritten).result (S := NotingSig) noteIsFound).toOption.map MemoryModel.derivedFrom =
        some ["document:plan"] := by
    decide +kernel
  cases hresult : (oneKey.memoryRemember notebook (some "Bearer a") keeperToken
      planWritten).result (S := NotingSig) noteIsFound with
  | error e =>
    rw [hresult] at hanswer
    cases hanswer
  | ok model =>
    rw [hresult] at hanswer hrun
    obtain ⟨caller, l, m, hheld, -, -⟩ := remembered_verified hrun
    exact ⟨_, model, caller, l, Option.some.inj hanswer, hheld⟩

/-- **What is forgotten was the subject's own**: the row that the ledger had was written for the
chain's subject, and the token's own checks and the scope of the chain permit the agent to
change it. -/
theorem forgotten_verified {body : ForgetRequest} {model : MemoryModel}
    (h : Raises.Run (s.memoryForget memory authorization token body) tr (.ok model)) :
    ∃ caller l, s.HeldBy (Noting.apiTrace tr) authorization token caller l ∧
      model = ⟨body.memoryId, [], [], l.chain.subject, l.chain.actor, none⟩ ∧
      memory.Forgotten l.chain (Noting.memoryTrace tr) body.memoryId ∧
      Covered l.chain .remember body.memoryId ∧
      PermittedTo (Noting.apiTrace tr) caller l .remember body.memoryId := by
  obtain ⟨caller, l, tr₀, u, hheld, hrun, rfl, hserved, hchecked⟩ :=
    held_run (p := fun chain => memory.forget chain body.memoryId true)
      (f := fun chain _ =>
        (⟨body.memoryId, [], [], chain.subject, chain.actor, none⟩ : MemoryModel)) h
  obtain ⟨hforgotten, hcovered, hpermitted⟩ := MemoryService.forget_run_ok hrun
  exact ⟨caller, l, hheld, rfl, hforgotten.mono hserved, hcovered,
    hchecked _ _ (hpermitted rfl)⟩

/-- It has one deleted, that was written for alice. -/
theorem forgotten_verified_plan :
    ∃ tr model caller l, MemoryModel.writtenFor model = "user:alice" ∧
      oneKey.HeldBy (Noting.apiTrace tr) (some "Bearer a") keeperToken caller l := by
  have hrun := Raises.run_result (S := NotingSig) noteIsFound
    (oneKey.memoryForget notebook (some "Bearer a") keeperToken planForgotten)
  have hanswer : ((oneKey.memoryForget notebook (some "Bearer a") keeperToken
      planForgotten).result (S := NotingSig) noteIsFound).toOption.map MemoryModel.writtenFor =
        some "user:alice" := by
    decide +kernel
  cases hresult : (oneKey.memoryForget notebook (some "Bearer a") keeperToken
      planForgotten).result (S := NotingSig) noteIsFound with
  | error e =>
    rw [hresult] at hanswer
    cases hanswer
  | ok model =>
    rw [hresult] at hanswer hrun
    obtain ⟨caller, l, hheld, -, -⟩ := forgotten_verified hrun
    exact ⟨_, model, caller, l, Option.some.inj hanswer, hheld⟩

end Services

end HeadOfContext
