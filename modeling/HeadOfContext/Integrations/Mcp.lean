import HeadOfContext.Integrations.Guard
import HeadOfContext.Integrations.SessionJournal
import Mathlib.Algebra.Order.BigOperators.Group.List

/-!
# The guarded MCP proxy

`GuardedMcpProxy` re-exposes the tools of one or several upstream MCP servers and authorizes each
call before it forwards it. With several servers a tool is exposed as `<server>__<tool>`, gated as
`tool:<server>/<tool>`, and the name is split at its first `__` twice: to find the resource and to
find the server. Server names hold no `__`, and `unambiguous_iff` says that this is one condition
short: the split finds the server exactly when no server name ends in `_` either.
-/

namespace HeadOfContext

open Effects Except PyText

/-! ### The collaborators -/

/-- A call of a proxy: one of its session, or a tool call that it forwards. -/
inductive ProxyOp (Client : Type) where
  | session (o : SessionOp)
  | callTool (client : Client) (tool : String) (args : Args)

/-- The answer to each call. -/
abbrev ProxyOp.Res {Client : Type} (Result : Type) : ProxyOp Client → Type
  | session o => SessionOp.Res o
  | callTool _ _ _ => Except Exn Result

/-- The interface of a proxy. -/
abbrev ProxySig (Client Result : Type) : Sig := ⟨ProxyOp Client, ProxyOp.Res Result⟩

/-- A method of a proxy. -/
abbrev Proxied (Client Result : Type) := Raises (ProxySig Client Result) Exn

namespace Proxied

variable {Client Result : Type}

/-- Run a method of the session. -/
def session {α : Type} (p : Sessions α) : Proxied Client Result α :=
  p.embed (T := ProxySig Client Result) ⟨.session, fun _ r => r⟩

/-- `client.call_tool`. -/
def callTool (client : Client) (tool : String) (args : Args) : Proxied Client Result Result :=
  ⟨.invoke (S := ProxySig Client Result) (.callTool client tool args)⟩

end Proxied

/-- What a tool call answers: an error text of the proxy, or what the upstream returned. -/
inductive CallToolResult (Result : Type) where
  | error (text : String)
  | upstream (result : Result)

/-! ### JSON arguments -/

/-- `args.get(key)`. -/
def Args.get (args : Args) (key : String) : Option Json :=
  (args.find? fun m => m.1 = PyStr.ofString key).map Prod.snd

/-- `value if isinstance(value, str)`. -/
def textOf : Option Json → Option String
  | some (.str s) => PyStr.text s
  | _ => none

/-! ### Names -/

/-- `REDEEM_TOOL`. -/
def REDEEM_TOOL : String := "hoc_redeem"

/-- `UPSTREAM_SEPARATOR`. -/
def UPSTREAM_SEPARATOR : String := "__"

/-- `_UPSTREAM_NAME.match`: `[a-z0-9][a-z0-9_-]*`. -/
def isUpstreamName (server : String) : Bool :=
  match matchBody server.toList with
  | [] => false
  | c :: cs => (isLower c || ('0' ≤ c && c ≤ '9')) && cs.all isTypeChar

/-- The check of a server name in `__init__`. -/
def acceptsUpstream (server : String) : Bool :=
  isUpstreamName server && !contains server UPSTREAM_SEPARATOR

/-- `_default_resource`. -/
def defaultResource (exposed : String) : String :=
  match partitionAt exposed UPSTREAM_SEPARATOR with
  | some (server, tool) => server ++ "/" ++ tool
  | none => exposed ++ "/" ++ ""

/-- `_prefixed`: the name that a tool of a server is exposed under. -/
def exposedName (server tool : String) : String := server ++ UPSTREAM_SEPARATOR ++ tool

/-! ### The proxy -/

/-- The `upstream` argument: one client, or a mapping from names to clients. -/
inductive Upstreams (Client : Type) where
  | one (client : Client)
  | several (servers : Dict String Client)

/-- The upstream names. -/
def Upstreams.names {Client : Type} : Upstreams Client → List String
  | one _ => []
  | several servers => servers.keys

/-- `GuardedMcpProxy`. The constructor has checked the names. -/
structure GuardedMcpProxy (Text Client : Type) where
  session : AgentSession Text
  upstreams : Upstreams Client
  toolMap : Dict String String
  accepted : ∀ server ∈ upstreams.names, acceptsUpstream server = true

namespace GuardedMcpProxy

variable {Text Client Result : Type}

/-- `GuardedMcpProxy(…)`. The error names the first invalid server. -/
def make (session : AgentSession Text) (upstreams : Upstreams Client)
    (toolMap : Dict String String) : Except HocError (GuardedMcpProxy Text Client) :=
  match h : upstreams.names.find? fun server => !acceptsUpstream server with
  | some server => .error (HocClass.configurationError.error
      ("invalid upstream name " ++ quoted server ++ ": [a-z0-9][a-z0-9_-]*, no '__'"))
  | none => .ok ⟨session, upstreams, toolMap, fun server hserver => by
      simpa using List.find?_eq_none.mp h server hserver⟩

variable (p : GuardedMcpProxy Text Client)

/-- The guard of the proxy. -/
def guard : ToolGuard Text where
  session := p.session
  toolMap := p.toolMap
  defaultResource :=
    match p.upstreams with
    | .one _ => none
    | .several _ => some HeadOfContext.defaultResource

/-- `_route`: the client and the name of the tool there. -/
def route (name : String) : Option (Client × String) :=
  match p.upstreams with
  | .one client => some (client, name)
  | .several servers =>
    match partitionAt name UPSTREAM_SEPARATOR with
    | none => none
    | some (server, tool) =>
      if tool = "" then none else (servers.get server).map fun client => (client, tool)

/-- `_forward`. -/
def forward (name : String) (args : Args) : Proxied Client Result (CallToolResult Result) :=
  match p.route name with
  | none => pure (.error ("HeadOfContext: unknown tool '" ++ name ++ "'."))
  | some (client, tool) => do
    let result ← Proxied.callTool client tool args
    return .upstream result

/-- `_redeem`, once the arguments are read. -/
def redeemCall (requestId tool : String) (toolArgs : Args) :
    Proxied Client Result (CallToolResult Result) := do
  let refused (reason : String) : CallToolResult Result := .error
    ("HeadOfContext refused to run request '" ++ requestId ++ "': " ++ reason ++ ".")
  let answer ← (Proxied.session
    (p.session.redeem requestId (p.guard.resourceFor tool) (some toolArgs))).attempt
  match answer with
  | .error (.hoc exc) => return refused exc.reason
  | .error (.other name) => .raise (.other name)
  | .ok decision =>
    if decision.outcome ≠ .allow then return refused decision.reason
    else p.forward tool toolArgs

/-- `_redeem`. -/
def redeem (args : Args) : Proxied Client Result (CallToolResult Result) :=
  let toolArgs := (args.get "args").getD .null
  let toolArgs := if isFalsy toolArgs then Json.obj [] else toolArgs
  let needs : CallToolResult Result :=
    .error ("HeadOfContext: '" ++ REDEEM_TOOL ++ "' needs a request_id and a tool name.")
  match textOf (args.get "request_id"), textOf (args.get "tool") with
  | some requestId, some tool =>
    if tool = REDEEM_TOOL then pure needs
    else
      match toolArgs with
      | .obj toolArgs => p.redeemCall requestId tool toolArgs
      | _ => pure (.error ("HeadOfContext: '" ++ REDEEM_TOOL ++ "' args must be an object."))
  | _, _ => pure needs

/-- `_call_tool`. -/
def callTool (name : String) (args : Args) : Proxied Client Result (CallToolResult Result) :=
  if name = REDEEM_TOOL then p.redeem args
  else do
    let answer ← (Proxied.session (p.guard.authorize name args)).attempt
    match answer with
    | .ok (.ok _) => p.forward name args
    | .ok (.error pending) => return .error (pending.refusalMessage name)
    | .error (.hoc exc) =>
      if exc.cls = .actionDenied then return .error (exc.refusalMessage name)
      else .raise (.hoc exc)
    | .error (.other name) => .raise (.other name)

/-! ### What a call forwards -/

/-- The call stays in the session, or it is forwarded to the destination. -/
def GoesTo (dest : Option (Client × String)) : ProxyOp Client → Prop
  | .session _ => True
  | .callTool client tool _ => dest = some (client, tool)

section Forwards

variable {α β : Type} {dest : Option (Client × String)}

/-- Every call that the program forwards goes to the destination. -/
def ForwardsTo (dest : Option (Client × String)) (q : Proxied Client Result α) : Prop :=
  Raises.Calls (S := ProxySig Client Result) (A := GoesTo dest) q

theorem forwards_pure (a : α) : ForwardsTo dest (pure a : Proxied Client Result α) := trivial

theorem forwards_raise (e : Exn) : ForwardsTo dest (.raise e : Proxied Client Result α) := trivial

theorem ForwardsTo.bind {q : Proxied Client Result α} {f : α → Proxied Client Result β}
    (hq : ForwardsTo dest q) (hf : ∀ a, ForwardsTo dest (f a)) : ForwardsTo dest (q >>= f) :=
  Raises.Calls.bind hq hf

theorem ForwardsTo.attempt {q : Proxied Client Result α} (hq : ForwardsTo dest q) :
    ForwardsTo dest q.attempt := Raises.Calls.attempt hq

theorem forwards_session (q : Sessions α) :
    ForwardsTo dest (Proxied.session q : Proxied Client Result α) :=
  Raises.Calls.embed fun _ => trivial

theorem forwards_callTool {client : Client} {tool : String} {args : Args} :
    ForwardsTo (some (client, tool))
      (Proxied.callTool client tool args : Proxied Client Result _) :=
  ⟨rfl, fun _ => trivial⟩

end Forwards

-- From here on the rules above are used, and no program is evaluated to compare two of them.
attribute [local irreducible] ForwardsTo

theorem forwards_forward (name : String) (args : Args) :
    ForwardsTo (p.route name) (p.forward name args : Proxied Client Result _) := by
  rw [forward]
  cases p.route name with
  | none => exact forwards_pure _
  | some dest => exact forwards_callTool.bind fun result => forwards_pure _

/-- **A call that is no redemption is forwarded to where its name is routed**, or nowhere. -/
theorem forwards_call {name : String} (args : Args) (hname : name ≠ REDEEM_TOOL) :
    ForwardsTo (p.route name) (p.callTool name args : Proxied Client Result _) := by
  rw [callTool, if_neg hname]
  refine (forwards_session _).attempt.bind fun answer => ?_
  match answer with
  | .ok (.ok _) => exact p.forwards_forward name args
  | .ok (.error _) => exact forwards_pure _
  | .error (.hoc exc) =>
    dsimp only
    by_cases hcls : exc.cls = .actionDenied
    · rw [if_pos hcls]
      exact forwards_pure _
    · rw [if_neg hcls]
      exact forwards_raise _
  | .error (.other _) => exact forwards_raise _

/-- **A redemption is forwarded to where the name of its tool is routed**, or nowhere. -/
theorem forwards_redeemCall (requestId tool : String) (toolArgs : Args) :
    ForwardsTo (p.route tool) (p.redeemCall requestId tool toolArgs : Proxied Client Result _) := by
  rw [redeemCall]
  refine (forwards_session _).attempt.bind fun answer => ?_
  match answer with
  | .ok decision =>
    dsimp only
    by_cases hallow : decision.outcome ≠ .allow
    · rw [if_pos hallow]
      exact forwards_pure _
    · rw [if_neg hallow]
      exact p.forwards_forward tool toolArgs
  | .error (.hoc _) => exact forwards_pure _
  | .error (.other _) => exact forwards_raise _

end GuardedMcpProxy

/-! ### Where a name is split -/

theorem contains_concat {s : String} :
    UPSTREAM_SEPARATOR.toList <:+: s.toList ++ ['_'] ↔
      contains s UPSTREAM_SEPARATOR = true ∨ endsWith s "_" = true := by
  rw [contains_iff, endsWith_iff, List.infix_concat_iff]
  have hsuffix : UPSTREAM_SEPARATOR.toList <:+ s.toList ++ ['_'] ↔ ['_'] <:+ s.toList :=
    @List.suffix_append_self_iff Char ['_'] s.toList ['_']
  rw [hsuffix]
  exact or_comm

/-- The characters of an accepted server name. A final line feed gets past the expression. -/
theorem accepted_mem {server : String} {c : Char} (h : acceptsUpstream server = true)
    (hc : c ∈ server.toList) : isTypeChar c = true ∨ c = '\n' := by
  obtain ⟨hname, -⟩ := Bool.and_eq_true_iff.mp h
  refine (mem_matchBody hc).imp_left fun hbody => ?_
  rw [isUpstreamName] at hname
  cases hmatch : matchBody server.toList with
  | nil => exact absurd (hmatch ▸ hbody) List.not_mem_nil
  | cons c₀ cs =>
    rw [hmatch] at hname hbody
    obtain ⟨hhead, htail⟩ := Bool.and_eq_true_iff.mp hname
    rcases List.mem_cons.mp hbody with rfl | hmem
    · simp only [isTypeChar, hhead, Bool.true_or]
    · exact List.all_eq_true.mp htail c hmem

theorem accepted_not_mem {server : String} {c : Char} (h : acceptsUpstream server = true)
    (hc : isTypeChar c = false) (hlf : c ≠ '\n') : c ∉ server.toList := by
  intro hmem
  rcases accepted_mem h hmem with htype | hline
  · exact absurd (htype.symm.trans hc) (by decide)
  · exact hlf hline

/-- An accepted name that ends in no `_` is what is found before the first separator. -/
theorem partitionAt_exposedName {server tool : String} (h : acceptsUpstream server = true)
    (hend : endsWith server "_" = false) :
    partitionAt (exposedName server tool) UPSTREAM_SEPARATOR = some (server, tool) := by
  obtain ⟨-, hcontains⟩ := Bool.and_eq_true_iff.mp h
  refine partitionAt_append (by decide) fun hin => ?_
  rcases contains_concat.mp hin with hc | he
  · rw [hc] at hcontains
    exact absurd hcontains (by decide)
  · exact absurd (he.symm.trans hend) (by decide)

/-- The server of an accepted name that ends in `_` loses it to the tool. -/
theorem partitionAt_exposedName_underscore {front tool : String}
    (h : acceptsUpstream (front ++ "_") = true) :
    partitionAt (exposedName (front ++ "_") tool) UPSTREAM_SEPARATOR =
      some (front, "_" ++ tool) := by
  obtain ⟨-, hcontains⟩ := Bool.and_eq_true_iff.mp h
  have hjoin : exposedName (front ++ "_") tool = front ++ UPSTREAM_SEPARATOR ++ ("_" ++ tool) := by
    rw [exposedName, String.append_assoc, String.append_assoc, String.append_assoc]
    rfl
  rw [hjoin]
  refine partitionAt_append (by decide) fun hin => ?_
  have hc : contains (front ++ "_") UPSTREAM_SEPARATOR = true :=
    contains_iff.mpr (by rw [String.toList_append]; exact hin)
  rw [hc] at hcontains
  exact absurd hcontains (by decide)

/-- The tool of a server is named by no resource that already has the prefix. -/
theorem prefixedTool_slash {server tool : String} (h : ':' ∉ server.toList) :
    prefixedTool (server ++ "/" ++ tool) = TOOL_PREFIX ++ (server ++ "/" ++ tool) := by
  rw [prefixedTool, if_neg]
  intro hprefix
  rw [startsWith_iff, String.toList_append, String.toList_append] at hprefix
  have hserver : server.toList <+: server.toList ++ "/".toList ++ tool.toList :=
    (List.prefix_append _ _).trans (List.prefix_append _ _)
  rcases List.prefix_or_prefix_of_prefix hprefix hserver with htool | hshort
  · exact h (htool.subset (by decide))
  · -- what is missing of the prefix would begin with the slash
    obtain ⟨rest, hrest⟩ := hshort
    rw [← hrest, List.append_assoc, List.prefix_append_right_inj] at hprefix
    cases rest with
    | nil => exact h (by rw [← List.append_nil server.toList, hrest]; decide)
    | cons c rest =>
      obtain ⟨rfl, -⟩ := List.cons_prefix_cons.mp hprefix
      have hslash : '/' ∈ TOOL_PREFIX.toList := by
        rw [← hrest]
        exact List.mem_append_right _ List.mem_cons_self
      exact absurd hslash (by decide)

namespace GuardedMcpProxy

variable {Text Client : Type}

/-! ### The two splits -/

/-- The resource that a name is authorized as. -/
def gatedAs (p : GuardedMcpProxy Text Client) (name : String) : String :=
  prefixedTool (p.guard.resourceFor name)

/-- The tool has a name, and the map of the proxy leaves its exposed name alone. -/
def Unmapped (p : GuardedMcpProxy Text Client) (server tool : String) : Prop :=
  tool ≠ "" ∧ p.toolMap.get (exposedName server tool) = none

/-- **The exposed names are unambiguous**: each is gated as the tool of its server and forwarded
there and nowhere else, and no two tools share a name or a resource. -/
structure Unambiguous (p : GuardedMcpProxy Text Client) (servers : Dict String Client) : Prop where
  gated : ∀ {server tool}, server ∈ servers.keys → p.Unmapped server tool →
    p.gatedAs (exposedName server tool) = "tool:" ++ (server ++ "/" ++ tool)
  routed : ∀ {server client tool}, servers.get server = some client → p.Unmapped server tool →
    p.route (exposedName server tool) = some (client, tool)
  distinct : ∀ {server server' tool tool'}, server ∈ servers.keys → server' ∈ servers.keys →
    p.Unmapped server tool → p.Unmapped server' tool' → (server, tool) ≠ (server', tool') →
      exposedName server tool ≠ exposedName server' tool' ∧
        p.gatedAs (exposedName server tool) ≠ p.gatedAs (exposedName server' tool')
  forwarded : ∀ {server client tool}, servers.get server = some client → p.Unmapped server tool →
    ∀ (Result : Type) (args : Args) (requestId : String),
      ForwardsTo (some (client, tool))
          (p.callTool (exposedName server tool) args : Proxied Client Result _) ∧
        ForwardsTo (some (client, tool))
          (p.redeemCall requestId (exposedName server tool) args : Proxied Client Result _)

attribute [local irreducible] ForwardsTo

section Several

variable {p : GuardedMcpProxy Text Client} {servers : Dict String Client} {server tool : String}

theorem make_eq_ok {session : AgentSession Text} {upstreams : Upstreams Client}
    {toolMap : Dict String String} (h : make session upstreams toolMap = .ok p) :
    p.upstreams = upstreams := by
  rw [make] at h
  split at h
  · nomatch h
  · exact Except.ok.inj h ▸ rfl

/-- What the proxy finds when the name splits. -/
theorem resourceFor_split (hup : p.upstreams = .several servers) {name front rest : String}
    (hmap : p.toolMap.get name = none)
    (hsplit : partitionAt name UPSTREAM_SEPARATOR = some (front, rest)) :
    p.guard.resourceFor name = front ++ "/" ++ rest := by
  rw [ToolGuard.resourceFor, guard]
  simp only [hmap, hup]
  rw [defaultResource, hsplit]

theorem route_split (hup : p.upstreams = .several servers) {name front rest : String}
    (hrest : rest ≠ "") (hsplit : partitionAt name UPSTREAM_SEPARATOR = some (front, rest)) :
    p.route name = (servers.get front).map fun client => (client, rest) := by
  rw [route]
  simp only [hup, hsplit, if_neg hrest]

theorem exposedName_ne_redeem : exposedName server tool ≠ REDEEM_TOOL := by
  intro h
  have hin : UPSTREAM_SEPARATOR.toList <:+: (exposedName server tool).toList :=
    ⟨server.toList, tool.toList, by
      rw [exposedName, String.toList_append, String.toList_append]⟩
  rw [h] at hin
  exact absurd hin (by decide)

theorem accepted_of_mem (hup : p.upstreams = .several servers) (hmem : server ∈ servers.keys) :
    acceptsUpstream server = true := p.accepted server (by rw [hup]; exact hmem)

/-- The path of a resource tells the server and the tool. -/
theorem slash_injective {server' tool' : String} (h : acceptsUpstream server = true)
    (h' : acceptsUpstream server' = true)
    (heq : server ++ "/" ++ tool = server' ++ "/" ++ tool') :
    (server, tool) = (server', tool') := by
  have hs : partitionAt (server ++ "/" ++ tool) "/" = some (server, tool) :=
    partitionAt_char rfl (accepted_not_mem h (by decide) (by decide))
  have hs' : partitionAt (server' ++ "/" ++ tool') "/" = some (server', tool') :=
    partitionAt_char rfl (accepted_not_mem h' (by decide) (by decide))
  rw [heq, hs'] at hs
  exact (Option.some.inj hs).symm

theorem gatedAs_split (hup : p.upstreams = .several servers) {name front rest : String}
    (hfront : ':' ∉ front.toList) (hmap : p.toolMap.get name = none)
    (hsplit : partitionAt name UPSTREAM_SEPARATOR = some (front, rest)) :
    p.gatedAs name = "tool:" ++ (front ++ "/" ++ rest) := by
  rw [gatedAs, resourceFor_split hup hmap hsplit]
  exact prefixedTool_slash hfront

theorem accepted_colon (h : acceptsUpstream server = true) : ':' ∉ server.toList :=
  accepted_not_mem h (by decide) (by decide)

/-- Names that end in no `_` are unambiguous. -/
theorem unambiguous_of_forall (hup : p.upstreams = .several servers)
    (hend : ∀ server ∈ servers.keys, endsWith server "_" = false) : p.Unambiguous servers := by
  have hsplit : ∀ {server tool}, server ∈ servers.keys →
      partitionAt (exposedName server tool) UPSTREAM_SEPARATOR = some (server, tool) :=
    fun hmem => partitionAt_exposedName (accepted_of_mem hup hmem) (hend _ hmem)
  have hgated : ∀ {server tool}, server ∈ servers.keys → p.Unmapped server tool →
      p.gatedAs (exposedName server tool) = "tool:" ++ (server ++ "/" ++ tool) :=
    fun hmem hfree =>
      gatedAs_split hup (accepted_colon (accepted_of_mem hup hmem)) hfree.2 (hsplit hmem)
  have hrouted : ∀ {server client tool}, servers.get server = some client →
      p.Unmapped server tool → p.route (exposedName server tool) = some (client, tool) := by
    intro server client tool hget hfree
    rw [route_split hup hfree.1 (hsplit (Dict.mem_keys.mpr ⟨client, hget⟩)), hget]
    rfl
  refine ⟨hgated, hrouted, ?_, ?_⟩
  · intro server server' tool tool' hmem hmem' hfree hfree' hne
    refine ⟨fun heq => hne ?_, fun heq => hne ?_⟩
    · have hfound : partitionAt (exposedName server tool) UPSTREAM_SEPARATOR =
          some (server', tool') := heq ▸ hsplit hmem'
      exact Option.some.inj ((hsplit hmem).symm.trans hfound)
    · rw [hgated hmem hfree, hgated hmem' hfree', String.append_right_inj] at heq
      exact slash_injective (accepted_of_mem hup hmem) (accepted_of_mem hup hmem') heq
  · intro server client tool hget hfree Result args requestId
    rw [← hrouted hget hfree]
    exact ⟨p.forwards_call args exposedName_ne_redeem, p.forwards_redeemCall _ _ args⟩

/-- Some tool name of any server is in no map. -/
theorem exists_unmapped (p : GuardedMcpProxy Text Client) (server : String) :
    ∃ tool, p.Unmapped server tool := by
  -- a name longer than every key
  let total : ℕ := (p.toolMap.keys.map fun key => key.toList.length).sum
  let tool : String := String.ofList (List.replicate (total + 1) 'x')
  have hlen : tool.toList.length = total + 1 := by
    rw [String.toList_ofList, List.length_replicate]
  refine ⟨tool, fun hempty => ?_, ?_⟩
  · rw [hempty] at hlen
    exact absurd hlen (by simp)
  · refine Option.eq_none_iff_forall_ne_some.mpr fun mapped hget => ?_
    have hkey : (exposedName server tool).toList.length ≤ total :=
      List.le_sum_of_mem (List.mem_map_of_mem (Dict.mem_keys.mpr ⟨mapped, hget⟩))
    rw [exposedName, String.toList_append, List.length_append, hlen] at hkey
    omega

/-- **The exposed names of a proxy over several servers are unambiguous exactly when no name of a
server ends in `_`.** -/
theorem unambiguous_iff {session : AgentSession Text} {toolMap : Dict String String}
    (h : make session (.several servers) toolMap = .ok p) :
    p.Unambiguous servers ↔ ∀ server ∈ servers.keys, endsWith server "_" = false := by
  have hup : p.upstreams = .several servers := make_eq_ok h
  refine ⟨fun hunambiguous server hmem => ?_, unambiguous_of_forall hup⟩
  by_contra hend
  obtain ⟨front, rfl⟩ : ∃ front, server = front ++ "_" := by
    obtain ⟨front, hfront⟩ := endsWith_iff.mp (Bool.eq_true_of_not_eq_false hend)
    exact ⟨String.ofList front, String.toList_inj.mp (by
      rw [String.toList_append, String.toList_ofList]
      exact hfront.symm)⟩
  have haccepted := accepted_of_mem hup hmem
  obtain ⟨tool, hfree⟩ := p.exists_unmapped (front ++ "_")
  -- the tool is gated as one of the server whose name lacks the `_`
  have hfront : ':' ∉ front.toList := fun hc =>
    accepted_colon haccepted (by rw [String.toList_append]; exact List.mem_append_left _ hc)
  have hactual := gatedAs_split hup hfront hfree.2 (partitionAt_exposedName_underscore haccepted)
  rw [hunambiguous.gated hmem hfree, String.append_right_inj] at hactual
  have hchars := congrArg String.toList hactual
  simp only [String.toList_append, List.append_assoc, List.append_cancel_left_eq] at hchars
  exact absurd (List.cons.inj hchars).1 (by decide)

end Several

/-! ### Two proxies -/

/-- A proxy over the upstreams, for the session that has one right. -/
def «over» (servers : Dict String String)
    (h : ∀ server ∈ servers.keys, acceptsUpstream server = true) :
    GuardedMcpProxy Biscuit String := ⟨AgentSession.readerSession, .several servers, .empty, h⟩

/-- The upstreams `a` and `b`. -/
def lettered : Dict String String := ⟨[("a", "https://a"), ("b", "https://b")], by decide⟩

/-- The upstreams `a` and `a_`. -/
def underscored : Dict String String := ⟨[("a", "https://a"), ("a_", "https://a_")], by decide⟩

theorem lettered_unambiguous : («over» lettered (by decide)).Unambiguous lettered :=
  have h : make AgentSession.readerSession (.several lettered) .empty =
      .ok («over» lettered (by decide)) := rfl
  (unambiguous_iff h).mpr (by decide)

/-- The tool `x` of the server `a_` is gated as the tool `_x` of the server `a`, and goes there. -/
theorem underscored_misrouted :
    make AgentSession.readerSession (.several underscored) .empty =
        .ok («over» underscored (by decide)) ∧
      exposedName "a_" "x" = exposedName "a" "_x" ∧
      («over» underscored (by decide)).route (exposedName "a_" "x") = some ("https://a", "_x") ∧
      («over» underscored (by decide)).gatedAs (exposedName "a_" "x") = "tool:a/_x" ∧
      ¬ («over» underscored (by decide)).Unambiguous underscored := by
  refine ⟨rfl, by decide, by decide, by decide, fun h => ?_⟩
  have hfree : («over» underscored (by decide)).Unmapped "a_" "x" := ⟨by decide, rfl⟩
  have hmem : "a_" ∈ underscored.keys := by decide
  exact absurd (h.gated hmem hfree) (by decide)

end GuardedMcpProxy

end HeadOfContext
