import HeadOfContext.Core.Chain
import HeadOfContext.Tokens.Biscuit

/-!
# The Datalog of tokens

The authority block carries the subject, the actor, the dates and one fact for each
capability; a capability with a star is a `cap_prefix` fact, without its star. An
attenuation block carries a trail, `delegation` and `scope_cap` facts that the authorizer
never sees, and one check whose alternatives are the capabilities of the declared scope.

The trail is read back from the text of the block, line by line. Whatever is not a line
of the trail is skipped, and a block without a `delegation` line is opaque.
-/

namespace HeadOfContext

open Datalog Biscuit PyText Except

/-! ### Writing -/

/-- `_cap_fact`. -/
def capFact (cap : Capability) : Fact Value :=
  if cap.isPattern then ⟨"cap_prefix", [.str cap.kind.str, .str (dropLast cap.resource)]⟩
  else ⟨"cap_exact", [.str cap.kind.str, .str cap.resource]⟩

/-- `check if time($t), $t < {expires_at}`. -/
def expiryCheck (expiresAt : ℤ) : Check :=
  ⟨[⟨[⟨"time", [.var "t"]⟩], [.lt (.var "t") (.val (.ofInstant expiresAt))]⟩]⟩

/-- `authority_builder`. -/
def authorityBuilder (subject actor : String) (scope : Scope) (issuedAt expiresAt : ℤ)
    (mandateId : Option String) : Builder where
  facts :=
    [⟨"subject", [.str subject]⟩, ⟨"actor", [.str actor]⟩,
      ⟨"issued_at", [.ofInstant issuedAt]⟩, ⟨"expires_at", [.ofInstant expiresAt]⟩] ++
    scope.sorted.map capFact ++
    (match mandateId with
      | none => []
      | some id => [⟨"mandate", [.str id]⟩])
  checks := [expiryCheck expiresAt]
  rootKeyId := none

/-- The alternative of `_scope_check` for a capability. -/
def scopeClause (cap : Capability) : Clause where
  atoms := [⟨"operation", [.var "op"]⟩, ⟨"resource", [.var "r"]⟩]
  exprs := [.eq (.var "op") (.val (.str cap.kind.str)),
    if cap.isPattern then .startsWith (.var "r") (.val (.str (dropLast cap.resource)))
    else .eq (.var "r") (.val (.str cap.resource))]

/-- `_scope_check`: an empty scope can never satisfy it. -/
def scopeCheck (scope : Scope) : Check :=
  if scope.sorted = [] then ⟨[⟨[], [.const false]⟩]⟩ else ⟨scope.sorted.map scopeClause⟩

/-- `attenuation_builder`. -/
def attenuationBuilder (fromActor toActor : String) (scope : Scope) : BlockBuilder where
  facts := ⟨"delegation", [.str fromActor, .str toActor]⟩ ::
    scope.sorted.map fun cap => ⟨"scope_cap", [.str cap.kind.str, .str cap.resource]⟩
  checks := [scopeCheck scope]

/-- `operation($op), resource($r), cap_exact($op, $r)`. -/
def exactClause : Clause where
  atoms := [⟨"operation", [.var "op"]⟩, ⟨"resource", [.var "r"]⟩,
    ⟨"cap_exact", [.var "op", .var "r"]⟩]
  exprs := []

/-- `operation($op), resource($r), cap_prefix($op, $p), $r.starts_with($p)`. -/
def prefixClause : Clause where
  atoms := [⟨"operation", [.var "op"]⟩, ⟨"resource", [.var "r"]⟩,
    ⟨"cap_prefix", [.var "op", .var "p"]⟩]
  exprs := [.startsWith (.var "r") (.var "p")]

/-- `AUTHORIZER_POLICIES`. -/
def authorizerPolicies : List Policy :=
  [⟨true, exactClause⟩, ⟨true, prefixClause⟩, ⟨false, ⟨[], [.const true]⟩⟩]

/-! ### Reading the trail -/

/-- A character of the groups `[^"\\]+`. -/
def isGroupChar (c : Char) : Bool := c != '\x22' && c != '\\'

/-- The rest of the line after a literal. -/
def afterLiteral (literal line : List Char) : Option (List Char) :=
  if literal.isPrefixOf line then some (line.drop literal.length) else none

/-- A non-empty group `[^"\\]+` and the rest of the line. -/
def matchGroup (line : List Char) : Option (String × List Char) :=
  let group := line.takeWhile isGroupChar
  if group = [] then none else some (String.ofList group, line.drop group.length)

/-- The regular expression `^name\("([^"\\]+)", "([^"\\]+)"\);$` of `_DELEGATION_RE` and
`_SCOPE_CAP_RE`: its two groups. The final `$` also matches before a line feed. -/
def matchFactLine (name : String) (line : List Char) : Option (String × String) := do
  let rest ← afterLiteral (name.toList ++ ['(', '\x22']) line
  let (first, rest) ← matchGroup rest
  let rest ← afterLiteral ['\x22', ',', ' ', '\x22'] rest
  let (second, rest) ← matchGroup rest
  let rest ← afterLiteral ['\x22', ')', ';'] rest
  if rest = [] ∨ rest = ['\n'] then some (first, second) else none

/-- `_capability`. -/
def capability (kind resource : String) : Except HocError Capability :=
  match Kind.ofStr kind with
  | none => .error (HocClass.tokenInvalid.error ("unknown capability kind " ++ quoted kind))
  | some k => Capability.make k resource

/-- What the loop of `parse_trail_block` has read so far. -/
structure Trail where
  delegation : Option (String × String)
  caps : List Capability

/-- One line of the trail. -/
def readTrailLine (trail : Trail) (line : List Char) : Except HocError Trail :=
  match matchFactLine "delegation" line with
  | some hop => do
    raiseIf (trail.delegation.isSome = true) (HocClass.tokenInvalid.error
      "malformed delegation block: several delegation facts")
    return { trail with delegation := some hop }
  | none =>
    match matchFactLine "scope_cap" line with
    | some (kind, resource) => do
      let cap ← capability kind resource
      return { trail with caps := trail.caps ++ [cap] }
    | none => return trail

/-- The lines of the trail. -/
def readTrailLines : Trail → List (List Char) → Except HocError Trail
  | trail, [] => .ok trail
  | trail, line :: rest => do
    let trail ← readTrailLine trail (strip line)
    readTrailLines trail rest

/-- `parse_trail_block`: the hop and the declared scope, or `none` for an opaque block. -/
def parseTrailBlock (source : String) : Except HocError (Option ((String × String) × Scope)) := do
  let trail ← readTrailLines ⟨none, []⟩ (splitLines source)
  match trail.delegation with
  | none => return none
  | some hop => return some (hop, Scope.fromIterable trail.caps)

/-! ### Reading the authority block -/

variable {Text : Type} (lib : BiscuitLib Text)

/-- The authorizer of `load`: `allow if true;`. -/
def readingAuthorizer : Authorizer := ⟨[], [⟨true, ⟨[], [.const true]⟩⟩]⟩

/-- `_single`. -/
def single (biscuit : Biscuit) (name : String) : Except HocError Value :=
  match readingAuthorizer.query biscuit [.var "x"] ⟨name, [.var "x"]⟩ with
  | [[x]] => .ok x
  | _ => .error (HocClass.tokenInvalid.error
    ("authority block must carry exactly one " ++ name ++ " fact"))

/-- `read_mandate`. -/
def readMandate (biscuit : Biscuit) : Except HocError (Option String) :=
  match readingAuthorizer.query biscuit [.var "m"] ⟨"mandate", [.var "m"]⟩ with
  | [] => .ok none
  | [[m]] => .ok (some (lib.strValue m))
  | _ => .error (HocClass.tokenInvalid.error "authority block must carry at most one mandate fact")

/-- The facts of a capability query, each made into a capability; `cap_prefix` facts get
their star back. -/
def capabilities (star : String) : List (List Value) → Except HocError (List Capability)
  | [] => .ok []
  | [kind, resource] :: rest => do
    let cap ← capability (lib.strValue kind) (lib.strValue resource ++ star)
    let caps ← capabilities star rest
    return cap :: caps
  | _ :: rest => capabilities star rest

/-- What `read_authority` returns. -/
structure Authority where
  subject : String
  actor : String
  scope : Scope
  expiresAt : ℤ

/-- `read_authority`. -/
def readAuthority (biscuit : Biscuit) : Except HocError Authority := do
  let subject ← single biscuit "subject"
  let actor ← single biscuit "actor"
  let expiresRaw ← single biscuit "expires_at"
  let exact ← capabilities lib "" (readingAuthorizer.query biscuit [.var "k", .var "r"]
    ⟨"cap_exact", [.var "k", .var "r"]⟩)
  let patterns ← capabilities lib "*" (readingAuthorizer.query biscuit [.var "k", .var "p"]
    ⟨"cap_prefix", [.var "k", .var "p"]⟩)
  match expiresRaw with
  | .date seconds =>
    return ⟨lib.strValue subject, lib.strValue actor, .fromIterable (exact ++ patterns),
      seconds * 1000000⟩
  | _ => .error (HocClass.tokenInvalid.error "authority block has no valid expires_at")

end HeadOfContext
