import HeadOfContext.Framework.Dict
import HeadOfContext.Integrations.Session

/-!
# The tool guard

`ToolGuard` authorizes the calls of a framework's tools. It translates the name that the framework
uses into the tool resource that the session gates, runs the gate, and turns what is not allowed
into an exception. `authorize` returns the pending approval, whose exception carries the request,
as the inner `Except`.
-/

namespace HeadOfContext

open Effects Except PyText

/-- `ApprovalPending`: the call needs a human decision. -/
structure ApprovalPending where
  requestId : String
  tool : String

/-- `refusal_message` of a pending approval. -/
def ApprovalPending.refusalMessage (exc : ApprovalPending) (name : String) : String :=
  "HeadOfContext: tool '" ++ name ++ "' requires approval (request " ++ exc.requestId ++
    "). Do not retry until it is approved."

/-- `refusal_message` of an `ActionDenied`. -/
def HocError.refusalMessage (exc : HocError) (name : String) : String :=
  "HeadOfContext denied tool '" ++ name ++ "': " ++ exc.reason ++ ". Do not retry."

/-- `ToolGuard`. -/
structure ToolGuard (Text : Type) where
  session : AgentSession Text
  toolMap : Dict String String
  defaultResource : Option (String → String)

namespace ToolGuard

variable {Text : Type} (g : ToolGuard Text)

/-- `resource_for`: the tool resource a framework name is gated as. -/
def resourceFor (name : String) : String :=
  match g.toolMap.get name with
  | some mapped => mapped
  | none =>
    match g.defaultResource with
    | some resource => resource name
    | none => name

/-- `authorize`: the result of the gate, if it allows the call. -/
def authorize (name : String) (args : Args) : Sessions (Except ApprovalPending GateResult) := do
  let result ← g.session.authorize (g.resourceFor name) (some args)
  if result.allowed then return .ok result
  else
    match result.decision.outcome, result.approval with
    | .requireApproval, some request => return .error ⟨request.requestId, name⟩
    | _, _ => .raise (.hoc (HocClass.actionDenied.errorWith
        ("tool " ++ quoted name ++ " denied: " ++ result.decision.reason) result.decision.reason))

end ToolGuard

end HeadOfContext
