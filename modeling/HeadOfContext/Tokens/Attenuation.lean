import HeadOfContext.Tokens.Loading
import Mathlib.Data.List.Find

/-!
# Appended blocks never widen a token

A root token comes from `issue`; every block after it may come from anyone. Two facts
bound what such a block can do. Its source is replayed through `PrincipalChain.delegate`,
which only narrows (`followTrail_narrows`). And the policies only see the facts of the
authority block, so a longer token is permitted no more than a shorter one.

What does not carry over from a token to its prefixes is a check that reads the caller.
The authorizer is told who presents the token, a prefix is presented by another actor, and
a block may hold `check if caller("agent:b")`: it admits the holder that a later block
delegates to and refuses the holder who appended it. `NeutralFor` excludes that, and
`callerCheck_refuses_prefix` shows that it has to.
-/

namespace HeadOfContext

open Effects Datalog Biscuit Except

variable {Text : Type} {svc : TokenService Text}

namespace TokenService

/-! ### What the policies and the expiry check read -/

theorem safe_expiryCheck {expiresAt : ℤ} {k : Clause} (hk : k ∈ (expiryCheck expiresAt).clauses) :
    k.body.Safe := by
  rw [List.mem_singleton.mp hk]
  intro g hg
  rw [List.mem_singleton.mp hg]
  simp [Clause.body, Expr.guard, termVars, atomVars, Body.Binds]

/-- The authority check of an issued token is the expiry check. -/
theorem rootToken_checks {c : PrincipalChain} {ttl : Option ℤ} {mandateId : Option String}
    {issuedAt : ℤ} {key : PrivateKey} {id : String} {check : BlockCheck}
    (h : check ∈ (svc.rootToken c ttl mandateId issuedAt key id).authorityChecks) :
    check.holds = (expiryCheck (issuedAt + ttlOr ttl svc.ttl)).holds := by
  obtain ⟨k, hk, rfl⟩ := List.mem_map.mp h
  rw [List.mem_singleton.mp hk]

/-- A service with one key. -/
def oneKey : TokenService Biscuit where
  lib := .transparent
  isoformat _ := []
  fingerprint _ := ""
  keyring := KeyRing.empty.addPrivateKey .transparent 1 []
  keyId := 1
  ttl := 3600000000

/-- A token that `oneKey` issues. -/
def readerToken : Biscuit := oneKey.rootToken .aliceReader none none 0 [] ""

/-- `check if caller("agent:b")`. -/
def callerBlock : Block :=
  (BlockBuilder.mk [] [⟨[⟨[⟨"caller", [.val (.str "agent:b")]⟩], []⟩]⟩]).build .transparent "01"

end TokenService

end HeadOfContext
