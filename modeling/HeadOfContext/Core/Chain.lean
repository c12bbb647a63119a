import HeadOfContext.Core.Scope
import HeadOfContext.Framework.Except
import Mathlib.Data.List.Chain

/-!
# Principal chains

Who we act for, who acts, and what was delegated along the way. A `PrincipalChain`
can only be built by passing the checks of `__post_init__`, which the field `valid`
records: the subject is a user, the actor an agent, the depth is bounded, and the
links are contiguous and only narrow. `delegate` adds a hop.
-/

namespace HeadOfContext

open PyText Except

/-- Bounded so that verification stays cheap and chain-stuffing is not a vector. -/
def MAX_DELEGATION_DEPTH : ℕ := 8

/-- One hop: both ends are agents, and they differ. -/
structure Delegation where
  fromActor : String
  toActor : String
  scope : Scope
  fromAgent : isRef fromActor "agent" = true
  toAgent : isRef toActor "agent" = true
  distinct : fromActor ≠ toActor
  deriving DecidableEq

/-- `Delegation(from_actor, to_actor, scope)`. -/
def Delegation.make (fromActor toActor : String) (scope : Scope) : Except HocError Delegation :=
  if hf : isRef fromActor "agent" = true then
    if ht : isRef toActor "agent" = true then
      if hd : fromActor = toActor then
        .error (HocClass.invariantViolation.error "an agent cannot delegate to itself")
      else .ok ⟨fromActor, toActor, scope, hf, ht, hd⟩
    else .error (HocClass.invariantViolation.error
      ("expected a " ++ quoted "agent" ++ " reference, got " ++ quoted toActor))
  else .error (HocClass.invariantViolation.error
    ("expected a " ++ quoted "agent" ++ " reference, got " ++ quoted fromActor))

theorem Delegation.make_ok {f t : String} {s : Scope} {d : Delegation}
    (h : make f t s = .ok d) : d.fromActor = f ∧ d.toActor = t ∧ d.scope = s := by
  rw [make] at h
  split_ifs at h
  obtain rfl := Except.ok.inj h
  exact ⟨rfl, rfl, rfl⟩

/-- The loop of `__post_init__` over the links after the first. -/
def checkLinks : Delegation → List Delegation → Except HocError Unit
  | _, [] => .ok ()
  | previous, link :: rest =>
    if link.fromActor ≠ previous.toActor then
      .error (HocClass.invariantViolation.error "delegation links are not contiguous")
    else if !link.scope.isSubsetOf previous.scope then
      .error (HocClass.scopeEscalation.error
        (link.fromActor ++ " -> " ++ link.toActor ++ " widens the scope"))
    else checkLinks link rest

/-- The checks of `PrincipalChain.__post_init__`. -/
def postInit (subject actor : String) (delegation : List Delegation) (scope : Scope) :
    Except HocError Unit := do
  let _ ← validateRef subject "user"
  let _ ← validateRef actor "agent"
  raiseIf (delegation.length > MAX_DELEGATION_DEPTH)
    (HocClass.invariantViolation.error "delegation depth exceeds 8")
  match delegation with
  | [] => return ()
  | first :: rest =>
    let last := (first :: rest).getLast (List.cons_ne_nil _ _)
    raiseIf (last.toActor ≠ actor)
      (HocClass.invariantViolation.error "actor must be the target of the last delegation")
    raiseIf (last.scope ≠ scope)
      (HocClass.invariantViolation.error "scope must equal the scope of the last delegation")
    checkLinks first rest

/-- A chain that passed its checks. The field `knownRootScope` is `_root_scope`. -/
structure PrincipalChain where
  subject : String
  actor : String
  delegation : List Delegation
  scope : Scope
  knownRootScope : Option Scope
  valid : postInit subject actor delegation scope = .ok ()
  deriving DecidableEq

namespace PrincipalChain

/-- `PrincipalChain(subject, actor, delegation, scope, _root_scope)`. -/
def make (subject actor : String) (delegation : List Delegation) (scope : Scope)
    (knownRootScope : Option Scope) : Except HocError PrincipalChain :=
  match h : postInit subject actor delegation scope with
  | .ok () => .ok ⟨subject, actor, delegation, scope, knownRootScope, h⟩
  | .error e => .error e

/-- `PrincipalChain.root`. -/
def root (subject actor : String) (scope : Scope) : Except HocError PrincipalChain :=
  make subject actor [] scope none

/-- The actor the chain starts from. -/
def rootActor (c : PrincipalChain) : String :=
  match c.delegation with
  | [] => c.actor
  | first :: _ => first.fromActor

/-- Scope of the root actor when known; equals `scope` for a root chain. -/
def rootScope (c : PrincipalChain) : Scope := c.knownRootScope.getD c.scope

/-- `depth`. -/
def depth (c : PrincipalChain) : ℕ := c.delegation.length

/-- A new chain one hop longer. Raises `ScopeEscalation` if `scope` widens. -/
def delegate (c : PrincipalChain) (toActor : String) (scope : Scope) :
    Except HocError PrincipalChain := do
  raiseIf (scope.isSubsetOf c.scope = false)
    (HocClass.scopeEscalation.error (c.actor ++ " -> " ++ toActor ++ " widens the scope"))
  let link ← Delegation.make c.actor toActor scope
  make c.subject toActor (c.delegation ++ [link]) scope (some c.rootScope)

/-- An agent that may read every document for alice. -/
def aliceReader : PrincipalChain :=
  ⟨"user:alice", "agent:a", [], .fromIterable [⟨.read, "doc:*", by decide⟩], none, by decide⟩

/-! ### What the checks guarantee -/

theorem make_ok {s a : String} {d : List Delegation} {sc : Scope} {r : Option Scope}
    {c : PrincipalChain} (h : make s a d sc r = .ok c) :
    c.subject = s ∧ c.actor = a ∧ c.delegation = d ∧ c.scope = sc ∧ c.knownRootScope = r := by
  rw [make] at h
  split at h
  · obtain rfl := Except.ok.inj h
    exact ⟨rfl, rfl, rfl, rfl, rfl⟩
  · exact absurd h (by simp)

/-- Consecutive links of a chain: the second starts where the first ends, and does not
widen it. -/
def Follows (previous link : Delegation) : Prop :=
  link.fromActor = previous.toActor ∧ link.scope.isSubsetOf previous.scope = true

/-- A chain whose checks pass can be made. -/
theorem exists_make {s a : String} {d : List Delegation} {sc : Scope} (r : Option Scope)
    (h : postInit s a d sc = .ok ()) : ∃ c, make s a d sc r = .ok c := by
  refine ⟨⟨s, a, d, sc, r, h⟩, ?_⟩
  rw [make]
  split
  · rfl
  · next e he => exact absurd (h.symm.trans he) (by simp)

theorem checkLinks_ok {first : Delegation} {rest : List Delegation} :
    checkLinks first rest = .ok () ↔ (first :: rest).IsChain Follows := by
  induction rest generalizing first with
  | nil => simp [checkLinks]
  | cons link rest ih =>
    rw [checkLinks, List.isChain_cons_cons]
    by_cases hf : link.fromActor = first.toActor
    · by_cases hs : link.scope.isSubsetOf first.scope = true
      · simp [Follows, hf, hs, ih]
      · simp [Follows, hf, hs]
    · simp [Follows, hf]

/-- The checks of a chain, one by one. -/
theorem postInit_ok {s a : String} {d : List Delegation} {sc : Scope} :
    postInit s a d sc = .ok () ↔
      isRef s "user" = true ∧ isRef a "agent" = true ∧ d.length ≤ MAX_DELEGATION_DEPTH ∧
      (∀ last, d.getLast? = some last → last.toActor = a ∧ last.scope = sc) ∧
      d.IsChain Follows := by
  have hlast : ∀ (first : Delegation) (rest : List Delegation),
      (first :: rest).getLast? = some ((first :: rest).getLast (List.cons_ne_nil _ _)) :=
    fun first rest => List.getLast?_eq_some_getLast _
  unfold postInit
  simp only [bind_eq_ok, validateRef_eq_ok, raiseIf_eq_ok]
  cases d with
  | nil => simp
  | cons first rest =>
    simp only [bind_eq_ok, raiseIf_eq_ok, checkLinks_ok, hlast]
    constructor
    · rintro ⟨_, ⟨hs, -⟩, _, ⟨ha, -⟩, _, hd, _, hl, _, hl', hc⟩
      exact ⟨hs, ha, by omega, by rintro last ⟨⟩; exact ⟨not_not.mp hl, not_not.mp hl'⟩, hc⟩
    · rintro ⟨hs, ha, hd, hl, hc⟩
      exact ⟨_, ⟨hs, rfl⟩, _, ⟨ha, rfl⟩, (), by omega, (), not_not.mpr (hl _ rfl).1, (),
        not_not.mpr (hl _ rfl).2, hc⟩

variable (c : PrincipalChain)

theorem subject_isRef : isRef c.subject "user" = true := (postInit_ok.mp c.valid).1

theorem actor_isRef : isRef c.actor "agent" = true := (postInit_ok.mp c.valid).2.1

theorem depth_le : c.depth ≤ MAX_DELEGATION_DEPTH := (postInit_ok.mp c.valid).2.2.1

theorem delegation_isChain : c.delegation.IsChain Follows := (postInit_ok.mp c.valid).2.2.2.2

variable {c}

/-- A chain without links is the root chain of its fields. -/
theorem exists_root (h : c.depth = 0) :
    ∃ root, PrincipalChain.root c.subject c.actor c.scope = .ok root := by
  have hnil : c.delegation = [] := List.length_eq_zero_iff.mp h
  refine exists_make none ?_
  rw [← hnil]
  exact c.valid

/-- **One hop.** What a successful `delegate` checked, and the chain it returns. -/
theorem delegate_ok {b : String} {sc : Scope} {c' : PrincipalChain}
    (h : c.delegate b sc = .ok c') :
    sc.isSubsetOf c.scope = true ∧ c'.subject = c.subject ∧ c'.actor = b ∧ c'.scope = sc ∧
      ∃ link, Delegation.make c.actor b sc = .ok link ∧ c'.delegation = c.delegation ++ [link] := by
  simp only [delegate, bind_eq_ok, raiseIf_eq_ok] at h
  obtain ⟨_, hsub, link, hlink, hmake⟩ := h
  obtain ⟨hs, ha, hd, hsc, -⟩ := make_ok hmake
  exact ⟨by simpa using hsub, hs, ha, hsc, link, hlink, hd⟩

/-- Delegation keeps the actor the chain starts from. -/
theorem rootActor_delegate {b : String} {sc : Scope} {c' : PrincipalChain}
    (h : c.delegate b sc = .ok c') : c'.rootActor = c.rootActor := by
  obtain ⟨-, -, -, -, link, hlink, hd⟩ := delegate_ok h
  obtain ⟨hf, -, -⟩ := Delegation.make_ok hlink
  unfold rootActor
  rw [hd]
  cases c.delegation with
  | nil => exact hf
  | cons first rest => rfl

theorem depth_delegate {b : String} {sc : Scope} {c' : PrincipalChain}
    (h : c.delegate b sc = .ok c') : c'.depth = c.depth + 1 := by
  obtain ⟨-, -, -, -, link, -, hd⟩ := delegate_ok h
  rw [depth, hd, List.length_append]
  rfl

end PrincipalChain

end HeadOfContext
