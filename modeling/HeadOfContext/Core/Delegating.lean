import HeadOfContext.Core.Chain
import HeadOfContext.Core.Grammar

/-!
# Delegating again and again

What a sequence of `delegate` calls can do to a root chain. Every chain that it reaches
`Descends` from the root: the subject is the first one, the links lead from the root actor
to the actor without a gap, and every scope on the way covers whatever a later one covers
(`descends_delegateAll`). A hop only compares its two ends, so the ceiling needs coverage to
be transitive, with a pattern inside a pattern as the one case that is not immediate
(`Capability.covers_trans`).

A call is refused unless `MayDelegate` holds, but for one slip: the expression for references
ends in `$`, and so it also accepts a reference with a final line feed, which is none in the
documented charset. `delegation_iff` says that these are the only calls that go wrong.
-/

namespace HeadOfContext

open PyText Except

/-! ### Agent references -/

/-- A reference to an agent in the documented charset: `agent:id`, and nothing after it. -/
def AgentReference (value : String) : Prop :=
  ∃ id : List Char, id ≠ [] ∧ (∀ c ∈ id, isIdChar c = true) ∧
    value.toList = "agent".toList ++ ':' :: id

/-- `validate_ref` accepts the references in the documented charset, with a line feed after
them or without. -/
theorem isRef_agent_iff {value : String} :
    isRef value "agent" = true ↔ ∃ id : List Char, id ≠ [] ∧ (∀ c ∈ id, isIdChar c = true) ∧
      matchBody value.toList = "agent".toList ++ ':' :: id := by
  rw [isRef_iff, and_iff_right (by decide : isTypeName "agent".toList = true)]
  exact ⟨fun ⟨id, hbody, hne, hid⟩ => ⟨id, hne, hid, hbody⟩,
    fun ⟨id, hne, hid, hbody⟩ => ⟨id, hbody, hne, hid⟩⟩

/-- The references that `validate_ref` accepts and that end in no line feed. -/
theorem agentReference_iff {value : String} :
    AgentReference value ↔ isRef value "agent" = true ∧ Documented value := by
  constructor
  · rintro ⟨id, hne, hid, hvalue⟩
    have hdoc : Documented value := by
      intro hlast
      rw [hvalue, List.getLast?_append_of_ne_nil _ (List.cons_ne_nil _ _),
        List.getLast?_cons_of_ne_nil hne] at hlast
      -- the last character of the id would be the line feed
      exact absurd (hid '\n' (List.mem_of_getLast? hlast)) (by decide)
    refine ⟨isRef_agent_iff.mpr ⟨id, hne, hid, ?_⟩, hdoc⟩
    rw [matchBody, if_neg hdoc, hvalue]
  · rintro ⟨href, hdoc⟩
    obtain ⟨id, hne, hid, hbody⟩ := isRef_agent_iff.mp href
    rw [matchBody, if_neg hdoc] at hbody
    exact ⟨id, hne, hid, hbody⟩

namespace PrincipalChain

/-! ### One call -/

/-- What a call of `delegate` has to meet: the target is another agent, the scope does not
widen, and there is room for a link. -/
def MayDelegate (c : PrincipalChain) (toActor : String) (scope : Scope) : Prop :=
  AgentReference toActor ∧ toActor ≠ c.actor ∧ scope.isSubsetOf c.scope = true ∧
    c.depth < MAX_DELEGATION_DEPTH

theorem getLast?_delegation {c : PrincipalChain} {last : Delegation}
    (h : c.delegation.getLast? = some last) : last.toActor = c.actor ∧ last.scope = c.scope :=
  (postInit_ok.mp c.valid).2.2.2.1 last h

/-- **When a call succeeds.** The three constructors together check the reference, the two
ends, the scope and the depth, and nothing else. -/
theorem exists_delegate_iff {c : PrincipalChain} {toActor : String} {scope : Scope} :
    (∃ c', c.delegate toActor scope = .ok c') ↔
      isRef toActor "agent" = true ∧ toActor ≠ c.actor ∧ scope.isSubsetOf c.scope = true ∧
        c.depth < MAX_DELEGATION_DEPTH := by
  constructor
  · rintro ⟨c', h⟩
    obtain ⟨hsub, -, hactor, -, link, hlink, -⟩ := delegate_ok h
    obtain ⟨hfrom, hto, -⟩ := Delegation.make_ok hlink
    have hdepth := c'.depth_le
    rw [depth_delegate h] at hdepth
    refine ⟨hactor ▸ c'.actor_isRef, ?_, hsub, hdepth⟩
    rw [← hfrom, ← hto]
    exact link.distinct.symm
  · rintro ⟨href, hne, hsub, hdepth⟩
    have hlink : Delegation.make c.actor toActor scope =
        .ok ⟨c.actor, toActor, scope, c.actor_isRef, href, hne.symm⟩ := by
      rw [Delegation.make, dif_pos c.actor_isRef, dif_pos href, dif_neg hne.symm]
    -- the new chain passes its checks: the link follows the last one, and is the last one
    have hvalid : postInit c.subject toActor
        (c.delegation ++ [⟨c.actor, toActor, scope, c.actor_isRef, href, hne.symm⟩]) scope =
          .ok () := by
      refine postInit_ok.mpr ⟨c.subject_isRef, href, ?_, ?_, ?_⟩
      · rw [List.length_append]
        exact hdepth
      · intro last hlast
        rw [List.getLast?_concat] at hlast
        obtain rfl := Option.some.inj hlast
        exact ⟨rfl, rfl⟩
      · refine List.isChain_append.mpr ⟨c.delegation_isChain, List.isChain_singleton _, ?_⟩
        intro last hlast link hfirst
        obtain rfl : _ = link := Option.some.inj hfirst
        obtain ⟨hto, hscope⟩ := getLast?_delegation hlast
        refine ⟨hto.symm, ?_⟩
        rw [hscope]
        exact hsub
    obtain ⟨c', hc'⟩ := exists_make (some c.rootScope) hvalid
    refine ⟨c', ?_⟩
    rw [delegate, hsub, hlink]
    exact hc'

/-! ### Sequences of calls -/

/-- The calls of a list, one after another. -/
def delegateAll : PrincipalChain → List (String × Scope) → Except HocError PrincipalChain
  | c, [] => .ok c
  | c, (toActor, scope) :: rest => do
    let c ← c.delegate toActor scope
    c.delegateAll rest

/-- Whatever the second scope covers, the first one covers too. -/
def Wider (s t : Scope) : Prop := ∀ cap, t.covers cap = true → s.covers cap = true

/-- The chain goes back to a root chain with this subject, actor and scope. -/
structure Descends (subject agent : String) (scope : Scope) (c : PrincipalChain) : Prop where
  subject : c.subject = subject
  /-- The links lead from the root actor to the actor, without a gap. -/
  start : c.rootActor = agent
  contiguous : c.delegation.IsChain fun previous link => link.fromActor = previous.toActor
  target : ((c.delegation.getLast?.map Delegation.toActor).getD agent) = c.actor
  lastScope : ((c.delegation.getLast?.map Delegation.scope).getD scope) = c.scope
  rootScope : c.rootScope = scope
  /-- Every scope is covered by each of those before it, the root scope included. -/
  narrows : (scope :: c.delegation.map Delegation.scope).Pairwise Wider

theorem descends_root {subject agent : String} {scope : Scope} {c : PrincipalChain}
    (h : PrincipalChain.root subject agent scope = .ok c) : Descends subject agent scope c := by
  obtain ⟨hsubject, hactor, hdelegation, hscope, hroot⟩ := make_ok h
  have hstart : c.rootActor = agent := by
    rw [rootActor, hdelegation]
    exact hactor
  refine ⟨hsubject, hstart, ?_, ?_, ?_, ?_, ?_⟩
  · rw [hdelegation]
    exact .nil
  · rw [hdelegation]
    exact hactor.symm
  · rw [hdelegation]
    exact hscope.symm
  · rw [rootScope, hroot]
    exact hscope
  · rw [hdelegation]
    exact List.pairwise_singleton _ _

/-- The scopes of a chain, the root scope first, end in its own scope. -/
theorem Descends.wider_scope {subject agent : String} {scope : Scope} {c : PrincipalChain}
    (h : Descends subject agent scope c) {s : Scope}
    (hs : s ∈ scope :: c.delegation.map Delegation.scope) : Wider s c.scope := by
  have hlast : (scope :: c.delegation.map Delegation.scope).getLast (List.cons_ne_nil _ _) =
      c.scope := by
    rw [List.getLast_eq_getLastD, List.getLastD_eq_getLast?, List.getLast?_map]
    exact h.lastScope
  have hsplit := List.dropLast_append_getLast
    (List.cons_ne_nil scope (c.delegation.map Delegation.scope))
  rw [hlast] at hsplit
  rw [← hsplit] at hs
  have hnarrows := h.narrows
  rw [← hsplit] at hnarrows
  rcases List.mem_append.mp hs with hinit | hend
  · exact (List.pairwise_append.mp hnarrows).2.2 s hinit c.scope (List.mem_singleton.mpr rfl)
  · rw [List.mem_singleton.mp hend]
    exact fun cap hcap => hcap

/-- **One hop** keeps the descent. -/
theorem Descends.delegate {subject agent : String} {scope sc : Scope} {c c' : PrincipalChain}
    {toActor : String} (h : Descends subject agent scope c)
    (hc' : c.delegate toActor sc = .ok c') : Descends subject agent scope c' := by
  obtain ⟨hsub, hsubject, hactor, hscope, link, hlink, hdelegation⟩ := delegate_ok hc'
  obtain ⟨hfrom, hto, hlinkScope⟩ := Delegation.make_ok hlink
  have hroot : c'.rootScope = c.rootScope := by
    simp only [PrincipalChain.delegate, bind_eq_ok] at hc'
    obtain ⟨_, -, _, -, hmake⟩ := hc'
    have hknown := (make_ok hmake).2.2.2.2
    rw [PrincipalChain.rootScope, hknown, Option.getD_some]
  refine ⟨hsubject.trans h.subject, (rootActor_delegate hc').trans h.start, ?_, ?_, ?_,
    hroot.trans h.rootScope, ?_⟩
  · rw [hdelegation]
    refine List.isChain_append.mpr ⟨h.contiguous, List.isChain_singleton _, ?_⟩
    intro last hlast first hfirst
    obtain rfl : link = first := Option.some.inj hfirst
    rw [hfrom]
    exact (getLast?_delegation hlast).1.symm
  · rw [hdelegation, List.getLast?_concat]
    exact hto.trans hactor.symm
  · rw [hdelegation, List.getLast?_concat]
    exact hlinkScope.trans hscope.symm
  · rw [hdelegation, List.map_append, ← List.cons_append]
    refine List.pairwise_append.mpr ⟨h.narrows, List.pairwise_singleton _ _, ?_⟩
    intro s hs t ht cap hcap
    obtain rfl := List.mem_singleton.mp ht
    rw [hlinkScope] at hcap
    -- the hop checked its neighbour, and the neighbour is covered by all before it
    have hneighbour : c.scope.covers cap = true := Scope.covers_of_isSubsetOf hsub hcap
    exact h.wider_scope hs cap hneighbour

/-- **Every chain that a sequence of calls reaches** descends from its root. -/
theorem descends_delegateAll {subject agent : String} {scope : Scope}
    {hops : List (String × Scope)} {c c' : PrincipalChain} (h : Descends subject agent scope c)
    (hrun : c.delegateAll hops = .ok c') : Descends subject agent scope c' := by
  induction hops generalizing c with
  | nil =>
    obtain rfl := Except.ok.inj hrun
    exact h
  | cons hop rest ih =>
    obtain ⟨toActor, sc⟩ := hop
    obtain ⟨next, hnext, hrest⟩ := bind_eq_ok.mp hrun
    exact ih (h.delegate hnext) hrest

/-- **Delegation over whole chains.** After any sequence of calls, the chain descends from its
root; and the next call succeeds exactly when it may, unless its target is a reference with a
final line feed and nothing else stands against it. -/
theorem delegation_iff {subject agent : String} {scope : Scope} {root c : PrincipalChain}
    {hops : List (String × Scope)} (hroot : PrincipalChain.root subject agent scope = .ok root)
    (hrun : root.delegateAll hops = .ok c) :
    Descends subject agent scope c ∧ ∀ toActor sc,
      (((∃ c', c.delegate toActor sc = .ok c') ↔ c.MayDelegate toActor sc) ↔
        ¬ (isRef toActor "agent" = true ∧ ¬ Documented toActor ∧ toActor ≠ c.actor ∧
          sc.isSubsetOf c.scope = true ∧ c.depth < MAX_DELEGATION_DEPTH)) := by
  refine ⟨descends_delegateAll (descends_root hroot) hrun, fun toActor sc => ?_⟩
  rw [exists_delegate_iff, MayDelegate, agentReference_iff]
  by_cases hdoc : Documented toActor
  · simp [hdoc]
  · simp [hdoc]

/-- The law after one hop. -/
theorem delegation_iff_hop :
    ∃ c, (Descends aliceReader.subject aliceReader.actor aliceReader.scope c ∧
    ∀ toActor sc, (((∃ c', c.delegate toActor sc = .ok c') ↔ c.MayDelegate toActor sc) ↔
      ¬ (isRef toActor "agent" = true ∧ ¬ Documented toActor ∧ toActor ≠ c.actor ∧
        sc.isSubsetOf c.scope = true ∧ c.depth < MAX_DELEGATION_DEPTH))) ∧ c.depth = 1 := by
  have hroot : PrincipalChain.root aliceReader.subject aliceReader.actor aliceReader.scope =
      .ok aliceReader := by
    decide +kernel
  obtain ⟨c, hc⟩ : ∃ c, aliceReader.delegate "agent:b" aliceReader.scope = .ok c :=
    exists_delegate_iff.mpr (by decide +kernel)
  have hrun : aliceReader.delegateAll [("agent:b", aliceReader.scope)] = .ok c := by
    rw [delegateAll, hc]
    rfl
  exact ⟨c, delegation_iff hroot hrun, depth_delegate hc⟩

/-- A chain is delegated to `agent:b` and a line feed. -/
theorem delegates_to_line_feed :
    PrincipalChain.root aliceReader.subject aliceReader.actor aliceReader.scope = .ok aliceReader ∧
    ¬ ((∃ c', aliceReader.delegate "agent:b\n" aliceReader.scope = .ok c') ↔
      aliceReader.MayDelegate "agent:b\n" aliceReader.scope) := by
  refine ⟨by decide +kernel, fun hiff => ?_⟩
  obtain ⟨href, -⟩ := hiff.mp (exists_delegate_iff.mpr (by decide +kernel))
  exact absurd (agentReference_iff.mp href).2 (by decide +kernel)

end PrincipalChain

end HeadOfContext
