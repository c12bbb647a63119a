import HeadOfContext.Core.Batched
import HeadOfContext.Framework.Decimal
import HeadOfContext.Framework.Dict

/-!
# The read filter

`filterItems` keeps the items whose document the subject may view. It looks at one field of each
item, the reference, and asks about each reference once: the token through `permits`, then the
engine, by batches of checks or by one ListObjects whose answer is intersected with the
candidates. Both ways end in `decideEach`, so scope and policy apply to both; `strategies_agree`
says what they keep of the same items.
-/

namespace HeadOfContext

open Effects Except Decimal

/-! ### The collaborators -/

/-- A call of the filter: one of the decision path, ListObjects, or the holder's answers. -/
inductive FilterOp where
  | core (o : CoreOp)
  /-- `engine.list_objects(subject, relation, type)`. -/
  | listObjects (subject relation objectType : String)
  /-- `permits(operation, resources)`. -/
  | permits (operation : Kind) (resources : List String)

/-- The answer to each call. -/
abbrev FilterOp.Res : FilterOp → Type
  | core o => CoreOp.Res o
  | listObjects _ _ _ => Except Exn (List String)
  | permits _ _ => Except Exn (List (String × Bool))

/-- The interface of the filter. -/
abbrev FilterSig : Sig := ⟨FilterOp, FilterOp.Res⟩

/-- A method of the filter. -/
abbrev Filtered := Raises FilterSig Exn

namespace Filtered

/-- Run a method of the core. -/
def core {α : Type} (p : Core α) : Filtered α := p.embed (T := FilterSig) ⟨.core, fun _ r => r⟩

def listObjects (subject relation objectType : String) : Filtered (List String) :=
  ⟨.invoke (S := FilterSig) (.listObjects subject relation objectType)⟩

def permits (operation : Kind) (resources : List String) : Filtered (List (String × Bool)) :=
  ⟨.invoke (S := FilterSig) (.permits operation resources)⟩

end Filtered

/-! ### The filter -/

/-- `Strategy`. -/
inductive Strategy where
  | auto | batch | listObjects
  deriving DecidableEq

/-- `LIST_OBJECTS_THRESHOLD`. -/
def LIST_OBJECTS_THRESHOLD : ℕ := 100

/-- `_choose`: never `auto`. -/
def Strategy.choose (strategy : Strategy) (count : ℕ) : Strategy :=
  if strategy = .auto then if count > LIST_OBJECTS_THRESHOLD then .listObjects else .batch
  else strategy

/-- `FilterResult`. No strategy was chosen when there was nothing to filter. -/
structure FilterResult (T : Type) where
  kept : List T
  dropped : List String
  strategy : Option Strategy
  decisionsByRef : Dict String Outcome

/-- `_reference`: the reference of an item, if the extractor returns a well-formed one. The
extractor may raise, and may return something that is no string. -/
def reference {T : Type} (extract : T → Except Exn (Option String)) (item : T) : Option String :=
  match extract item with
  | .ok (some raw) =>
    match validateRef raw "document" with
    | .ok ref => some ref
    | .error _ => none
  | _ => none

/-- `_via_list_objects`: what ListObjects does not return is denied without asking again. -/
def viaListObjects (D : Decider) (chain : PrincipalChain) (action : Action)
    (candidates : List String) : Filtered (Dict String Outcome) := do
  let answer ← (Filtered.listObjects chain.subject action.relation "document").attempt
  match answer with
  | .error _ => return .fromKeys candidates .deny
  | .ok visible =>
    let listed := candidates.filter (· ∈ visible)
    let decisions ← Filtered.core (D.decideEach chain action listed false none none)
    return (Dict.fromKeys candidates .deny).setAll (decisions.map fun d => (d.resource, d.outcome))

/-- The decisions of the batch path. -/
def viaBatch (D : Decider) (chain : PrincipalChain) (action : Action) (candidates : List String)
    (perItemAudit : Bool) : Filtered (Dict String Outcome) := do
  let decisions ← Filtered.core (D.decideEach chain action candidates perItemAudit none none)
  return Dict.empty.setAll (decisions.map fun d => (d.resource, d.outcome))

/-- `allowed.get(ref) is Outcome.ALLOW`. -/
def isKept (allowed : Dict String Outcome) (ref : String) : Bool :=
  allowed.get ref = some .allow

/-- `ref is not None and allowed.get(ref) is Outcome.ALLOW`. -/
def keeps (allowed : Dict String Outcome) : Option String → Bool
  | some ref => isKept allowed ref
  | none => false

/-- The loop over the items: what is kept, and the references of what is dropped. -/
def keptAndDropped {T : Type} (allowed : Dict String Outcome) :
    List (T × Option String) → List T × List String
  | [] => ([], [])
  | (item, ref) :: rest =>
    let (kept, dropped) := keptAndDropped allowed rest
    if keeps allowed ref then (item :: kept, dropped)
    else (kept, ref.getD "invalid" :: dropped)

/-- `_summary_event`. -/
def summaryEvent (rt : Runtime) (chain : PrincipalChain) (action : Action)
    (keptRefs dropped : List String) (tokenRefused : ℕ) (at_ : ℤ) (eventId : String) :
    AuditEvent where
  kind := .readFiltered
  timestamp := .utc at_
  subject := chain.subject
  actor := chain.actor
  delegationDepth := chain.depth
  action := (action.kind.str ++ ":" ++ action.relation : String)
  resource := ("document:*" : String)
  outcome := (if keptRefs = [] then "DENY" else "ALLOW" : String)
  reason := ("kept=" ++ String.ofList (natText keptRefs.length) ++
    " dropped=" ++ String.ofList (natText dropped.length) ++
    " token_refused=" ++ String.ofList (natText tokenRefused) ++
    " kept_sha256=" ++ String.ofList ((digest rt keptRefs).toList.take 16) : String)
  engineLatencyMs := zeroMs
  tokenFingerprint := .null
  argsHash := digest rt dropped
  decisionId := .null
  eventId := eventId

/-- The references that the token refuses, of the references of the items. -/
def tokenRefused (hasPermits : Bool) (refs : List String) : Filtered (List String) := do
  if hasPermits then
    let wanted := (FrozenSet.ofList refs).items
    let answers ← (if wanted = [] then pure [] else Filtered.permits .read wanted)
    return wanted.filter fun r => !(answers.lookup r).getD false
  else
    return []

/-- What is decided about the candidates, by the chosen strategy. -/
def decideCandidates (D : Decider) (chain : PrincipalChain) (action : Action)
    (candidates : List String) (chosen : Strategy) (perItemAudit : Bool) :
    Filtered (Dict String Outcome) :=
  if candidates = [] then pure .empty
  else if chosen = .listObjects then viaListObjects D chain action candidates
  else viaBatch D chain action candidates perItemAudit

/-- `filter_items`. -/
def filterItems {T : Type} (D : Decider) (chain : PrincipalChain) (items : List T)
    (extract : T → Except Exn (Option String)) (relation : String) (strategy : Strategy)
    (perItemAudit hasPermits : Bool) : Filtered (FilterResult T) := do
  if items = [] then return ⟨[], [], none, .empty⟩
  else
    let action : Action := ⟨.read, relation⟩
    let refs := items.map (reference extract)
    let refused ← tokenRefused hasPermits (refs.filterMap id)
    let candidates := (FrozenSet.ofList ((refs.filterMap id).filter (· ∉ refused))).items
    let chosen := strategy.choose candidates.length
    let decided ← decideCandidates D chain action candidates chosen perItemAudit
    let allowed := (Dict.fromKeys refused .deny).update decided
    let (kept, dropped) := keptAndDropped allowed (items.zip refs)
    let at_ ← Filtered.core Core.now
    let eventId ← Filtered.core Core.uuid4
    Filtered.core (Core.record (summaryEvent D.rt chain action
      ((refs.filterMap id).filter (isKept allowed)) dropped refused.length at_ eventId))
    return ⟨kept, dropped, some chosen, allowed⟩

/-! ### What the filter returns -/

/-- An engine, a policy and a token that answer each question by a fixed function. -/
structure FilterAnswers where
  core : FixedAnswers
  listed : String → String → String → List String
  permits : Kind → List String → List (String × Bool)

namespace FilterAnswers

variable (w : FilterAnswers)

/-- The answers of the filter's collaborators. -/
def Gives : Event FilterSig → Prop
  | ⟨.core o, answer⟩ => w.core.Gives ⟨o, answer⟩
  | ⟨.listObjects subject relation objectType, answer⟩ =>
    answer = .ok (w.listed subject relation objectType)
  | ⟨.permits operation resources, answer⟩ => answer = .ok (w.permits operation resources)

/-- The references that the token refuses. -/
def refused (hasPermits : Bool) (refs : List String) : List String :=
  if hasPermits then
    let wanted := (FrozenSet.ofList refs).items
    let answers := if wanted = [] then [] else w.permits .read wanted
    wanted.filter fun r => !(answers.lookup r).getD false
  else []

variable (D : Decider) (chain : PrincipalChain) (action : Action)

/-- The outcome for a candidate. -/
def judge (ref : String) : Outcome := w.core.outcome D chain action ref [] .none

/-- What the batch path decides. -/
def batched (candidates : List String) : Dict String Outcome :=
  Dict.empty.setAll (candidates.map fun c => (c, w.judge D chain action c))

/-- What the ListObjects path decides. -/
def listedOnly (candidates : List String) : Dict String Outcome :=
  (Dict.fromKeys candidates .deny).setAll
    ((candidates.filter (· ∈ w.listed chain.subject action.relation "document")).map
      fun c => (c, w.judge D chain action c))

/-- What is decided about the candidates. -/
def decided (candidates : List String) (chosen : Strategy) : Dict String Outcome :=
  if candidates = [] then .empty
  else if chosen = .listObjects then w.listedOnly D chain action candidates
  else w.batched D chain action candidates

/-- The candidates of the references. -/
def candidates (hasPermits : Bool) (refs : List String) : List String :=
  (FrozenSet.ofList (refs.filter (· ∉ w.refused hasPermits refs))).items

/-- The outcome of every reference. -/
def allowed (hasPermits : Bool) (refs : List String) (chosen : Strategy) : Dict String Outcome :=
  (Dict.fromKeys (w.refused hasPermits refs) .deny).update
    (w.decided D chain action (w.candidates hasPermits refs) chosen)

end FilterAnswers

section Under

variable {w : FilterAnswers} {D : Decider} {chain : PrincipalChain} {action : Action}

theorem Filtered.under_core {α : Type} {p : Core α} {Q : Except Exn α → Prop}
    (hp : Raises.Under w.core.Gives Q p) : Raises.Under w.Gives Q (Filtered.core p) :=
  hp.embed fun _ _ h => h

theorem under_permits (wanted : List String) :
    Raises.Under w.Gives
      (fun x => ∃ l, x = .ok l ∧ l = if wanted = [] then [] else w.permits .read wanted)
      (if wanted = [] then pure [] else Filtered.permits .read wanted) := by
  by_cases hempty : wanted = []
  · rw [if_pos hempty, if_pos hempty]
    exact Raises.under_pure ⟨_, rfl, rfl⟩
  · rw [if_neg hempty, if_neg hempty]
    exact fun answer hanswer => ⟨_, hanswer, rfl⟩

theorem under_tokenRefused (hasPermits : Bool) (refs : List String) :
    Raises.Under w.Gives (fun x => ∃ l, x = .ok l ∧ l = w.refused hasPermits refs)
      (tokenRefused hasPermits refs) := by
  rw [tokenRefused, FilterAnswers.refused]
  cases hasPermits with
  | false => exact Raises.under_pure ⟨_, rfl, rfl⟩
  | true =>
    refine (under_permits (FrozenSet.ofList refs).items).bind_ok ?_
    rintro answers rfl
    exact Raises.under_pure ⟨_, rfl, rfl⟩

/-- The decisions of a list of valid references, as entries. -/
theorem under_entries {targets : List String} {auditEach : Bool}
    (hvalid : ∀ t ∈ targets, isRef t "document" = true) :
    Raises.Under w.Gives (fun x => ∃ ds, x = .ok ds ∧
        ds.map (fun d => (d.resource, d.outcome)) =
          targets.map fun t => (t, w.judge D chain action t))
      (Filtered.core (D.decideEach chain action targets auditEach none none)) :=
  Filtered.under_core (Decider.under_decideEach
    (fun t ht => isResourcePattern_of_isRef (hvalid t ht)) none none)

theorem under_decideCandidates {candidates : List String} {chosen : Strategy}
    {perItemAudit : Bool} (hvalid : ∀ c ∈ candidates, isRef c "document" = true) :
    Raises.Under w.Gives
      (fun x => ∃ d, x = .ok d ∧ d = w.decided D chain action candidates chosen)
      (decideCandidates D chain action candidates chosen perItemAudit) := by
  rw [decideCandidates, FilterAnswers.decided]
  by_cases hempty : candidates = []
  · rw [if_pos hempty, if_pos hempty]
    exact Raises.under_pure ⟨_, rfl, rfl⟩
  rw [if_neg hempty, if_neg hempty]
  by_cases hlist : chosen = .listObjects
  · rw [if_pos hlist, if_pos hlist]
    intro answer hanswer
    obtain rfl : answer = .ok (w.listed chain.subject action.relation "document") := hanswer
    refine (under_entries fun t ht => hvalid t (List.mem_filter.mp ht).1).bind_ok fun ds hds => ?_
    exact Raises.under_pure ⟨_, rfl, by rw [hds, FilterAnswers.listedOnly]⟩
  · rw [if_neg hlist, if_neg hlist]
    refine (under_entries hvalid).bind_ok fun ds hds => ?_
    exact Raises.under_pure ⟨_, rfl, by rw [hds, FilterAnswers.batched]⟩

theorem reference_isRef {T : Type} {extract : T → Except Exn (Option String)} {item : T}
    {ref : String} (h : reference extract item = some ref) : isRef ref "document" = true := by
  rw [reference] at h
  split at h
  · split at h
    · next hvalid =>
      obtain rfl := Option.some.inj h
      obtain ⟨hraw, rfl⟩ := validateRef_eq_ok.mp hvalid
      exact hraw
    · nomatch h
  · nomatch h

/-- What is kept: the items whose reference is allowed, in order. -/
theorem keptAndDropped_kept {T : Type} {allowed : Dict String Outcome}
    {l : List (T × Option String)} :
    (keptAndDropped allowed l).1 = (l.filter fun x => keeps allowed x.2).map Prod.fst := by
  induction l with
  | nil => rfl
  | cons x l ih =>
    rw [List.filter_cons]
    cases hkeep : keeps allowed x.2 with
    | true => simp [keptAndDropped, hkeep, ih]
    | false => simp [keptAndDropped, hkeep, ih]

variable {T : Type}

/-- The references of the items, without those that are not well formed. -/
def refsOf (extract : T → Except Exn (Option String)) (items : List T) : List String :=
  (items.map (reference extract)).filterMap id

theorem refsOf_isRef {extract : T → Except Exn (Option String)} {items : List T} :
    ∀ ref ∈ refsOf extract items, isRef ref "document" = true := by
  intro ref href
  obtain ⟨o, ho, rfl⟩ := List.mem_filterMap.mp href
  obtain ⟨item, -, hitem⟩ := List.mem_map.mp ho
  exact reference_isRef hitem

theorem candidates_isRef {extract : T → Except Exn (Option String)} {items : List T}
    {hasPermits : Bool} : ∀ c ∈ w.candidates hasPermits (refsOf extract items),
    isRef c "document" = true := by
  intro c hc
  have hmem : c ∈ (refsOf extract items).filter (· ∉ w.refused hasPermits
      (refsOf extract items)) := FrozenSet.mem_ofList.mp hc
  exact refsOf_isRef c (List.mem_filter.mp hmem).1

/-- **A run of the filter** keeps and drops by the outcomes of the chosen strategy. -/
theorem under_filterItems {items : List T} {extract : T → Except Exn (Option String)}
    {relation : String} {strategy : Strategy} {perItemAudit hasPermits : Bool}
    (hitems : items ≠ []) :
    Raises.Under w.Gives (fun x => ∃ result chosen, x = .ok result ∧
        chosen = strategy.choose (w.candidates hasPermits (refsOf extract items)).length ∧
        result.decisionsByRef = w.allowed D chain ⟨.read, relation⟩ hasPermits
          (refsOf extract items) chosen ∧
        (result.kept, result.dropped) = keptAndDropped result.decisionsByRef
          (items.zip (items.map (reference extract))))
      (filterItems D chain items extract relation strategy perItemAudit hasPermits) := by
  rw [filterItems, if_neg hitems]
  refine (under_tokenRefused hasPermits (refsOf extract items)).bind_ok ?_
  rintro refused rfl
  refine (under_decideCandidates candidates_isRef).bind_ok ?_
  rintro decided rfl at_ - eventId - answer hanswer
  obtain rfl : answer = .ok () := hanswer
  exact ⟨_, _, rfl, rfl, rfl, rfl⟩

end Under

/-! ### The two strategies -/

section Strategies

variable {w : FilterAnswers} {D : Decider} {chain : PrincipalChain} {action : Action}
  {cands : List String}

/-- ListObjects returns every document that a check would relate. -/
def FilterAnswers.ListsAll (w : FilterAnswers) (subject relation : String) : Prop :=
  ∀ o, isRef o "document" = true → w.core.engine subject relation o = true →
    o ∈ w.listed subject relation "document"

theorem get_batched {k : String} : (w.batched D chain action cands).get k =
    if k ∈ cands then some (w.judge D chain action k) else none := by
  rw [FilterAnswers.batched, Dict.get_setAll_map, Dict.get_empty]

theorem get_listedOnly {k : String} : (w.listedOnly D chain action cands).get k =
    if k ∈ cands then
      some (if k ∈ w.listed chain.subject action.relation "document" then
        w.judge D chain action k else .deny)
    else none := by
  rw [FilterAnswers.listedOnly, Dict.get_setAll_map, Dict.get_fromKeys]
  by_cases hk : k ∈ cands
  · by_cases hlisted : k ∈ w.listed chain.subject action.relation "document"
    · have hboth : k ∈ cands.filter (· ∈ w.listed chain.subject action.relation "document") :=
        List.mem_filter.mpr ⟨hk, decide_eq_true hlisted⟩
      rw [if_pos hboth, if_pos hk, if_pos hlisted]
    · have hnot : k ∉ cands.filter (· ∈ w.listed chain.subject action.relation "document") :=
        fun hmem => hlisted (of_decide_eq_true (List.mem_filter.mp hmem).2)
      rw [if_neg hnot, if_pos hk, if_pos hk, if_neg hlisted]
  · have hnot : k ∉ cands.filter (· ∈ w.listed chain.subject action.relation "document") :=
      fun hmem => hk (List.mem_filter.mp hmem).1
    rw [if_neg hnot, if_neg hk, if_neg hk]

/-- What the engine does not relate is denied. -/
theorem judge_of_not_related {ref : String}
    (h : w.core.engine chain.subject action.relation ref = false) :
    w.judge D chain action ref = .deny := by
  rw [FilterAnswers.judge, FixedAnswers.outcome, h]
  cases Decider.scopeCovers chain action.kind ref <;> rfl

/-- **What ListObjects allows, the batch allows.** -/
theorem allow_of_listedOnly {k : String}
    (h : (w.listedOnly D chain action cands).get k = some .allow) :
    (w.batched D chain action cands).get k = some .allow := by
  rw [get_listedOnly] at h
  rw [get_batched]
  by_cases hk : k ∈ cands
  · rw [if_pos hk] at h ⊢
    by_cases hlisted : k ∈ w.listed chain.subject action.relation "document"
    · rwa [if_pos hlisted] at h
    · rw [if_neg hlisted] at h
      exact absurd h (by decide)
  · rw [if_neg hk] at h
    nomatch h

/-- **A complete listing decides as the batch does**, key by key and in the same order. -/
theorem listedOnly_eq_batched (hnodup : cands.Nodup)
    (hvalid : ∀ c ∈ cands, isRef c "document" = true)
    (hall : w.ListsAll chain.subject action.relation) :
    w.listedOnly D chain action cands = w.batched D chain action cands := by
  refine Dict.ext_of_keys ?_ fun k => ?_
  · -- the keys: the candidates in their order
    have hsub : ∀ e ∈ (cands.filter (· ∈ w.listed chain.subject action.relation "document")).map
        (fun c => (c, w.judge D chain action c)), e.1 ∈
        (Dict.fromKeys cands Outcome.deny).keys := by
      intro e he
      obtain ⟨c, hc, rfl⟩ := List.mem_map.mp he
      rw [Dict.keys_fromKeys hnodup]
      exact (List.mem_filter.mp hc).1
    have hmap : (cands.map fun c => (c, w.judge D chain action c)).map Prod.fst = cands := by
      rw [List.map_map]
      exact List.map_id cands
    have hbatched : (Dict.empty.setAll (cands.map fun c => (c, w.judge D chain action c))).keys =
        [] ++ (cands.map fun c => (c, w.judge D chain action c)).map Prod.fst :=
      Dict.keys_setAll_of_nodup (by rw [hmap]; exact hnodup)
    rw [FilterAnswers.listedOnly, Dict.keys_setAll_of_subset hsub, Dict.keys_fromKeys hnodup,
      FilterAnswers.batched, hbatched, hmap, List.nil_append]
  · -- the values: what is not listed is not related, so the batch denies it too
    rw [get_listedOnly, get_batched]
    by_cases hk : k ∈ cands
    · rw [if_pos hk, if_pos hk]
      by_cases hlisted : k ∈ w.listed chain.subject action.relation "document"
      · rw [if_pos hlisted]
      · have hnot : w.core.engine chain.subject action.relation k = false :=
          Bool.eq_false_iff.mpr fun h => hlisted (hall k (hvalid k hk) h)
        rw [if_neg hlisted, judge_of_not_related hnot]
    · rw [if_neg hk, if_neg hk]

theorem candidates_nodup {hasPermits : Bool} {refs : List String} :
    (w.candidates hasPermits refs).Nodup :=
  (FrozenSet.ofList (refs.filter (· ∉ w.refused hasPermits refs))).increasing.imp ne_of_lt

variable {T : Type} {items : List T} {extract : T → Except Exn (Option String)}
  {relation : String} {hasPermits : Bool}

/-- Whatever the listing is, ListObjects allows no reference that the batch does not. -/
theorem keeps_of_listed {refs : List String} {ref : Option String}
    (h : keeps (w.allowed D chain action hasPermits refs .listObjects) ref = true) :
    keeps (w.allowed D chain action hasPermits refs .batch) ref = true := by
  cases ref with
  | none => exact h
  | some ref =>
    have hget := of_decide_eq_true h
    refine decide_eq_true ?_
    rw [FilterAnswers.allowed, Dict.get_update, FilterAnswers.decided] at hget ⊢
    by_cases hempty : w.candidates hasPermits refs = []
    · rw [if_pos hempty] at hget ⊢
      exact hget
    rw [if_neg hempty, if_pos rfl] at hget
    rw [if_neg hempty, if_neg (by decide)]
    rcases Option.or_eq_some_iff.mp hget with hlisted | ⟨-, hrefused⟩
    · rw [allow_of_listedOnly hlisted]
      rfl
    · -- what the token refuses is denied
      rw [Dict.get_fromKeys] at hrefused
      split at hrefused
      · exact absurd hrefused (by decide)
      · nomatch hrefused

/-- **The two strategies agree.** Of the same items ListObjects keeps a sublist of what the batch
keeps, and where the listing is complete the two keep, drop and decide the same. -/
theorem strategies_agree {auditB auditL : Bool} {trB trL : Trace FilterSig}
    {rB rL : Except Exn (FilterResult T)}
    (hB : Raises.Run (filterItems D chain items extract relation .batch auditB hasPermits) trB rB)
    (hL : Raises.Run (filterItems D chain items extract relation .listObjects auditL hasPermits)
      trL rL)
    (hgivesB : ∀ e ∈ trB, w.Gives e) (hgivesL : ∀ e ∈ trL, w.Gives e) :
    ∃ b l, rB = .ok b ∧ rL = .ok l ∧ l.kept.Sublist b.kept ∧
      (w.ListsAll chain.subject relation →
        l.kept = b.kept ∧ l.dropped = b.dropped ∧ l.decisionsByRef = b.decisionsByRef) := by
  by_cases hitems : items = []
  · rw [filterItems, if_pos hitems] at hB hL
    obtain ⟨-, rfl⟩ := Raises.run_pure.mp hB
    obtain ⟨-, rfl⟩ := Raises.run_pure.mp hL
    exact ⟨_, _, rfl, rfl, .refl _, fun _ => ⟨rfl, rfl, rfl⟩⟩
  obtain ⟨b, chosenB, rfl, hchosenB, hrefsB, hkeptB⟩ := (under_filterItems hitems).run hB hgivesB
  obtain ⟨l, chosenL, rfl, hchosenL, hrefsL, hkeptL⟩ := (under_filterItems hitems).run hL hgivesL
  obtain rfl : chosenB = .batch := hchosenB
  obtain rfl : chosenL = .listObjects := hchosenL
  refine ⟨b, l, rfl, rfl, ?_, fun hall => ?_⟩
  · -- what the listing keeps is kept in the batch
    have hb : b.kept = _ := congrArg Prod.fst hkeptB
    have hl : l.kept = _ := congrArg Prod.fst hkeptL
    rw [hb, hl, keptAndDropped_kept, keptAndDropped_kept, hrefsB, hrefsL]
    exact (List.monotone_filter_right _ fun x hx => keeps_of_listed hx).map _
  · -- a complete listing decides every reference alike
    have hrefs : l.decisionsByRef = b.decisionsByRef := by
      rw [hrefsB, hrefsL, FilterAnswers.allowed, FilterAnswers.allowed, FilterAnswers.decided,
        FilterAnswers.decided, if_pos rfl, if_neg (by decide : ¬ Strategy.batch = .listObjects),
        listedOnly_eq_batched candidates_nodup candidates_isRef hall]
    have hpair : (l.kept, l.dropped) = (b.kept, b.dropped) := by rw [hkeptB, hkeptL, hrefs]
    exact ⟨congrArg Prod.fst hpair, congrArg Prod.snd hpair, hrefs⟩

/-! ### A search with one secret -/

/-- Collaborators that answer by the functions. -/
def FilterAnswers.answer (w : FilterAnswers) : ∀ o, FilterSig.Res o
  | .core o => w.core.answer o
  | .listObjects subject relation objectType => .ok (w.listed subject relation objectType)
  | .permits operation resources => .ok (w.permits operation resources)

theorem FilterAnswers.gives_answer (w : FilterAnswers) (o : FilterOp) :
    w.Gives ⟨o, w.answer o⟩ := by
  cases o with
  | core o => exact w.core.gives_answer o
  | listObjects => rfl
  | permits => rfl

/-- Everyone views `document:a`, which is listed. -/
def openDocument : FilterAnswers where
  core := ⟨fun _ _ obj => obj == "document:a", fun _ _ _ _ _ => .ok ⟨.allow, "allowed"⟩⟩
  listed _ _ _ := ["document:a"]
  permits _ resources := resources.map fun r => (r, true)

/-- An agent of alice that may read every document. -/
def documentReader : PrincipalChain :=
  ⟨"user:alice", "agent:a", [], .fromIterable [⟨.read, "document:*", Eq.refl true⟩], none,
    by decide⟩

/-- A search over three hits, one of them twice and one of them secret. -/
def search (strategy : Strategy) : Filtered (FilterResult String) :=
  filterItems Decider.guarded documentReader ["document:a", "document:s", "document:a"]
    (fun item => .ok (some item)) "viewer" strategy false true

theorem strategies_agree_search : ∃ b l,
    (search .batch).result openDocument.answer = .ok b ∧
      (search .listObjects).result openDocument.answer = .ok l ∧ l.kept = b.kept ∧
        l.dropped = b.dropped ∧ l.decisionsByRef = b.decisionsByRef := by
  obtain ⟨b, l, hb, hl, -, hagree⟩ := strategies_agree
    (Raises.run_result openDocument.answer (search .batch))
    (Raises.run_result openDocument.answer (search .listObjects))
    (Prog.exec_answered openDocument.gives_answer _)
    (Prog.exec_answered openDocument.gives_answer _)
  have hall : openDocument.ListsAll documentReader.subject "viewer" :=
    fun o _ ho => List.mem_singleton.mpr (eq_of_beq ho)
  exact ⟨b, l, hb, hl, hagree hall⟩

example : ((search .listObjects).result openDocument.answer).toOption.map FilterResult.kept =
    some ["document:a", "document:a"] := by decide +kernel

end Strategies

end HeadOfContext
