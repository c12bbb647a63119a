import HeadOfContext.Memory.Outcomes

/-!
# A memory never outlives the rights on its sources

Over a history of remembers and forgets that succeed, every row of the ledger comes from a turn of
the history, has the tuples that the turn wrote and no others, and has a content of its own
(`Provenance`). Then one of the two stores that hold the sources may be changed (`Tampered`), and a
recall is made with any engine and any candidates. The union of the two stores still has every
source that was recorded, so the subject may view it. What the union does not carry over is the
rule for a memory without a source: `recall_upholds_iff` says for which candidates it is kept.
-/

namespace HeadOfContext

open Effects Service MemoryState

/-! ### What a history leaves -/

section History

variable {svc : MemoryService} {conduct : Conduct} {start : MemoryState}

/-- The turn is a remember or a forget, and it has succeeded. -/
def succeeded {W : World MemorySig} : svc.calls.Turn W → Bool
  | ⟨_, .remember _ _ _ _, _, .ok _, _⟩ => true
  | ⟨_, .forget _ _ _, _, .ok (), _⟩ => true
  | _ => false

/-- A turn of the history has remembered the memory of the row. -/
def RecordedIn {W : World MemorySig} (turns : List (svc.calls.Turn W)) (row : MemoryRecord) :
    Prop :=
  ∃ t ∈ turns, ∃ memory, remembered t = some memory ∧ memory.memoryId = row.memoryId ∧
    memory.writtenFor = row.writtenFor ∧ memory.derivedFrom = row.derivedFrom

/-- What is known of a row of the ledger. -/
structure Sound (svc : MemoryService) (s : MemoryState) (row : MemoryRecord) : Prop where
  backend : row.backend = svc.backend
  sources : ∀ d, d ∈ row.derivedFrom ↔ ⟨d, "derived_from", row.memoryId⟩ ∈ s.tuples
  content : ∃ v, s.content.get (svc.space, row.backendRef) = some v ∧ v.1 = row.memoryId

/-- **The invariant**: every row is stored under its id, comes from a turn, and is sound. -/
structure Provenance {W : World MemorySig} (turns : List (svc.calls.Turn W)) (s : MemoryState) :
    Prop where
  keyed : ∀ key row, s.ledger.get key = some row → row.memoryId = key
  recorded : ∀ row ∈ s.ledger.values, RecordedIn turns row
  sound : ∀ row ∈ s.ledger.values, Sound svc s row

theorem RecordedIn.append {W : World MemorySig} {turns later : List (svc.calls.Turn W)}
    {row : MemoryRecord} (h : RecordedIn turns row) : RecordedIn (turns ++ later) row := by
  obtain ⟨t, ht, hmemory⟩ := h
  exact ⟨t, List.mem_append_left _ ht, hmemory⟩

/-- **A reference names one row.** Both rows would be of the memory whose content it names. -/
theorem Provenance.unique {W : World MemorySig} {turns : List (svc.calls.Turn W)} {s : MemoryState}
    (h : Provenance turns s) {row row' : MemoryRecord} (hrow : row ∈ s.ledger.values)
    (hrow' : row' ∈ s.ledger.values) (href : row.backendRef = row'.backendRef) : row = row' := by
  obtain ⟨v, hv, hid⟩ := (h.sound row hrow).content
  obtain ⟨v', hv', hid'⟩ := (h.sound row' hrow').content
  obtain rfl := Option.some.inj (hv.symm.trans (href ▸ hv'))
  obtain ⟨key, hget⟩ := Dict.mem_values.mp hrow
  obtain ⟨key', hget'⟩ := Dict.mem_values.mp hrow'
  have hkey : key = key' := by
    rw [← h.keyed key row hget, ← h.keyed key' row' hget', ← hid, ← hid']
  subst hkey
  exact Option.some.inj (hget.symm.trans hget')

/-- A remembered memory keeps the invariant, with the turn that has remembered it. -/
theorem Provenance.remember {W : World MemorySig} {turns : List (svc.calls.Turn W)}
    {t : svc.calls.Turn W} {s s' : MemoryState} {chain : PrincipalChain} {content : PyStr}
    {derivedFrom : List String} {memory : Memory} {row : MemoryRecord} (h : Provenance turns s)
    (hmemory : remembered t = some memory)
    (hkept : MemoryKept svc chain content derivedFrom s memory row s') :
    Provenance (turns ++ [t]) s' := by
  obtain ⟨hex, -, hfresh, hid⟩ := hkept.fresh
  -- a row of the new ledger is the new one, or an old one of another memory
  have hrows : ∀ row' ∈ s'.ledger.values, row' = row ∨
      row' ∈ s.ledger.values ∧ row'.memoryId ≠ memory.memoryId := by
    intro row' hrow'
    obtain ⟨key, hget⟩ := Dict.mem_values.mp hrow'
    rw [hkept.ledger, Dict.get_set] at hget
    split at hget
    · exact .inl (Option.some.inj hget).symm
    · next hne => exact .inr ⟨Dict.mem_values.mpr ⟨key, hget⟩, h.keyed key row' hget ▸ hne⟩
  refine ⟨fun key row' hget => ?_, fun row' hrow' => ?_, fun row' hrow' => ?_⟩
  · rw [hkept.ledger, Dict.get_set] at hget
    split at hget
    · next heq => rw [← Option.some.inj hget, heq, hkept.named]
    · exact h.keyed key row' hget
  · rcases hrows row' hrow' with rfl | ⟨hold, -⟩
    · exact ⟨t, List.mem_append_right _ (List.mem_singleton.mpr rfl), memory, hmemory,
        hkept.named.symm, hkept.subject.trans hkept.writtenFor.symm,
        hkept.sources.trans hkept.recorded.symm⟩
    · exact (h.recorded row' hold).append
  · rcases hrows row' hrow' with rfl | ⟨hold, hother⟩
    · refine ⟨hkept.backend, fun d => ?_, ⟨(memory.memoryId, content), ?_, hkept.named.symm⟩⟩
      · rw [hkept.tuples, FrozenSet.mem_union, FrozenSet.mem_ofList, hkept.named, hkept.recorded]
        refine ⟨fun hd => .inl (List.mem_append_left _ (List.mem_map.mpr ⟨d, hd, rfl⟩)), fun ht =>
          ?_⟩
        rcases ht with hnew | hold
        · rcases List.mem_append.mp hnew with hderived | hwriter
          · obtain ⟨d', hd', heq⟩ := List.mem_map.mp hderived
            obtain rfl := congrArg Tuple.user heq
            exact hd'
          · have hrelation : "derived_from" = "writer" :=
              congrArg Tuple.relation (List.mem_singleton.mp hwriter)
            exact absurd hrelation (by decide)
        · exact absurd hid (hfresh.tuples _ hold)
      · rw [hkept.content, Dict.get_set, if_pos rfl]
    · obtain ⟨hbackend, hsources, v, hv, hvid⟩ := h.sound row' hold
      refine ⟨hbackend, fun d => ?_, v, ?_, hvid⟩
      · rw [hsources d, hkept.tuples, FrozenSet.mem_union, FrozenSet.mem_ofList]
        refine ⟨.inr, fun ht => ht.resolve_left fun hnew => ?_⟩
        exact hother (obj_of_mem_provenanceOf hnew)
      · rw [hkept.content, Dict.get_set, if_neg, hv]
        -- the reference of the new content was not in use
        intro href
        rw [href, hkept.unused] at hv
        cases hv

/-- A forget that returns keeps the invariant. -/
theorem Provenance.forget {W : World MemorySig} {turns : List (svc.calls.Turn W)}
    {t : svc.calls.Turn W} {s s' : MemoryState} {chain : PrincipalChain} {memoryId : String}
    (h : Provenance turns s) (hends : ForgetEnds svc chain memoryId s (.ok ()) s') :
    Provenance (turns ++ [t]) s' := by
  cases hends with
  | unchanged _ hraised =>
    obtain ⟨e, he⟩ := hraised
    cases he
  | content _ _ _ _ hraised =>
    obtain ⟨e, he⟩ := hraised
    cases he
  | @row row hrow hcontent hledger hsub hothers _ =>
    have hrows : ∀ row' ∈ s'.ledger.values, row' ∈ s.ledger.values ∧ row'.memoryId ≠ memoryId := by
      intro row' hrow'
      obtain ⟨key, hget⟩ := Dict.mem_values.mp hrow'
      rw [hledger, Dict.get_pop] at hget
      split at hget
      · cases hget
      · next hne => exact ⟨Dict.mem_values.mpr ⟨key, hget⟩, h.keyed key row' hget ▸ hne⟩
    refine ⟨fun key row' hget => ?_, fun row' hrow' =>
      (h.recorded row' (hrows row' hrow').1).append,
      fun row' hrow' => ?_⟩
    · rw [hledger, Dict.get_pop] at hget
      split at hget
      · cases hget
      · exact h.keyed key row' hget
    · obtain ⟨hold, hother⟩ := hrows row' hrow'
      obtain ⟨hbackend, hsources, v, hv, hvid⟩ := h.sound row' hold
      refine ⟨hbackend, fun d => ?_, v, ?_, hvid⟩
      · rw [hsources d]
        exact ⟨fun ht => hothers _ ht fun hprov => hother hprov.1, hsub _⟩
      · rw [hcontent, Dict.get_pop, if_neg, hv]
        -- the content that was deleted is the one of the forgotten memory
        intro href
        have hsame := h.unique hold (Dict.mem_values.mpr ⟨memoryId, hrow⟩) (Prod.ext_iff.mp href).2
        exact hother (hsame ▸ h.keyed memoryId row hrow)

/-- **Every history of successful turns keeps the invariant.** -/
theorem provenance_of_session (h : FailsPartly conduct)
    {turns : List (svc.calls.Turn (memoryWorld conduct .empty))} {s : MemoryState}
    (hsession : Session svc.calls (memoryWorld conduct .empty) turns s)
    (hturns : ∀ t ∈ turns, succeeded t = true) : Provenance turns s := by
  -- the induction is on the turns; a turn that raised is none of them
  induction hsession with
  | start =>
    exact ⟨fun key row hget => (nomatch hget), fun row hrow => absurd hrow List.not_mem_nil,
      fun row hrow => absurd hrow List.not_mem_nil⟩
  | @turn turns t _ hran ih =>
    have hprev := ih fun t ht => hturns t (List.mem_append_left _ ht)
    have hsucceeded := hturns t (List.mem_append_right _ (List.mem_singleton.mpr rfl))
    obtain ⟨s, call, tr, r, s'⟩ := t
    cases call with
    | remember chain content derivedFrom hasPermits =>
      cases r with
      | error e => exact nomatch hsucceeded
      | ok memory =>
        obtain ⟨row, hkept⟩ := remember_ends_kept.run hran.run hran.steps memory rfl
        exact hprev.remember rfl hkept
    | «recall» => exact nomatch hsucceeded
    | forget chain memoryId hasPermits =>
      cases r with
      | error e => exact nomatch hsucceeded
      | ok u => exact hprev.forget ((forget_ends h).run hran.run hran.steps)

end History

/-! ### Tampering with one of the stores -/

/-- The rows with their lists of sources removed. -/
def withoutSources (row : MemoryRecord) : MemoryRecord := { row with derivedFrom := [] }

/-- Rows that differ in their sources alone. -/
structure SameBut (row row' : MemoryRecord) : Prop where
  memoryId : row.memoryId = row'.memoryId
  writtenFor : row.writtenFor = row'.writtenFor
  backend : row.backend = row'.backend
  backendRef : row.backendRef = row'.backendRef

theorem sameBut_of_withoutSources {row row' : MemoryRecord}
    (h : withoutSources row = withoutSources row') : SameBut row row' := by
  obtain ⟨hid, hfor, -, -, -, hbackend, href, -⟩ := MemoryRecord.mk.inj h
  exact ⟨hid, hfor, hbackend, href⟩

/-- The lists of sources in the rows were changed, and nothing else. -/
structure TamperedRows (s s' : MemoryState) : Prop where
  tuples : s'.tuples = s.tuples
  rows : ∀ key, (s'.ledger.get key).map withoutSources = (s.ledger.get key).map withoutSources

/-- The tuples that hold the sources were changed, and no others. -/
structure TamperedTuples (s s' : MemoryState) : Prop where
  ledger : s'.ledger = s.ledger
  tuples : ∀ t, t.relation ≠ "derived_from" → (t ∈ s'.tuples ↔ t ∈ s.tuples)

/-- One of the two stores that hold the sources may have been tampered with. -/
def Tampered (s s' : MemoryState) : Prop := TamperedRows s s' ∨ TamperedTuples s s'

/-- Neither was. -/
structure Untampered (s s' : MemoryState) : Prop where
  tuples : s'.tuples = s.tuples
  ledger : s'.ledger = s.ledger

/-- The engine of the decider answers by the relation. -/
structure AnswersBy (conduct : Conduct) (holds : String → String → String → Bool) : Prop where
  check : ∀ subject relation obj related,
    conduct.core (.check subject relation obj) (.ok (.ok related)) →
      related = holds subject relation obj
  batch : ∀ subject items related, conduct.core (.batchCheck subject items) (.ok (.ok related)) →
    related = items.map fun item => holds subject item.1 item.2

/-- The row of the ledger is one that a reference of the candidate names. -/
structure RowOf (svc : MemoryService) (s : MemoryState) (candidate : Candidate)
    (row : MemoryRecord) : Prop where
  stored : row ∈ s.ledger.values
  backend : row.backend = svc.backend
  named : row.backendRef ∈ candidate.backendRefs

/-- **The law of a memory that is recalled**, for the rows that its candidate names in the ledger
before it was tampered with. -/
structure Upheld (svc : MemoryService) (conduct : Conduct)
    (holds : String → String → String → Bool) (chain : PrincipalChain) (hasPermits : Bool)
    {W : World MemorySig} (turns : List (svc.calls.Turn W)) (s before : MemoryState)
    (candidate : Candidate) (memory : Memory) (after : MemoryState) : Prop where
  /-- There is a row for every reference. -/
  known : ∀ ref ∈ candidate.backendRefs, ∃ row, RowOf svc s candidate row ∧ row.backendRef = ref
  scope : ∀ row, RowOf svc s candidate row → Covered chain .read row.memoryId
  /-- The token's checks accept every memory and every source. -/
  permitted : hasPermits = true → ∃ resources answers,
    conduct.permits .read resources (.ok answers) ∧ (∀ x ∈ resources, answers.get x = some true) ∧
      (∀ row, RowOf svc s candidate row → row.memoryId ∈ resources) ∧
      ∀ source ∈ memory.derivedFrom, source ∈ resources
  /-- The subject may view every source that was recorded. -/
  sources : ∀ row, RowOf svc s candidate row → RecordedIn turns row ∧
    ∀ source ∈ row.derivedFrom, source ∈ memory.derivedFrom ∧
      holds chain.subject "viewer" source = true
  /-- A memory without a source is for the subject it was written for. -/
  subject : Untampered s before → ∀ row, RowOf svc s candidate row → row.derivedFrom = [] →
    row.writtenFor = chain.subject
  /-- The read was journaled. -/
  journal : ∃ earlier event, before.journal <+: earlier ∧ earlier ++ [event] <+: after.journal ∧
    event.kind = .memoryRead ∧ event.resource = .str (.ofString memory.memoryId) ∧
    event.outcome = .str (.ofString Outcome.allow.str)

/-- **A mixed candidate**: it was built from a memory without a source that was written for another
subject, and from a memory with a source. -/
def Mixed (svc : MemoryService) (s : MemoryState) (chain : PrincipalChain) (candidate : Candidate) :
    Prop :=
  (∃ row, RowOf svc s candidate row ∧ row.derivedFrom = [] ∧ row.writtenFor ≠ chain.subject) ∧
    ∃ row, RowOf svc s candidate row ∧ row.derivedFrom ≠ []

section Recall

variable {svc : MemoryService} {conduct : Conduct} {chain : PrincipalChain} {hasPermits : Bool}
  {W : World MemorySig} {turns : List (svc.calls.Turn W)} {s before after : MemoryState}
  {candidate : Candidate} {rows : List MemoryRecord} {memory : Memory}
  {holds : String → String → String → Bool}

/-- A row that was found is a row as it was recorded, but for its list of sources. -/
theorem row_of_tampered (h : Tampered s before) {row : MemoryRecord}
    (hrow : row ∈ before.ledger.values) : ∃ row₀ ∈ s.ledger.values, SameBut row row₀ ∧
      ∀ d ∈ row₀.derivedFrom, (⟨d, "derived_from", row₀.memoryId⟩ : Tuple) ∈ s.tuples →
        d ∈ row.derivedFrom ∨ ⟨d, "derived_from", row.memoryId⟩ ∈ before.tuples := by
  obtain ⟨key, hget⟩ := Dict.mem_values.mp hrow
  rcases h with hrows | htuples
  · have hkey := hrows.rows key
    rw [hget, Option.map_some, eq_comm] at hkey
    obtain ⟨row₀, hget₀, heq⟩ := Option.map_eq_some_iff.mp hkey
    have hsame := sameBut_of_withoutSources heq.symm
    refine ⟨row₀, Dict.mem_values.mpr ⟨key, hget₀⟩, hsame, fun d _ ht => .inr ?_⟩
    rw [hrows.tuples, hsame.memoryId]
    exact ht
  · rw [htuples.ledger] at hrow
    exact ⟨row, hrow, ⟨rfl, rfl, rfl, rfl⟩, fun d hd _ => .inl hd⟩

/-- **Every row of the candidate was found**, with its sources in one store or the other. -/
theorem found_of_rowOf (hprov : Provenance turns s) (htampered : Tampered s before)
    (h : Admitted svc conduct chain hasPermits before candidate rows memory after)
    {row : MemoryRecord} (hrow : RowOf svc s candidate row) :
    ∃ found ∈ rows, SameBut found row ∧
      ∀ d ∈ row.derivedFrom, d ∈ memory.derivedFrom := by
  obtain ⟨found, hfound, hvalue, -, href⟩ := h.found.exists_left hrow.named
  obtain ⟨row₀, hrow₀, hsame, hsources⟩ := row_of_tampered htampered hvalue
  -- both rows have the reference, so they are one
  have href₀ : row₀.backendRef = row.backendRef := hsame.backendRef.symm.trans href
  obtain rfl := hprov.unique hrow₀ hrow.stored href₀
  refine ⟨found, hfound, hsame, fun d hd => (h.sources d).mpr ⟨found, hfound, ?_⟩⟩
  exact hsources d hd (((hprov.sound row₀ hrow₀).sources d).mp hd)

/-- Every row that was found is a row of the candidate. -/
theorem rowOf_of_found (htampered : Tampered s before)
    (h : Admitted svc conduct chain hasPermits before candidate rows memory after)
    {found : MemoryRecord} (hfound : found ∈ rows) :
    ∃ row, RowOf svc s candidate row ∧ SameBut found row := by
  obtain ⟨ref, href, hvalue, hbackend, hnamed⟩ := h.found.exists_right hfound
  obtain ⟨row, hrow, hsame, -⟩ := row_of_tampered htampered hvalue
  refine ⟨row, ⟨hrow, hsame.backend.symm.trans hbackend, ?_⟩, hsame⟩
  rw [← hsame.backendRef, hnamed]
  exact href

/-- What the engine was asked about and affirmed holds. -/
theorem holds_of_related (hengine : AnswersBy conduct holds) {tr : Trace CoreSig}
    (hanswers : ∀ e ∈ tr, conduct.core e.op (.ok e.res)) {subject relation resource : String}
    (h : Related tr subject relation resource) : holds subject relation resource = true := by
  rcases h with hcheck | ⟨items, related, hbatch, -, p, hitem, hrelated⟩
  · exact (hengine.check _ _ _ _ (hanswers _ hcheck)).symm
  · rw [hengine.batch _ _ _ (hanswers _ hbatch), List.getElem?_map, hitem] at hrelated
    exact Option.some.inj hrelated

/-- **A memory that is handed out upholds the law** exactly when its candidate is not mixed. -/
theorem upheld_iff (hprov : Provenance turns s) (htampered : Tampered s before)
    (hengine : AnswersBy conduct holds)
    (h : Admitted svc conduct chain hasPermits before candidate rows memory after) :
    Upheld svc conduct holds chain hasPermits turns s before candidate memory after ↔
      (Untampered s before → ¬ Mixed svc s chain candidate) := by
  obtain ⟨tr, d, hdecides, hallow, hanswers⟩ := h.decided
  obtain ⟨hcovered, hearned⟩ := hdecides.allow hallow
  constructor
  · rintro hupheld huntampered ⟨⟨row, hrow, hnone, hother⟩, -⟩
    exact hother (hupheld.subject huntampered row hrow hnone)
  intro hunmixed
  refine ⟨fun ref href => ?_, fun row hrow => ?_, fun hpermits => ?_, fun row hrow => ⟨?_, ?_⟩,
    fun huntampered row hrow hnone => ?_, h.journal⟩
  · obtain ⟨found, hfound, -, -, hnamed⟩ := h.found.exists_left href
    obtain ⟨row, hrow, hsame⟩ := rowOf_of_found htampered h hfound
    exact ⟨row, hrow, hsame.backendRef.symm.trans hnamed⟩
  · obtain ⟨found, hfound, hsame, -⟩ := found_of_rowOf hprov htampered h hrow
    exact hsame.memoryId ▸ hcovered found.memoryId (List.mem_map.mpr ⟨found, hfound, rfl⟩)
  · obtain ⟨answers, hpermitted, hall⟩ := h.permitted hpermits
    refine ⟨_, answers, hpermitted, hall, fun row hrow => ?_, fun source hsource =>
      List.mem_append_right _ hsource⟩
    obtain ⟨found, hfound, hsame, -⟩ := found_of_rowOf hprov htampered h hrow
    exact List.mem_append_left _ (List.mem_map.mpr ⟨found, hfound, hsame.memoryId⟩)
  · exact hprov.recorded row hrow.stored
  · intro source hsource
    obtain ⟨found, -, -, hsources⟩ := found_of_rowOf hprov htampered h hrow
    have hmem := hsources source hsource
    exact ⟨hmem, holds_of_related hengine hanswers (hearned source hmem).related⟩
  · by_contra hother
    -- no row has a source, so the rule for a memory without one was asked
    have hsourceless : ∀ row', RowOf svc s candidate row' → row'.derivedFrom = [] := by
      intro row' hrow'
      by_contra hsome
      exact hunmixed huntampered ⟨⟨row, hrow, hnone, hother⟩, row', hrow', hsome⟩
    have hempty : memory.derivedFrom = [] := by
      refine List.eq_nil_iff_forall_not_mem.mpr fun source hsource => ?_
      obtain ⟨found, hfound, hin⟩ := (h.sources source).mp hsource
      obtain ⟨ref, href, hvalue, hbackend, hnamed⟩ := h.found.exists_right hfound
      rw [huntampered.ledger] at hvalue
      have hnil := hsourceless found ⟨hvalue, hbackend, hnamed ▸ href⟩
      have hlisted : source ∈ found.derivedFrom := by
        refine hin.elim id fun ht => ?_
        rw [huntampered.tuples] at ht
        exact ((hprov.sound found hvalue).sources source).mpr ht
      rw [hnil] at hlisted
      exact absurd hlisted List.not_mem_nil
    obtain ⟨found, hfound, hsame, -⟩ := found_of_rowOf hprov htampered h hrow
    exact hother (hsame.writtenFor ▸ h.writtenFor hempty found hfound)

end Recall

/-- **A memory never outlives the rights on its sources, unless its candidate is mixed.** After a
history of remembers and forgets that succeed, and any tampering with one of the stores that hold
the sources, a recall with any engine, any checks and any candidates returns memories that each
were built from a candidate; and such a memory upholds the law exactly when the stores were
tampered with or its candidate is not mixed. -/
theorem recall_upholds_iff {svc : MemoryService} {conduct : Conduct} (h : FailsPartly conduct)
    {turns : List (svc.calls.Turn (memoryWorld conduct .empty))} {s : MemoryState}
    (hsession : Session svc.calls (memoryWorld conduct .empty) turns s)
    (hturns : ∀ t ∈ turns, succeeded t = true) {now : Conduct} (hnow : FailsPartly now)
    {holds : String → String → String → Bool} (hengine : AnswersBy now holds) {start : MemoryState}
    {t : svc.calls.Turn (memoryWorld now start)} (hran : t.Ran) (htampered : Tampered s t.before)
    {chain : PrincipalChain} {query : PyStr} {limit : ℤ} {hasPermits : Bool}
    (hcall : t.call = .recall chain query limit hasPermits) :
    ∀ memory ∈ recalled t, ∃ candidates, now.finds t.before svc.space candidates ∧
      ∃ candidate ∈ candidates, memory.content = candidate.content ∧
        (Upheld svc now holds chain hasPermits turns s t.before candidate memory t.after ↔
          (Untampered s t.before → ¬ Mixed svc s chain candidate)) := by
  have hprov := provenance_of_session h hsession hturns
  obtain ⟨before, call, tr, r, after⟩ := t
  obtain rfl : call = .recall chain query limit hasPermits := hcall
  intro memory hm
  cases r with
  | error e => exact absurd hm List.not_mem_nil
  | ok memories =>
    obtain ⟨candidates, hfound, candidate, hcandidate, rows, hadmitted⟩ :=
      ((recall_ends hnow).run hran.run hran.steps).2 memories rfl memory hm
    exact ⟨candidates, hfound, candidate, hcandidate, hadmitted.content,
      upheld_iff hprov htampered hengine hadmitted⟩

/-! ### A note of alice that bob reads -/

section Witness

/-- An agent of bob that may recall memories. -/
def bobReader : PrincipalChain :=
  ⟨"user:bob", "agent:b", [], .fromIterable [⟨.read, "memory:*", Eq.refl true⟩], none, by decide⟩

/-- A search that returns one fact, built from everything there is. -/
def merged (s : MemoryState) (space : String) : List Candidate :=
  [⟨.ofString "fact", (everything s space).flatMap Candidate.backendRefs⟩]

/-- Collaborators that refuse nothing, with the search. -/
def finding (found : MemoryState → String → List Candidate) : Refusing :=
  ⟨openEngine, fun _ _ => none, found⟩

theorem finding_failsPartly (found : MemoryState → String → List Candidate) :
    FailsPartly (finding found).conduct :=
  fun _ _ _ _ h => nomatch h.1

theorem finding_answersBy (found : MemoryState → String → List Candidate) :
    AnswersBy (finding found).conduct fun _ _ _ => true where
  check _ _ _ _ h := Except.ok.inj (Except.ok.inj h)
  batch _ _ _ h := Except.ok.inj (Except.ok.inj h)

/-- A history of alice, and a recall of bob after it. -/
structure Recollection (found : MemoryState → String → List Candidate) where
  turns : List (notebook.calls.Turn (memoryWorld (finding everything).conduct .empty))
  state : MemoryState
  «recall» : notebook.calls.Turn (memoryWorld (finding found).conduct .empty)

/-- Alice's agent remembers a note without a source, and one from a document; bob's agent
recalls. -/
def recollection (found : MemoryState → String → List Candidate) : Option (Recollection found) := do
  let d := (finding everything).driver .empty
  let (turns, state) ← Driver.turns (V := notebook.calls)
    [(d, .remember aliceKeeper (.ofString "secret") [] false),
      (d, .remember aliceKeeper (.ofString "note") ["document:1"] false)] MemoryState.empty
  let turn ← ((finding found).driver .empty).turn (V := notebook.calls)
    (.recall bobReader (.ofString "") 5 false) state
  return ⟨turns, state, turn⟩

/-- The history and the recall are as the law asks for. -/
structure Recollection.Lawful {found : MemoryState → String → List Candidate}
    (r : Recollection found) : Prop where
  session : Session notebook.calls (memoryWorld (finding everything).conduct .empty) r.turns r.state
  succeeded : ∀ t ∈ r.turns, succeeded t = true
  ran : r.recall.Ran
  before : r.recall.before = r.state
  call : r.recall.call = .recall bobReader (.ofString "") 5 false

theorem lawful_of_recollection {found : MemoryState → String → List Candidate}
    {r : Recollection found} (h : recollection found = some r)
    (hsucceeded : r.turns.all succeeded = true) : r.Lawful := by
  obtain ⟨⟨turns, state⟩, hturns, hrest⟩ := Option.bind_eq_some_iff.mp h
  obtain ⟨turn, hrecall, hr⟩ := Option.bind_eq_some_iff.mp hrest
  obtain rfl := Option.some.inj hr
  obtain ⟨hran, hbefore, hcall⟩ := Driver.sound_turn hrecall
  exact ⟨Driver.sound_turns .start hturns, List.all_eq_true.mp hsucceeded, hran, hbefore, hcall⟩

/-- The recall starts from stores that nobody has tampered with. -/
theorem Recollection.Lawful.untampered {found : MemoryState → String → List Candidate}
    {r : Recollection found} (h : r.Lawful) : Untampered r.state r.recall.before := by
  rw [h.before]
  exact ⟨rfl, rfl⟩

theorem Untampered.tampered {s s' : MemoryState} (h : Untampered s s') : Tampered s s' :=
  .inr ⟨h.ledger, fun t _ => by rw [h.tuples]⟩

/-- **It can fail.** A fact that was built from alice's note without a source and from a note
with one is returned to bob. -/
theorem mixed_candidate_returned : ∃ r : Recollection merged, r.Lawful ∧
    Tampered r.state r.recall.before ∧ ∃ memory ∈ recalled r.recall,
      ∀ candidates, (finding merged).conduct.finds r.recall.before notebook.space candidates →
        ∀ candidate ∈ candidates, ¬ Upheld notebook (finding merged).conduct (fun _ _ _ => true)
          bobReader false r.turns r.state r.recall.before candidate memory r.recall.after := by
  have hplay : (recollection merged).any (fun r => r.turns.all succeeded &&
      decide ((recalled r.recall).length = 1) &&
      (r.state.ledger.get "memory:0").any fun row => decide (row.derivedFrom = [] ∧
        row.writtenFor ≠ "user:bob" ∧ row.backend = "local" ∧
        ∀ candidate ∈ merged r.recall.before "hoc", row.backendRef ∈ candidate.backendRefs)) =
      true := by
    decide +kernel
  obtain ⟨r, hr, hends⟩ := (Option.any_eq_true _ _).mp hplay
  obtain ⟨hends, hrow⟩ := Bool.and_eq_true_iff.mp hends
  obtain ⟨hsucceeded, hone⟩ := Bool.and_eq_true_iff.mp hends
  have hlawful := lawful_of_recollection hr hsucceeded
  obtain ⟨memory, hmemory⟩ := List.length_eq_one_iff.mp (of_decide_eq_true hone)
  obtain ⟨row, hget, hdecided⟩ := (Option.any_eq_true _ _).mp hrow
  obtain ⟨hnone, hother, hbackend, hnamed⟩ := of_decide_eq_true hdecided
  refine ⟨r, hlawful, hlawful.untampered.tampered, memory, hmemory ▸ List.mem_singleton.mpr rfl, ?_⟩
  rintro candidates rfl candidate hcandidate hupheld
  refine hother (hupheld.subject hlawful.untampered row ⟨?_, hbackend, hnamed candidate hcandidate⟩
    hnone)
  exact Dict.mem_values.mpr ⟨"memory:0", hget⟩

/-- Where every candidate has one reference, bob gets the note from the document. -/
theorem recall_upholds_single : ∃ r : Recollection everything, r.Lawful ∧
    ∃ memory ∈ recalled r.recall, ∃ candidate,
      Upheld notebook (finding everything).conduct (fun _ _ _ => true) bobReader false r.turns
        r.state r.recall.before candidate memory r.recall.after := by
  have hplay : (recollection everything).any (fun r => r.turns.all succeeded &&
      decide ((recalled r.recall).length = 1)) = true := by
    decide +kernel
  obtain ⟨r, hr, hends⟩ := (Option.any_eq_true _ _).mp hplay
  obtain ⟨hsucceeded, hone⟩ := Bool.and_eq_true_iff.mp hends
  have hlawful := lawful_of_recollection hr hsucceeded
  obtain ⟨memory, hmemory⟩ := List.length_eq_one_iff.mp (of_decide_eq_true hone)
  have hmem : memory ∈ recalled r.recall := hmemory ▸ List.mem_singleton.mpr rfl
  obtain ⟨candidates, rfl, candidate, hcandidate, -, hiff⟩ := recall_upholds_iff
    (finding_failsPartly everything) hlawful.session hlawful.succeeded
    (finding_failsPartly everything) (finding_answersBy everything) hlawful.ran
    hlawful.untampered.tampered hlawful.call memory hmem
  refine ⟨r, hlawful, memory, hmem, candidate, hiff.mpr fun _ hmixed => ?_⟩
  -- a candidate with one reference names one row
  obtain ⟨⟨row, hrow, hnone, -⟩, row', hrow', hsome⟩ := hmixed
  obtain ⟨entry, -, rfl⟩ := List.mem_map.mp hcandidate
  have hprov := provenance_of_session (finding_failsPartly everything) hlawful.session
    hlawful.succeeded
  have href : row.backendRef = row'.backendRef :=
    (List.mem_singleton.mp hrow.named).trans (List.mem_singleton.mp hrow'.named).symm
  exact hsome (hprov.unique hrow.stored hrow'.stored href ▸ hnone)

end Witness

end HeadOfContext
