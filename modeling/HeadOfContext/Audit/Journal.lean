import HeadOfContext.Audit.Chain

/-!
# The journals that the sinks write

Both sinks append under a lock: an event is chained to the last hash of the journal, or to
`GENESIS`. Whatever the order in which the writers get the lock, the result is a list of
appends. `verify_rows` accepts it, and each of its slices from the hash in front of it
(`journals_verify`).

Two things carry this. Reading the payload of an event gives the event back
(`loads_canonicalJson`), but for pairs of surrogates, which come back joined; their escape, and
so the hash, is the same (`canonicalJson_joined`). And the loop goes through any rows that are
linked and of which each is sound (`verifyFrom_accepts`).
-/

namespace HeadOfContext

open HashChain CodePoint

/-! ### Events as they are written -/

/-- The values of the fields of text, and of those that may be `None`. -/
def AuditEvent.texts (e : AuditEvent) : List Json :=
  [e.subject, e.actor, e.action, e.resource, e.outcome, e.reason, e.eventId]

def AuditEvent.optionalTexts (e : AuditEvent) : List Json :=
  [e.tokenFingerprint, e.argsHash, e.decisionId]

/-- An event with the types that the dataclass declares, and an integer that can be printed. -/
structure AuditEvent.Written (e : AuditEvent) : Prop where
  texts : ∀ v ∈ e.texts, ∃ s, v = .str s
  optionalTexts : ∀ v ∈ e.optionalTexts, v = .null ∨ ∃ s, v = .str s
  digits : e.delegationDepth.natAbs < 10 ^ Json.maxDigits

/-- Every text of the event can be encoded in UTF-8, as the table needs it. -/
def AuditEvent.Storable (e : AuditEvent) : Prop :=
  ∀ v ∈ e.texts ++ e.optionalTexts, ∀ s, v = .str s → ∀ c ∈ s, Json.IsScalar c

/-- The event that its payload reads as. -/
def AuditEvent.joined (e : AuditEvent) : AuditEvent :=
  { e with
    subject := e.subject.joinText
    actor := e.actor.joinText
    action := e.action.joinText
    resource := e.resource.joinText
    outcome := e.outcome.joinText
    reason := e.reason.joinText
    tokenFingerprint := e.tokenFingerprint.joinText
    argsHash := e.argsHash.joinText
    decisionId := e.decisionId.joinText
    eventId := e.eventId.joinText }

section Joining

variable {rt : DecodeRuntime} {e : AuditEvent}

/-- **The hash does not see whether a pair is joined.** -/
theorem canonicalJson_joined (rt : Runtime) (e : AuditEvent) :
    e.joined.canonicalJson rt = e.canonicalJson rt := by
  simp only [AuditEvent.canonicalJson, AuditEvent.toJson, AuditEvent.joined, Json.dumps,
    Json.dumpsMembers, Json.dumps_joinText]

theorem AuditEvent.Written.toJson_wf (h : e.Written) :
    Json.Wf Json.Joined (e.joined.toJson rt.toRuntime) := by
  have htext : ∀ v ∈ e.texts, Json.Wf Json.Joined v.joinText :=
    fun v hv => Json.wf_joinText (.inr (h.texts v hv))
  have hoptional : ∀ v ∈ e.optionalTexts, Json.Wf Json.Joined v.joinText :=
    fun v hv => Json.wf_joinText (h.optionalTexts v hv)
  simp only [AuditEvent.texts, AuditEvent.optionalTexts, List.forall_mem_cons] at htext hoptional
  obtain ⟨hsubject, hactor, haction, hresource, houtcome, hreason, hevent, -⟩ := htext
  obtain ⟨hfingerprint, hargs, hdecision, -⟩ := hoptional
  refine AuditEvent.toJson_wf h.digits ?_
  simp only [List.forall_mem_cons]
  exact ⟨haction, hactor, hargs, hdecision, hevent, houtcome, hreason, hresource, hsubject,
    hfingerprint, fun v hv => absurd hv List.not_mem_nil⟩

/-- **Reading a payload back.** -/
theorem loads_canonicalJson (h : e.Written) :
    Json.loads rt.floatText (ascii (e.canonicalJson rt.toRuntime)) =
      some (e.joined.toJson rt.toRuntime) := by
  rw [← canonicalJson_joined]
  exact Json.loads_dumps h.toJson_wf

/-- The event of the JSON of an event whose timestamp reads back. -/
theorem decodes_toJson (e : AuditEvent)
    (htime : rt.fromisoformat (rt.isoformat e.timestamp) = some e.timestamp) :
    Decodes rt (e.toJson rt.toRuntime) e := by
  obtain ⟨haction, hactor, hargs, hdecision, hdepth, hlatency, hevent, hkind, houtcome, hreason,
    hresource, hsubject, htimestamp, hfingerprint⟩ := e.item_toJson rt
  refine ⟨?_, ?_, hsubject, hactor, ?_, haction, hresource, houtcome, hreason, ?_, hevent, ?_, ?_,
    ?_⟩
  · rw [hkind, Option.bind_some]
    exact EventKind.ofJson_str e.kind
  · rw [htimestamp, Option.bind_some]
    exact htime
  · rw [hdepth]
    rfl
  · rw [hlatency]
    rfl
  · rw [hfingerprint, Option.getD_some]
  · rw [hargs, Option.getD_some]
  · rw [hdecision, Option.getD_some]

theorem eventFromPayload_canonicalJson (h : e.Written)
    (htime : rt.fromisoformat (rt.isoformat e.timestamp) = some e.timestamp) :
    eventFromPayload rt (ascii (e.canonicalJson rt.toRuntime)) = some e.joined :=
  eventFromPayload_eq_some.mpr ⟨_, loads_canonicalJson h, decodes_toJson e.joined htime⟩

/-- A text that can be encoded has nothing to join. -/
theorem AuditEvent.Storable.joinText (h : e.Storable) {v : Json}
    (hv : v ∈ e.texts ++ e.optionalTexts) : v.joinText = v := by
  cases v with
  | str s =>
    have hjoined : Json.Joined s := Json.joined_of_isScalar (h _ hv s rfl)
    rw [Json.joinText, Json.joinPairs_of_joined hjoined]
  | _ => rfl

end Joining

/-! ### Rows that the loop goes through -/

section Accepting

variable {rt : DecodeRuntime}

/-- The row carries the hash of an event that its payload decodes to, and its columns agree. -/
structure ChainRow.Sound (rt : DecodeRuntime) (row : ChainRow) : Prop where
  hash : ∃ event, eventFromPayload rt row.payload = some event ∧
    row.hash = computeHash rt.toRuntime row.prevHash event
  columns : row.ColumnsAgree rt

/-- Each row points to the one before it, the first one to the given hash. -/
def Linked : String → List ChainRow → Prop
  | _, [] => True
  | prev, row :: rest => row.prevHash = prev ∧ Linked row.hash rest

/-- The hash that the next row points to. -/
def lastHash (anchor : String) (rows : List ChainRow) : String :=
  (rows.getLast?.map ChainRow.hash).getD anchor

theorem lastHash_cons {anchor : String} {row : ChainRow} {rows : List ChainRow} :
    lastHash anchor (row :: rows) = lastHash row.hash rows := by
  cases rows using List.reverseRecOn with
  | nil => rfl
  | append_singleton rows row' =>
    rw [lastHash, lastHash, ← List.cons_append, List.getLast?_concat, List.getLast?_concat]
    rfl

theorem linked_append {prev : String} {rows rows' : List ChainRow} :
    Linked prev (rows ++ rows') ↔ Linked prev rows ∧ Linked (lastHash prev rows) rows' := by
  induction rows generalizing prev with
  | nil => simp [Linked, lastHash]
  | cons row rows ih => rw [List.cons_append, Linked, Linked, ih, lastHash_cons, and_assoc]

/-- The state of the loop after more rows. -/
def Verifying.past (s : Verifying) (rows : List ChainRow) : Verifying :=
  ⟨s.checked + rows.length, s.firstSeq.or (rows.head?.map ChainRow.seq),
    (rows.getLast?.map ChainRow.seq).or s.lastSeq, lastHash s.prev rows⟩

/-- **The loop over sound and linked rows**, from any of its states: it goes on after them. -/
theorem verifyFrom_accepts {α : Type} {read : α → Option ChainRow} (anchor : String)
    {rows : List ChainRow} (hsound : ∀ row ∈ rows, row.Sound rt) :
    ∀ {as rest : List α} {s : Verifying}, as.map read = rows.map some → Linked s.prev rows →
      (s.firstSeq = none → s.prev = anchor) →
      verifyFrom rt read anchor s (as ++ rest) = verifyFrom rt read anchor (s.past rows) rest := by
  -- the induction is on the rows; what was verified so far is the state of the loop
  induction rows with
  | nil =>
    intro as rest s hread _ _
    rw [List.map_nil] at hread
    rw [List.map_eq_nil_iff.mp hread, List.nil_append, Verifying.past]
    simp [lastHash]
  | cons row rows ih =>
    intro as rest s hread hlinked hanchor
    obtain ⟨hrow, hrows⟩ := List.forall_mem_cons.mp hsound
    obtain ⟨hprev, hrest⟩ := hlinked
    cases as with
    | nil => exact absurd hread (by simp)
    | cons a as =>
      obtain ⟨ha, has⟩ := List.cons.inj hread
      have hstep : verifyRow rt anchor s row =
          some (.ok ⟨s.checked + 1, s.firstSeq.getD row.seq, row.seq, row.hash⟩) :=
        verifyRow_ok.mpr ⟨fun hfirst => hprev.trans (hanchor hfirst), hprev, hrow.hash,
          hrow.columns, rfl⟩
      rw [List.cons_append, verifyFrom, ha, Option.bind_some, hstep, Option.bind_some]
      dsimp only
      rw [ih hrows has hrest fun hfirst => absurd hfirst (Option.some_ne_none _), Verifying.past,
        Verifying.past]
      -- the bookkeeping of one row and of the rows after it add up
      have hfirst : (some (s.firstSeq.getD row.seq)).or (rows.head?.map ChainRow.seq) =
          s.firstSeq.or ((row :: rows).head?.map ChainRow.seq) := by
        cases s.firstSeq <;> rfl
      have hlast : (rows.getLast?.map ChainRow.seq).or (some row.seq) =
          ((row :: rows).getLast?.map ChainRow.seq).or s.lastSeq := by
        cases rows using List.reverseRecOn with
        | nil => rfl
        | append_singleton rows row' =>
          rw [← List.cons_append, List.getLast?_concat, List.getLast?_concat]
          rfl
      have hchecked : s.checked + 1 + rows.length = s.checked + (row :: rows).length := by
        rw [List.length_cons]
        omega
      rw [hfirst, hlast, hchecked, lastHash_cons]

/-- The report on rows that are all as they were written. -/
def intactReport (anchor : String) (rows : List ChainRow) : ChainReport :=
  ⟨true, rows.length, rows.head?.map ChainRow.seq, rows.getLast?.map ChainRow.seq, anchor,
    rows.getLast?.map ChainRow.hash, none, ""⟩

/-- **`verify_rows` accepts sound and linked rows.** -/
theorem verifyFrom_eq_intact {α : Type} {read : α → Option ChainRow} {anchor : String} {as : List α}
    {rows : List ChainRow} (hsound : ∀ row ∈ rows, row.Sound rt)
    (hread : as.map read = rows.map some)
    (hlinked : Linked anchor rows) :
    verifyFrom rt read anchor (verifying anchor) as = some (intactReport anchor rows) := by
  rw [← List.append_nil as, verifyFrom_accepts anchor hsound hread
    (show Linked (verifying anchor).prev rows from hlinked) fun _ => rfl, verifyFrom, intact,
    Verifying.past, intactReport]
  cases rows using List.reverseRecOn with
  | nil => rfl
  | append_singleton rows row =>
    have hchecked : ¬ (verifying anchor).checked + (rows ++ [row]).length = 0 := by
      rw [List.length_append]
      exact Nat.succ_ne_zero _
    rw [if_neg hchecked]
    simp [verifying, lastHash]

end Accepting

/-! ### The sinks -/

variable (rt : DecodeRuntime)

/-- `InMemoryAuditSink.record`: `StoredAuditEvent.chain` with the hash of the last event. -/
def recordInMemory (stored : List (Entry String AuditEvent)) (event : AuditEvent) :
    List (Entry String AuditEvent) :=
  let prev := head GENESIS_HASH stored
  stored ++ [⟨prev, event, computeHash rt.toRuntime prev event⟩]

/-- The loop of `InMemoryAuditSink.verify_chain`. -/
def verifyChain : String → List (Entry String AuditEvent) → Bool
  | _, [] => true
  | prev, stored :: rest =>
    if stored.prev ≠ prev ∨ stored.hash ≠ computeHash rt.toRuntime prev stored.body then false
    else verifyChain stored.hash rest

/-- A stored event as a row without columns. -/
def storedRow (seq : ℤ) (stored : Entry String AuditEvent) : ChainRow :=
  ⟨seq, ascii (stored.body.canonicalJson rt.toRuntime), stored.prev, stored.hash, none⟩

/-- The reporting columns of a row, as `_chain_row` names them. -/
def reportingColumns (event : AuditEvent) : List (PyStr × PyStr) :=
  [(.ofString "kind", .ofString event.kind.str), (.ofString "subject", rt.str event.subject),
    (.ofString "actor", rt.str event.actor), (.ofString "action", rt.str event.action),
    (.ofString "resource", rt.str event.resource), (.ofString "outcome", rt.str event.outcome),
    (.ofString "reason", rt.str event.reason)]

/-- The row that `PostgresAuditSink.record` inserts, as `_chain_row` reads it back. -/
def insertedRow (rows : List ChainRow) (seq : ℤ) (event : AuditEvent) : ChainRow :=
  let prev := lastHash GENESIS_HASH rows
  ⟨seq, ascii (event.canonicalJson rt.toRuntime), prev, computeHash rt.toRuntime prev event,
    some (reportingColumns rt event)⟩

/-- The tables that some order of the locked appends leads to: an append takes the next number
of the sequence, which may skip some. An event that the table does not take, as its texts cannot
be encoded, raises and leaves no row. -/
inductive Recorded : List AuditEvent → List ChainRow → Prop
  | empty : Recorded [] []
  | append {events : List AuditEvent} {rows : List ChainRow} {event : AuditEvent} {seq : ℤ}
      (h : Recorded events rows) (hevent : event.Storable) (hseq : ∀ row ∈ rows, row.seq < seq) :
      Recorded (events ++ [event]) (rows ++ [insertedRow rt rows seq event])

variable {rt}

/-! ### Every journal verifies -/

section Journals

/-- The types of the event, and a timestamp that reads back. -/
structure AuditEvent.ReadsBack (rt : DecodeRuntime) (e : AuditEvent) : Prop extends e.Written where
  timestamp : rt.fromisoformat (rt.isoformat e.timestamp) = some e.timestamp

theorem columnsAgree_reporting {e : AuditEvent} (hstorable : e.Storable) :
    columnsDiffer rt (reportingColumns rt e) (e.joined.toJson rt.toRuntime) = false := by
  have htext : ∀ v ∈ e.texts, v.joinText = v := fun v hv =>
    hstorable.joinText (List.mem_append_left _ hv)
  simp only [AuditEvent.texts, List.forall_mem_cons] at htext
  obtain ⟨hsubject, hactor, haction, hresource, houtcome, hreason, -⟩ := htext
  obtain ⟨haction', hactor', -, -, -, -, -, hkind, houtcome', hreason', hresource', hsubject', -⟩ :=
    e.joined.item_toJson rt
  rw [columnsDiffer, List.any_eq_false]
  -- each column was stored from the field that the payload prints
  have hcolumn : ∀ {name : String} {v : Json} {text : PyStr},
      (e.joined.toJson rt.toRuntime).item name = some v → rt.str v = text →
      ¬ (rt.str (((e.joined.toJson rt.toRuntime).get (.ofString name)).getD .null) != text) =
        true := by
    intro name v text hitem htext
    rw [Json.item] at hitem
    rw [hitem, Option.getD_some, htext]
    simp
  simp only [reportingColumns, List.forall_mem_cons]
  exact ⟨hcolumn hkind rfl, hcolumn hsubject' (congrArg rt.str hsubject),
    hcolumn hactor' (congrArg rt.str hactor), hcolumn haction' (congrArg rt.str haction),
    hcolumn hresource' (congrArg rt.str hresource), hcolumn houtcome' (congrArg rt.str houtcome),
    hcolumn hreason' (congrArg rt.str hreason), fun x hx => absurd hx List.not_mem_nil⟩

/-- A payload that was written hashes to what was stored. -/
theorem exists_hash {e : AuditEvent} (h : e.ReadsBack rt) (prev : String) :
    ∃ event, eventFromPayload rt (ascii (e.canonicalJson rt.toRuntime)) = some event ∧
      computeHash rt.toRuntime prev e = computeHash rt.toRuntime prev event := by
  refine ⟨e.joined, eventFromPayload_canonicalJson h.toWritten h.timestamp, ?_⟩
  rw [computeHash, computeHash, canonicalJson_joined]

theorem sound_storedRow {e : AuditEvent} (h : e.ReadsBack rt) (seq : ℤ) (prev : String) :
    (storedRow rt seq ⟨prev, e, computeHash rt.toRuntime prev e⟩).Sound rt :=
  ⟨exists_hash h prev, rfl⟩

theorem sound_insertedRow {e : AuditEvent} (h : e.ReadsBack rt) (hstorable : e.Storable)
    (rows : List ChainRow) (seq : ℤ) : (insertedRow rt rows seq e).Sound rt := by
  refine ⟨exists_hash h _, ?_⟩
  rw [ChainRow.ColumnsAgree, insertedRow, Option.any_some, loads_canonicalJson h.toWritten,
    Option.getD_some]
  exact columnsAgree_reporting hstorable

/-- **What an append keeps**: the rows are sound, linked, and as many as the events. -/
theorem Recorded.spec {events : List AuditEvent} {rows : List ChainRow}
    (h : Recorded rt events rows) (hevents : ∀ e ∈ events, e.ReadsBack rt) :
    (∀ row ∈ rows, row.Sound rt) ∧ Linked GENESIS_HASH rows ∧ rows.length = events.length ∧
      rows.Pairwise fun a b => a.seq < b.seq := by
  induction h with
  | empty => exact ⟨fun row hrow => absurd hrow List.not_mem_nil, trivial, rfl, .nil⟩
  | @append events rows event seq h hstorable hseq ih =>
    obtain ⟨hbefore, hevent⟩ := List.forall_mem_append.mp hevents
    obtain ⟨hsound, hlinked, hlength, hsorted⟩ := ih hbefore
    refine ⟨List.forall_mem_append.mpr ⟨hsound, ?_⟩, linked_append.mpr ⟨hlinked, rfl, trivial⟩,
      ?_, ?_⟩
    · intro row hrow
      obtain rfl := List.mem_singleton.mp hrow
      exact sound_insertedRow (hevent event (List.mem_singleton.mpr rfl)) hstorable rows seq
    · rw [List.length_append, List.length_append, hlength]
      rfl
    · refine List.pairwise_append.mpr ⟨hsorted, List.pairwise_singleton _ _, fun a ha b hb => ?_⟩
      obtain rfl := List.mem_singleton.mp hb
      exact hseq a ha

/-- What `recordInMemory` builds is a chain. -/
theorem valid_recordInMemory (rt : DecodeRuntime) (events : List AuditEvent) :
    Valid (computeHash rt.toRuntime) GENESIS_HASH (events.foldl (recordInMemory rt) []) ∧
      (events.foldl (recordInMemory rt) []).map Entry.body = events := by
  induction events using List.reverseRecOn with
  | nil => exact ⟨trivial, rfl⟩
  | append_singleton events event ih =>
    obtain ⟨hvalid, hbodies⟩ := ih
    rw [List.foldl_append, List.foldl_cons, List.foldl_nil]
    refine ⟨valid_concat.mpr ⟨hvalid, rfl, rfl⟩, ?_⟩
    rw [recordInMemory, List.map_append, hbodies]
    rfl

/-- `verify_chain` accepts a chain. -/
theorem verifyChain_of_valid {prev : String} {stored : List (Entry String AuditEvent)}
    (h : Valid (computeHash rt.toRuntime) prev stored) : verifyChain rt prev stored = true := by
  induction stored generalizing prev with
  | nil => rfl
  | cons entry rest ih =>
    obtain ⟨hprev, hhash, hrest⟩ := h
    rw [verifyChain, if_neg, ih hrest]
    rintro (hne | hne)
    · exact hne hprev
    · exact hne (hprev ▸ hhash)

/-- The rows of a chain are linked. -/
theorem linked_storedRows {prev : String} {stored : List (Entry String AuditEvent)} {seqs : List ℤ}
    (h : Valid (computeHash rt.toRuntime) prev stored) :
    Linked prev (List.zipWith (storedRow rt) seqs stored) := by
  induction stored generalizing prev seqs with
  | nil =>
    rw [List.zipWith_nil_right]
    trivial
  | cons entry rest ih =>
    cases seqs with
    | nil => trivial
    | cons seq seqs => exact ⟨h.1, ih h.2.2⟩

/-- The rows of a chain of events that read back are sound. -/
theorem sound_storedRows {prev : String} {stored : List (Entry String AuditEvent)} {seqs : List ℤ}
    (h : Valid (computeHash rt.toRuntime) prev stored)
    (hevents : ∀ entry ∈ stored, entry.body.ReadsBack rt) :
    ∀ row ∈ List.zipWith (storedRow rt) seqs stored, row.Sound rt := by
  induction stored generalizing prev seqs with
  | nil =>
    rw [List.zipWith_nil_right]
    exact fun row hrow => absurd hrow List.not_mem_nil
  | cons entry rest ih =>
    cases seqs with
    | nil => exact fun row hrow => absurd hrow List.not_mem_nil
    | cons seq seqs =>
      obtain ⟨hentry, hrest⟩ := List.forall_mem_cons.mp hevents
      obtain ⟨-, hhash, hvalid⟩ := h
      refine List.forall_mem_cons.mpr ⟨?_, ih hvalid hrest⟩
      obtain ⟨entryPrev, body, hash⟩ := entry
      obtain rfl : hash = computeHash rt.toRuntime entryPrev body := hhash
      exact sound_storedRow hentry seq entryPrev

/-- **A slice of sound and linked rows verifies** from the hash of the row before it. -/
theorem slice_verifies {anchor : String} {rows before slice after : List ChainRow}
    (hsound : ∀ row ∈ rows, row.Sound rt) (hlinked : Linked anchor rows)
    (hrows : rows = before ++ slice ++ after) :
    verifyRows rt slice (lastHash anchor before) =
      some (intactReport (lastHash anchor before) slice) := by
  subst hrows
  obtain ⟨hfront, -⟩ := linked_append.mp hlinked
  obtain ⟨-, hslice⟩ := linked_append.mp hfront
  refine verifyFrom_eq_intact (fun row hrow => hsound row ?_) rfl hslice
  exact List.mem_append_left _ (List.mem_append_right _ hrow)

/-- **Every journal that the sinks write verifies.** For every list of events, in the order in
which they were appended: the table verifies with its columns from `GENESIS`, as many rows as
events, up to the last hash; each slice of it verifies from the hash of the row before; and so
does the journal in memory. -/
theorem journals_verify {events : List AuditEvent} (hevents : ∀ e ∈ events, e.ReadsBack rt) :
    (∀ rows, Recorded rt events rows →
      rows.length = events.length ∧
      verifyRows rt rows GENESIS_HASH = some (intactReport GENESIS_HASH rows) ∧
      ∀ before slice after, rows = before ++ slice ++ after →
        verifyRows rt slice (lastHash GENESIS_HASH before) =
          some (intactReport (lastHash GENESIS_HASH before) slice)) ∧
    verifyChain rt GENESIS_HASH (events.foldl (recordInMemory rt) []) = true ∧
    ∀ seqs : List ℤ, seqs.length = events.length → ∀ rows before slice after,
      rows = List.zipWith (storedRow rt) seqs (events.foldl (recordInMemory rt) []) →
      rows = before ++ slice ++ after →
      rows.length = events.length ∧ verifyRows rt slice (lastHash GENESIS_HASH before) =
        some (intactReport (lastHash GENESIS_HASH before) slice) := by
  refine ⟨fun rows hrows => ?_, ?_, ?_⟩
  · obtain ⟨hsound, hlinked, hlength, -⟩ := hrows.spec hevents
    refine ⟨hlength, ?_, fun before slice after heq => slice_verifies hsound hlinked heq⟩
    have hwhole : rows = [] ++ rows ++ [] := by rw [List.append_nil, List.nil_append]
    exact slice_verifies hsound hlinked hwhole
  · exact verifyChain_of_valid (valid_recordInMemory rt events).1
  · -- the rows stored from the in-memory journal, with any sequence numbers
    intro seqs hseqs rows before slice after hrows heq
    obtain ⟨hvalid, hbodies⟩ := valid_recordInMemory rt events
    have hentries : ∀ entry ∈ events.foldl (recordInMemory rt) [], entry.body.ReadsBack rt := by
      intro entry hentry
      refine hevents entry.body ?_
      rw [← hbodies]
      exact List.mem_map_of_mem hentry
    have hlength : (events.foldl (recordInMemory rt) []).length = events.length := by
      rw [← List.length_map Entry.body, hbodies]
    refine ⟨?_, slice_verifies ?_ ?_ heq⟩
    · rw [hrows, List.length_zipWith, hlength, hseqs, Nat.min_self]
    · rw [hrows]
      exact sound_storedRows hvalid hentries
    · rw [hrows]
      exact linked_storedRows hvalid

/-- The event of an allowed decision. -/
def allowedEvent : AuditEvent where
  kind := .decision
  timestamp := decisionTime
  subject := "user:alice"
  actor := "agent:a"
  delegationDepth := 0
  action := "act:can_invoke"
  resource := "tool:mail.send"
  outcome := "ALLOW"
  reason := "allowed"
  engineLatencyMs := zeroMs
  tokenFingerprint := .null
  argsHash := .null
  decisionId := .null
  eventId := "e1"

/-- The decision with another reason. -/
def decisionFor (reason : String) : AuditEvent := { allowedEvent with reason := reason }

theorem readsBack_decisionFor (reason : String) :
    (decisionFor reason).ReadsBack decisionRuntime where
  texts := by
    simp only [AuditEvent.texts, List.forall_mem_cons]
    exact ⟨⟨_, rfl⟩, ⟨_, rfl⟩, ⟨_, rfl⟩, ⟨_, rfl⟩, ⟨_, rfl⟩, ⟨_, rfl⟩, ⟨_, rfl⟩,
      fun v hv => absurd hv List.not_mem_nil⟩
  optionalTexts := by
    simp only [AuditEvent.optionalTexts, List.forall_mem_cons]
    exact ⟨.inl rfl, .inl rfl, .inl rfl, fun v hv => absurd hv List.not_mem_nil⟩
  digits := Nat.pos_of_ne_zero (pow_ne_zero _ (by decide))
  timestamp := by
    show decisionRuntime.fromisoformat (decisionRuntime.isoformat decisionTime) = some decisionTime
    decide +kernel

theorem readsBack_allowedEvent : allowedEvent.ReadsBack decisionRuntime :=
  readsBack_decisionFor "allowed"

theorem storable_decisionFor (reason : String) : (decisionFor reason).Storable := by
  intro v hv s hs c hc
  simp only [AuditEvent.texts, AuditEvent.optionalTexts, List.mem_append, List.mem_cons,
    List.not_mem_nil, or_false] at hv
  have hstring : ∃ text : String, s = .ofString text := by
    rcases hv with (h | h | h | h | h | h | h) | h | h | h
    all_goals
      rw [h] at hs
      first
      | exact ⟨_, (Json.str.inj hs).symm⟩
      | nomatch hs
  obtain ⟨text, rfl⟩ := hstring
  obtain ⟨d, -, rfl⟩ := List.mem_map.mp hc
  exact Json.isScalar_ofChar d

theorem storable_allowedEvent : allowedEvent.Storable := storable_decisionFor "allowed"

/-- The law at a table with one decision. -/
theorem journals_verify_allowed :
    Recorded decisionRuntime [allowedEvent] [insertedRow decisionRuntime [] 1 allowedEvent] ∧
    verifyRows decisionRuntime [insertedRow decisionRuntime [] 1 allowedEvent] GENESIS_HASH =
      some (intactReport GENESIS_HASH [insertedRow decisionRuntime [] 1 allowedEvent]) := by
  have hrecorded : Recorded decisionRuntime ([] ++ [allowedEvent])
      ([] ++ [insertedRow decisionRuntime [] 1 allowedEvent]) :=
    .append .empty storable_allowedEvent fun row hrow => absurd hrow List.not_mem_nil
  have hevents : ∀ e ∈ [allowedEvent], e.ReadsBack decisionRuntime := by
    intro e he
    obtain rfl := List.mem_singleton.mp he
    exact readsBack_allowedEvent
  exact ⟨hrecorded, ((journals_verify hevents).1 _ hrecorded).2.1⟩

end Journals

end HeadOfContext
