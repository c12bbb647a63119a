import HeadOfContext.Core.Events
import HeadOfContext.Framework.HashChain
import HeadOfContext.Framework.JsonPrint

/-!
# Verifying the hash chain

`verify_rows` over any ordered sequence of stored rows: it decodes each payload, hashes the
canonical JSON of the decoded event after the row's `prev_hash`, and compares. Only the
decoded event is hashed, never the stored text.

An accepted sequence is a valid hash chain over its events (`verifyRows_ok`), so its head
commits to them (`rows_determined_by_head`). What is assumed of SHA-256 is assumed of the
texts that were hashed, `Sha256On`. The one thing the hash does not tell apart is a pair of
surrogates and the character they stand for, which have one escape; a payload that holds
such a pair has to hold it unescaped (`surrogates_unnoticed`), which no text in UTF-8 does
(`joined_of_isScalar`).
-/

namespace HeadOfContext

open HashChain

/-- The parts of the standard library that reading a payload adds. -/
structure DecodeRuntime extends Runtime where
  /-- `datetime.fromisoformat`, unless it raises. -/
  fromisoformat : PyStr → Option Datetime
  /-- `int(text)`, unless it raises. -/
  intOfStr : PyStr → Option ℤ
  /-- `int(x)`, unless it raises. -/
  intOfFloat : PyFloat → Option ℤ
  /-- `float(text)`, unless it raises. -/
  floatOfStr : PyStr → Option PyFloat
  /-- `float(n)`, unless it raises. -/
  floatOfInt : ℤ → Option PyFloat
  /-- `str(value)`, for a value that is not a string. -/
  strOf : Json → PyStr
  /-- Dates are printed in printable ASCII, without quotes and backslashes. -/
  isoformat_plain : ∀ d, ∀ c ∈ isoformat d, 0x20 ≤ c.val ∧ c.val ≤ 0x7e
  /-- A date that was read is printed as a text that reads as the same date. -/
  fromisoformat_isoformat : ∀ s d, fromisoformat s = some d → fromisoformat (isoformat d) = some d
  /-- Longer integers cannot be converted from a text or from a float. -/
  intOfStr_digits : ∀ s n, intOfStr s = some n → n.natAbs < 10 ^ Json.maxDigits
  intOfFloat_digits : ∀ x n, intOfFloat x = some n → n.natAbs < 10 ^ Json.maxDigits

/-- A stored row, `(seq, payload, prev_hash, hash[, columns])`. A column is its name and
`str(value)`, which is all that is compared. -/
structure ChainRow where
  seq : ℤ
  payload : PyStr
  prevHash : String
  hash : String
  columns : Option (List (PyStr × PyStr))

/-- `ChainReport`. -/
structure ChainReport where
  ok : Bool
  checked : ℕ
  firstSeq : Option ℤ
  lastSeq : Option ℤ
  anchor : Option String
  head : Option String
  breakAt : Option ℤ
  detail : String
  deriving DecidableEq

/-! ### Decoding a payload -/

/-- Every kind. -/
def EventKind.all : List EventKind :=
  [decision, tokenIssued, tokenDelegated, tokenRevoked, memoryWritten, memoryRead,
    approvalRequested, approvalResolved, approvalConsumed, approvalNotifyFailed, mandateCreated,
    mandateRevoked, mandateExpired, readFiltered, toolsListed, connectorSynced]

/-- `EventKind(value)`, unless it raises. -/
def EventKind.ofJson : Json → Option EventKind
  | .str s => all.find? fun k => PyStr.ofString k.str = s
  | _ => none

namespace DecodeRuntime

variable (rt : DecodeRuntime)

/-- `datetime.fromisoformat(value)`, unless it raises. -/
def datetimeOf : Json → Option Datetime
  | .str s => rt.fromisoformat s
  | _ => none

/-- `int(value)`, unless it raises. -/
def intOf : Json → Option ℤ
  | .int n => some n
  | .bool b => some (if b then 1 else 0)
  | .float x => rt.intOfFloat x
  | .str s => rt.intOfStr s
  | _ => none

/-- `float(value)`, unless it raises. -/
def floatOf : Json → Option PyFloat
  | .float x => some x
  | .int n => rt.floatOfInt n
  | .bool b => rt.floatOfInt (if b then 1 else 0)
  | .str s => rt.floatOfStr s
  | _ => none

/-- `str(value)`. -/
def str : Json → PyStr
  | .str s => s
  | v => rt.strOf v

end DecodeRuntime

variable (rt : DecodeRuntime)

/-- The event of a decoded payload. -/
def eventOfJson (data : Json) : Option AuditEvent := do
  let kind ← (data.item "kind").bind EventKind.ofJson
  let timestamp ← (data.item "timestamp").bind rt.datetimeOf
  let subject ← data.item "subject"
  let actor ← data.item "actor"
  let delegationDepth ← (data.item "delegation_depth").bind rt.intOf
  let action ← data.item "action"
  let resource ← data.item "resource"
  let outcome ← data.item "outcome"
  let reason ← data.item "reason"
  let engineLatencyMs ← (data.item "engine_latency_ms").bind rt.floatOf
  let eventId ← data.item "event_id"
  return {
    kind, timestamp, subject, actor, delegationDepth, action, resource, outcome, reason,
    engineLatencyMs, eventId
    tokenFingerprint := (data.item "token_fingerprint").getD .null
    argsHash := (data.item "args_hash").getD .null
    decisionId := (data.item "decision_id").getD .null }

/-- `event_from_payload`, unless it raises. -/
def eventFromPayload (payload : PyStr) : Option AuditEvent :=
  (Json.loads rt.floatText payload).bind (eventOfJson rt)

/-- `_columns_differ`. -/
def columnsDiffer (columns : List (PyStr × PyStr)) (payload : Json) : Bool :=
  columns.any fun (name, value) => rt.str ((payload.get name).getD .null) != value

/-! ### The loop -/

/-- The variables of the loop. -/
structure Verifying where
  checked : ℕ
  firstSeq : Option ℤ
  lastSeq : Option ℤ
  prev : String

/-- The body of the loop of `verify_rows`: the report it returns, or the state after the row.
`none` where it raises. -/
def verifyRow (anchor : String) (s : Verifying) (row : ChainRow) :
    Option (Except ChainReport Verifying) :=
  let firstSeq := s.firstSeq.getD row.seq
  if s.firstSeq = none ∧ row.prevHash ≠ anchor then
    some (.error ⟨false, 0, row.seq, row.seq, anchor, none, row.seq, "anchor mismatch"⟩)
  else if row.prevHash ≠ s.prev then
    some (.error ⟨false, s.checked, firstSeq, row.seq, anchor, s.prev, row.seq,
      "prev_hash mismatch"⟩)
  else
    (eventFromPayload rt row.payload).bind fun event =>
      if computeHash rt.toRuntime row.prevHash event ≠ row.hash then
        some (.error ⟨false, s.checked, firstSeq, row.seq, anchor, s.prev, row.seq,
          "hash mismatch"⟩)
      else if (row.columns.any fun columns =>
          columnsDiffer rt columns ((Json.loads rt.floatText row.payload).getD .null)) = true then
        some (.error ⟨false, s.checked, firstSeq, row.seq, anchor, s.prev, row.seq,
          "column mismatch"⟩)
      else some (.ok ⟨s.checked + 1, firstSeq, row.seq, row.hash⟩)

/-- The report after the last row. -/
def intact (anchor : String) (s : Verifying) : ChainReport :=
  ⟨true, s.checked, s.firstSeq, s.lastSeq, anchor, if s.checked = 0 then none else s.prev, none, ""⟩

/-- `verify_rows` from a state of its loop, over rows that are read one at a time. -/
def verifyFrom {α : Type} (read : α → Option ChainRow) (anchor : String) :
    Verifying → List α → Option ChainReport
  | s, [] => some (intact anchor s)
  | s, a :: rest =>
    (read a).bind fun row => (verifyRow rt anchor s row).bind fun
      | .error report => some report
      | .ok s => verifyFrom read anchor s rest

/-- The state before the first row. -/
def verifying (anchor : String) : Verifying := ⟨0, none, none, anchor⟩

/-- `verify_rows`, unless it raises. -/
def verifyRows (rows : List ChainRow) (anchor : String) : Option ChainReport :=
  verifyFrom rt some anchor (verifying anchor) rows

/-! ### What decoding finds -/

/-- The event `e` is what the items of the data say. -/
structure Decodes (data : Json) (e : AuditEvent) : Prop where
  kind : (data.item "kind").bind EventKind.ofJson = some e.kind
  timestamp : (data.item "timestamp").bind rt.datetimeOf = some e.timestamp
  subject : data.item "subject" = some e.subject
  actor : data.item "actor" = some e.actor
  delegationDepth : (data.item "delegation_depth").bind rt.intOf = some e.delegationDepth
  action : data.item "action" = some e.action
  resource : data.item "resource" = some e.resource
  outcome : data.item "outcome" = some e.outcome
  reason : data.item "reason" = some e.reason
  engineLatencyMs : (data.item "engine_latency_ms").bind rt.floatOf = some e.engineLatencyMs
  eventId : data.item "event_id" = some e.eventId
  tokenFingerprint : (data.item "token_fingerprint").getD .null = e.tokenFingerprint
  argsHash : (data.item "args_hash").getD .null = e.argsHash
  decisionId : (data.item "decision_id").getD .null = e.decisionId

variable {rt}

theorem eventOfJson_eq_some {data : Json} {e : AuditEvent} :
    eventOfJson rt data = some e ↔ Decodes rt data e := by
  simp only [eventOfJson, Option.bind_eq_bind, Option.bind_eq_some_iff, Option.pure_def,
    Option.some.injEq]
  constructor
  · rintro ⟨kind, hkind, timestamp, htimestamp, subject, hsubject, actor, hactor, depth, hdepth,
      action, haction, resource, hresource, outcome, houtcome, reason, hreason, latency, hlatency,
      eventId, heventId, rfl⟩
    exact ⟨Option.bind_eq_some_iff.mpr hkind, Option.bind_eq_some_iff.mpr htimestamp, hsubject,
      hactor, Option.bind_eq_some_iff.mpr hdepth, haction, hresource, houtcome, hreason,
      Option.bind_eq_some_iff.mpr hlatency, heventId, rfl, rfl, rfl⟩
  · intro h
    refine ⟨_, Option.bind_eq_some_iff.mp h.kind, _, Option.bind_eq_some_iff.mp h.timestamp, _,
      h.subject, _, h.actor, _, Option.bind_eq_some_iff.mp h.delegationDepth, _, h.action, _,
      h.resource, _, h.outcome, _, h.reason, _, Option.bind_eq_some_iff.mp h.engineLatencyMs, _,
      h.eventId, ?_⟩
    rw [h.tokenFingerprint, h.argsHash, h.decisionId]

theorem eventFromPayload_eq_some {payload : PyStr} {e : AuditEvent} :
    eventFromPayload rt payload = some e ↔
      ∃ data, Json.loads rt.floatText payload = some data ∧ Decodes rt data e := by
  rw [eventFromPayload, Option.bind_eq_some_iff]
  simp only [eventOfJson_eq_some]

/-- The text of a kind reads as the kind. -/
theorem EventKind.ofJson_str (k : EventKind) : ofJson (k.str : Json) = some k := by
  cases k <;> rfl

theorem EventKind.str_injective : Function.Injective EventKind.str := by
  intro a b h
  have hread : ofJson (a.str : Json) = some b := by rw [h, ofJson_str]
  rw [ofJson_str] at hread
  exact Option.some.inj hread

/-- A date that was read is determined by its text. -/
theorem DecodeRuntime.isoformat_inj {s s' : PyStr} {d d' : Datetime}
    (h : rt.fromisoformat s = some d) (h' : rt.fromisoformat s' = some d')
    (heq : rt.isoformat d = rt.isoformat d') : d = d' := by
  have hd := rt.fromisoformat_isoformat s d h
  rw [heq, rt.fromisoformat_isoformat s' d' h'] at hd
  exact (Option.some.inj hd).symm

theorem Decodes.fromisoformat {data : Json} {e : AuditEvent} (h : Decodes rt data e) :
    ∃ s, data.item "timestamp" = some (.str s) ∧ rt.fromisoformat s = some e.timestamp := by
  obtain ⟨v, hv, hread⟩ := Option.bind_eq_some_iff.mp h.timestamp
  match v, hread with
  | .str s, hread => exact ⟨s, hv, hread⟩

/-! ### The canonical JSON of a decoded event -/

theorem joined_isoformat (d : Datetime) : Json.Joined (rt.isoformat d) := by
  refine Json.joined_of_isScalar fun c hc => ?_
  obtain ⟨-, hle⟩ := rt.isoformat_plain d c hc
  constructor
  · simp only [CodePoint.isHigh, Bool.and_eq_false_iff, decide_eq_false_iff_not]
    omega
  · simp only [CodePoint.isLow, Bool.and_eq_false_iff, decide_eq_false_iff_not]
    omega

theorem intOf_digits {v : Json} {n : ℤ} (hv : Json.Wf Json.Joined v) (h : rt.intOf v = some n) :
    n.natAbs < 10 ^ Json.maxDigits := by
  have hsmall : ∀ b : Bool, (if b then (1 : ℤ) else 0).natAbs < 10 ^ Json.maxDigits := by
    intro b
    have hone : 1 < 10 ^ Json.maxDigits := Nat.one_lt_pow (by decide) (by decide)
    cases b with
    | true => exact hone
    | false => exact Nat.zero_lt_of_lt hone
  match v, hv, h with
  | .int m, .int hm, h => exact Option.some.inj h ▸ hm
  | .bool b, _, h => exact Option.some.inj h ▸ hsmall b
  | .float x, _, h => exact rt.intOfFloat_digits x n h
  | .str s, _, h => exact rt.intOfStr_digits s n h

/-- The keys of an event, in increasing order. -/
def eventKeys : List PyStr :=
  [.ofString "action", .ofString "actor", .ofString "args_hash", .ofString "decision_id",
    .ofString "delegation_depth", .ofString "engine_latency_ms", .ofString "event_id",
    .ofString "kind", .ofString "outcome", .ofString "reason", .ofString "resource",
    .ofString "subject", .ofString "timestamp", .ofString "token_fingerprint"]

theorem eventKeys_sorted : eventKeys.Pairwise (· < ·) := by
  decide +kernel

/-- The items of the JSON of an event. -/
theorem AuditEvent.item_toJson (rt : DecodeRuntime) (e : AuditEvent) :
    (e.toJson rt.toRuntime).item "action" = some e.action ∧
    (e.toJson rt.toRuntime).item "actor" = some e.actor ∧
    (e.toJson rt.toRuntime).item "args_hash" = some e.argsHash ∧
    (e.toJson rt.toRuntime).item "decision_id" = some e.decisionId ∧
    (e.toJson rt.toRuntime).item "delegation_depth" = some (.int e.delegationDepth) ∧
    (e.toJson rt.toRuntime).item "engine_latency_ms" = some (.float e.engineLatencyMs) ∧
    (e.toJson rt.toRuntime).item "event_id" = some e.eventId ∧
    (e.toJson rt.toRuntime).item "kind" = some (.str (.ofString e.kind.str)) ∧
    (e.toJson rt.toRuntime).item "outcome" = some e.outcome ∧
    (e.toJson rt.toRuntime).item "reason" = some e.reason ∧
    (e.toJson rt.toRuntime).item "resource" = some e.resource ∧
    (e.toJson rt.toRuntime).item "subject" = some e.subject ∧
    (e.toJson rt.toRuntime).item "timestamp" = some (.str (rt.isoformat e.timestamp)) ∧
    (e.toJson rt.toRuntime).item "token_fingerprint" = some e.tokenFingerprint := by
  simp [AuditEvent.toJson, Json.item, Json.get, Json.ofString_injective.eq_iff]

theorem AuditEvent.toJson_wf {e : AuditEvent}
    (hdepth : e.delegationDepth.natAbs < 10 ^ Json.maxDigits)
    (hvalues : ∀ v ∈ [e.action, e.actor, e.argsHash, e.decisionId, e.eventId, e.outcome, e.reason,
      e.resource, e.subject, e.tokenFingerprint], Json.Wf Json.Joined v) :
    Json.Wf Json.Joined (e.toJson rt.toRuntime) := by
  simp only [List.forall_mem_cons] at hvalues
  obtain ⟨h₁, h₂, h₃, h₄, h₅, h₆, h₇, h₈, h₉, h₁₀, -⟩ := hvalues
  refine .obj (List.pairwise_map.mp eventKeys_sorted) ?_ ?_
  · simp only [List.forall_mem_cons]
    exact ⟨Json.joined_ofString _, Json.joined_ofString _, Json.joined_ofString _,
      Json.joined_ofString _, Json.joined_ofString _, Json.joined_ofString _,
      Json.joined_ofString _, Json.joined_ofString _, Json.joined_ofString _,
      Json.joined_ofString _, Json.joined_ofString _, Json.joined_ofString _,
      Json.joined_ofString _, Json.joined_ofString _, fun m hm => absurd hm List.not_mem_nil⟩
  · simp only [List.forall_mem_cons]
    exact ⟨h₁, h₂, h₃, h₄, .int hdepth, .float _, h₅, .str (Json.joined_ofString _), h₆, h₇, h₈, h₉,
      .str (joined_isoformat _), h₁₀, fun m hm => absurd hm List.not_mem_nil⟩

theorem Decodes.toJson_wf {data : Json} {e : AuditEvent} (h : Decodes rt data e)
    (hdata : Json.Wf Json.Joined data) : Json.Wf Json.Joined (e.toJson rt.toRuntime) := by
  have hitem : ∀ {key v}, data.item key = some v → Json.Wf Json.Joined v := fun hv => hdata.get hv
  have hoptional : ∀ {key v}, (data.item key).getD .null = v → Json.Wf Json.Joined v := by
    intro key v hv
    cases hget : data.item key with
    | none =>
      rw [hget] at hv
      exact hv ▸ .null
    | some w =>
      rw [hget] at hv
      exact hv ▸ hitem hget
  obtain ⟨depth, hget, hdepth⟩ := Option.bind_eq_some_iff.mp h.delegationDepth
  refine AuditEvent.toJson_wf (intOf_digits (hitem hget) hdepth) ?_
  simp only [List.forall_mem_cons]
  exact ⟨hitem h.action, hitem h.actor, hoptional h.argsHash, hoptional h.decisionId,
    hitem h.eventId, hitem h.outcome, hitem h.reason, hitem h.resource, hitem h.subject,
    hoptional h.tokenFingerprint, fun v hv => absurd hv List.not_mem_nil⟩

/-- **The canonical JSON of decoded events is injective**, as long as no string holds a pair
of surrogates. -/
theorem Decodes.eq_of_canonicalJson {data data' : Json} {e e' : AuditEvent}
    (h : Decodes rt data e) (h' : Decodes rt data' e') (hdata : Json.Wf Json.Joined data)
    (hdata' : Json.Wf Json.Joined data')
    (heq : e.canonicalJson rt.toRuntime = e'.canonicalJson rt.toRuntime) : e = e' := by
  have hjson := Json.dumps_injective (h.toJson_wf hdata) (h'.toJson_wf hdata') heq
  obtain ⟨s, -, hs⟩ := h.fromisoformat
  obtain ⟨s', -, hs'⟩ := h'.fromisoformat
  simp only [AuditEvent.toJson, Json.obj.injEq, List.cons.injEq, Prod.mk.injEq, true_and,
    Json.int.injEq, Json.float.injEq, Json.str.injEq, and_true] at hjson
  obtain ⟨haction, hactor, hargs, hdecision, hdepth, hlatency, hevent, hkind, houtcome, hreason,
    hresource, hsubject, htimestamp, hfingerprint⟩ := hjson
  have hkind' : e.kind = e'.kind := EventKind.str_injective (Json.ofString_injective hkind)
  have htimestamp' : e.timestamp = e'.timestamp := rt.isoformat_inj hs hs' htimestamp
  cases e
  cases e'
  simp only [AuditEvent.mk.injEq]
  exact ⟨hkind', htimestamp', hsubject, hactor, hdepth, haction, hresource, houtcome, hreason,
    hlatency, hfingerprint, hargs, hdecision, hevent⟩

/-! ### What an accepted sequence is -/

/-- The row holds the entry: its hashes, and a payload that decodes to its event. -/
structure ChainRow.Holds (rt : DecodeRuntime) (row : ChainRow) (entry : Entry String AuditEvent) :
    Prop where
  prev : row.prevHash = entry.prev
  hash : row.hash = entry.hash
  event : eventFromPayload rt row.payload = some entry.body

/-- The columns of the row, if it has any, agree with its payload. -/
def ChainRow.ColumnsAgree (rt : DecodeRuntime) (row : ChainRow) : Prop :=
  (row.columns.any fun columns =>
    columnsDiffer rt columns ((Json.loads rt.floatText row.payload).getD .null)) = false

variable {anchor : String} {s s' : Verifying} {row : ChainRow}

/-- **One row**: what lets the loop go on. -/
theorem verifyRow_ok : verifyRow rt anchor s row = some (.ok s') ↔
    (s.firstSeq = none → row.prevHash = anchor) ∧ row.prevHash = s.prev ∧
      (∃ event, eventFromPayload rt row.payload = some event ∧
        row.hash = computeHash rt.toRuntime row.prevHash event) ∧ row.ColumnsAgree rt ∧
      s' = ⟨s.checked + 1, s.firstSeq.getD row.seq, row.seq, row.hash⟩ := by
  rw [verifyRow, ChainRow.ColumnsAgree]
  -- the checks in the order of the source: the anchor, the link, the hash, the columns
  by_cases hanchor : s.firstSeq = none ∧ row.prevHash ≠ anchor
  · simp only [if_pos hanchor, Option.some.injEq, reduceCtorEq, false_iff]
    exact fun h => hanchor.2 (h.1 hanchor.1)
  by_cases hprev : row.prevHash ≠ s.prev
  · simp only [if_neg hanchor, if_pos hprev, Option.some.injEq, reduceCtorEq, false_iff]
    exact fun h => hprev h.2.1
  have hanchor' : s.firstSeq = none → row.prevHash = anchor := fun hfirst => by
    by_contra hne
    exact hanchor ⟨hfirst, hne⟩
  simp only [if_neg hanchor, if_neg hprev, Option.bind_eq_some_iff]
  constructor
  · rintro ⟨event, hevent, h⟩
    by_cases hhash : computeHash rt.toRuntime row.prevHash event ≠ row.hash
    · rw [if_pos hhash] at h
      exact absurd h (by simp)
    rw [if_neg hhash] at h
    split at h
    · exact absurd h (by simp)
    · next hcolumns =>
      have hs' := Except.ok.inj (Option.some.inj h)
      exact ⟨hanchor', not_not.mp hprev, ⟨event, hevent, (not_not.mp hhash).symm⟩,
        Bool.not_eq_true _ ▸ hcolumns, hs'.symm⟩
  · rintro ⟨-, -, ⟨event, hevent, hhash⟩, hcolumns, rfl⟩
    refine ⟨event, hevent, ?_⟩
    rw [if_neg (not_not.mpr hhash.symm), if_neg (by simp [hcolumns])]

/-- A report that the loop returns early names the row, and says that the chain is broken there.
At the first row it counts none. -/
theorem verifyRow_error {report : ChainReport}
    (h : verifyRow rt anchor s row = some (.error report)) :
    report.ok = false ∧ report.breakAt = some row.seq ∧
      (report.checked = s.checked ∨ s.firstSeq = none ∧ report.checked = 0) := by
  rw [verifyRow] at h
  split at h
  · next hanchor =>
    rw [← Except.error.inj (Option.some.inj h)]
    exact ⟨rfl, rfl, .inr ⟨hanchor.1, rfl⟩⟩
  split at h
  · rw [← Except.error.inj (Option.some.inj h)]
    exact ⟨rfl, rfl, .inl rfl⟩
  obtain ⟨event, -, h⟩ := Option.bind_eq_some_iff.mp h
  split at h
  · rw [← Except.error.inj (Option.some.inj h)]
    exact ⟨rfl, rfl, .inl rfl⟩
  split at h
  · rw [← Except.error.inj (Option.some.inj h)]
    exact ⟨rfl, rfl, .inl rfl⟩
  · exact absurd (Option.some.inj h) (by simp)

/-- **A run of the loop that ends well** has read rows that hold a valid chain. -/
theorem verifyFrom_ok {α : Type} {read : α → Option ChainRow} {as : List α} {report : ChainReport}
    (h : verifyFrom rt read anchor s as = some report) (hok : report.ok = true) :
    ∃ entries : List (Entry String AuditEvent),
      List.Forall₂ (fun a entry => ∃ row, read a = some row ∧ row.Holds rt entry) as entries ∧
      Valid (computeHash rt.toRuntime) s.prev entries ∧
      report.checked = s.checked + entries.length ∧
      report.head = if report.checked = 0 then none else some (head s.prev entries) := by
  -- the induction is on the rows that are left
  induction as generalizing s with
  | nil =>
    obtain rfl := Option.some.inj h
    exact ⟨[], .nil, trivial, rfl, rfl⟩
  | cons a as ih =>
    rw [verifyFrom] at h
    obtain ⟨row, hread, h⟩ := Option.bind_eq_some_iff.mp h
    obtain ⟨verdict, hrow, h⟩ := Option.bind_eq_some_iff.mp h
    match verdict, hrow, h with
    | .error r, hrow, h =>
      obtain rfl := Option.some.inj h
      rw [(verifyRow_error hrow).1] at hok
      exact absurd hok (by simp)
    | .ok s', hrow, h =>
      obtain ⟨-, hprev, ⟨event, hevent, hhash⟩, -, hs'⟩ := verifyRow_ok.mp hrow
      obtain ⟨entries, hall, hvalid, hchecked, hhead⟩ := ih h
      have hchecked' : s'.checked = s.checked + 1 := by rw [hs']
      have hlast : s'.prev = row.hash := by rw [hs']
      rw [hlast] at hvalid hhead
      refine ⟨⟨s.prev, event, row.hash⟩ :: entries, .cons ⟨row, hread, hprev, rfl, hevent⟩ hall,
        ⟨rfl, ?_, hvalid⟩, ?_, ?_⟩
      · rw [← hprev]
        exact hhash
      · rw [hchecked, hchecked', List.length_cons]
        omega
      · rw [head_cons]
        exact hhead

/-- An accepted sequence holds a valid chain from the anchor, and its head is the report's. -/
theorem verifyRows_ok {rows : List ChainRow} {report : ChainReport}
    (h : verifyRows rt rows anchor = some report) (hok : report.ok = true) :
    ∃ entries : List (Entry String AuditEvent),
      List.Forall₂ (ChainRow.Holds rt) rows entries ∧
      Valid (computeHash rt.toRuntime) anchor entries ∧
      report.head = if entries = [] then none else some (head anchor entries) := by
  obtain ⟨entries, hall, hvalid, hchecked, hhead⟩ := verifyFrom_ok h hok
  refine ⟨entries, hall.imp fun row entry hrow => ?_, hvalid, ?_⟩
  · obtain ⟨row', hread, hholds⟩ := hrow
    rwa [Option.some.inj hread]
  · have hempty : report.checked = 0 ↔ entries = [] := by
      rw [hchecked, ← List.length_eq_zero_iff]
      exact ⟨fun h => by simpa [verifying] using h, fun h => by simp [verifying, h]⟩
    rw [hhead]
    simp only [hempty]
    rfl

/-! ### The head commits to the events -/

/-- The texts that were hashed for the rows. -/
def hashedTexts (rt : DecodeRuntime) (rows : List ChainRow) : Set (List Char) :=
  {text | ∃ row ∈ rows, ∃ event, eventFromPayload rt row.payload = some event ∧
    text = row.prevHash.toList ++ event.canonicalJson rt.toRuntime}

/-- What is assumed of SHA-256 on the texts that were hashed: no collision among them, no
hash of one is sixty-four zeros, and hashes have sixty-four digits. -/
structure Sha256On (sha256 : List Char → String) (texts : Set (List Char)) : Prop where
  injOn : Set.InjOn sha256 texts
  ne_genesis : ∀ text ∈ texts, sha256 text ≠ GENESIS_HASH
  length : ∀ text ∈ texts, (sha256 text).length = 64

/-- No string of the payload holds a high surrogate directly followed by a low one. -/
def PairsJoined (rt : DecodeRuntime) (payload : PyStr) : Prop :=
  ∀ data, Json.loads rt.floatText payload = some data → Json.Wf Json.Joined data

/-- A payload that UTF-8 can encode has every pair joined. -/
theorem pairsJoined_of_isScalar {payload : PyStr} (h : ∀ c ∈ payload, Json.IsScalar c) :
    PairsJoined rt payload :=
  fun _ hdata => Json.loads_wf Json.literals_joined h hdata

/-- The row of an entry, and the text that was hashed for it. -/
theorem mem_hashedTexts {rows : List ChainRow} {entries : List (Entry String AuditEvent)}
    (h : List.Forall₂ (ChainRow.Holds rt) rows entries) {entry : Entry String AuditEvent}
    (he : entry ∈ entries) :
    (∃ row ∈ rows, eventFromPayload rt row.payload = some entry.body) ∧
      entry.prev.toList ++ entry.body.canonicalJson rt.toRuntime ∈ hashedTexts rt rows := by
  induction h with
  | nil => exact absurd he List.not_mem_nil
  | @cons row entry' rows entries hrow hrows ih =>
    rcases List.mem_cons.mp he with rfl | he
    · refine ⟨⟨row, List.mem_cons_self, hrow.event⟩, row, List.mem_cons_self, _, hrow.event, ?_⟩
      rw [hrow.prev]
    · obtain ⟨⟨row', hmem, hevent⟩, row'', hmem', rest⟩ := ih he
      exact ⟨⟨row', List.mem_cons_of_mem _ hmem, hevent⟩, row'', List.mem_cons_of_mem _ hmem', rest⟩

theorem hashedTexts_mono {rows rows' : List ChainRow} (h : rows ⊆ rows') :
    hashedTexts rt rows ⊆ hashedTexts rt rows' := by
  rintro text ⟨row, hrow, rest⟩
  exact ⟨row, h hrow, rest⟩

theorem genesis_length : GENESIS_HASH.length = 64 := by decide

/-- In a chain of hashed texts every entry points to sixty-four digits. -/
theorem prev_length {texts : Set (List Char)} (hsha : Sha256On rt.sha256 texts)
    {entries : List (Entry String AuditEvent)}
    (hvalid : Valid (computeHash rt.toRuntime) GENESIS_HASH entries)
    (htexts : ∀ e ∈ entries, e.prev.toList ++ e.body.canonicalJson rt.toRuntime ∈ texts)
    {e : Entry String AuditEvent} (he : e ∈ entries) : e.prev.length = 64 := by
  rcases hvalid.prev_eq he with hprev | ⟨f, hf, hprev⟩
  · rw [hprev]
    exact genesis_length
  · rw [hprev, hvalid.hash_eq hf]
    exact hsha.length _ (htexts f hf)

/-- The rows decode to the events of the entries they hold. -/
theorem map_eventFromPayload {rows : List ChainRow} {entries : List (Entry String AuditEvent)}
    (h : List.Forall₂ (ChainRow.Holds rt) rows entries) :
    rows.map (fun row => eventFromPayload rt row.payload) = (entries.map Entry.body).map some := by
  induction h with
  | nil => rfl
  | cons hrow _ ih =>
    rw [List.map_cons, ih, hrow.event]
    rfl

/-- **The journal is tamper-evident from its anchor and head.** Two sequences of rows that
`verify_rows` accepts from `GENESIS` with one head have the same length, and decode to the
same events. -/
theorem rows_determined_by_head {rows rows' : List ChainRow} {report report' : ChainReport}
    (hsha : Sha256On rt.sha256 (hashedTexts rt (rows ++ rows')))
    (hjoined : ∀ row ∈ rows ++ rows', PairsJoined rt row.payload)
    (h : verifyRows rt rows GENESIS_HASH = some report) (hok : report.ok = true)
    (h' : verifyRows rt rows' GENESIS_HASH = some report') (hok' : report'.ok = true)
    (hhead : report.head = report'.head) :
    rows.length = rows'.length ∧
      ∃ events : List AuditEvent,
        rows.map (fun row => eventFromPayload rt row.payload) = events.map some ∧
        rows'.map (fun row => eventFromPayload rt row.payload) = events.map some := by
  obtain ⟨es, hes, hvalid, hreport⟩ := verifyRows_ok h hok
  obtain ⟨fs, hfs, hvalid', hreport'⟩ := verifyRows_ok h' hok'
  have hes_texts : ∀ e ∈ es, e.prev.toList ++ e.body.canonicalJson rt.toRuntime ∈
      hashedTexts rt (rows ++ rows') := fun e he =>
    hashedTexts_mono (List.subset_append_left _ _) (mem_hashedTexts hes he).2
  have hfs_texts : ∀ f ∈ fs, f.prev.toList ++ f.body.canonicalJson rt.toRuntime ∈
      hashedTexts rt (rows ++ rows') := fun f hf =>
    hashedTexts_mono (List.subset_append_right _ _) (mem_hashedTexts hfs hf).2
  -- equal hashes come from equal texts, and the hash in front has a fixed length
  have hbinds : ∀ e ∈ es, ∀ f ∈ fs, e.hash = f.hash → e.prev = f.prev ∧ e.body = f.body := by
    intro e he f hf heq
    have htext := hsha.injOn (hes_texts e he) (hfs_texts f hf)
      ((hvalid.hash_eq he).symm.trans (heq.trans (hvalid'.hash_eq hf)))
    have hlen : e.prev.toList.length = f.prev.toList.length := by
      rw [String.length_toList, String.length_toList, prev_length hsha hvalid hes_texts he,
        prev_length hsha hvalid' hfs_texts hf]
    obtain ⟨hprev, hbody⟩ := List.append_inj htext hlen
    obtain ⟨row, hrow, hevent⟩ := (mem_hashedTexts hes he).1
    obtain ⟨row', hrow', hevent'⟩ := (mem_hashedTexts hfs hf).1
    obtain ⟨data, hdata, hdecodes⟩ := eventFromPayload_eq_some.mp hevent
    obtain ⟨data', hdata', hdecodes'⟩ := eventFromPayload_eq_some.mp hevent'
    refine ⟨String.toList_injective hprev, hdecodes.eq_of_canonicalJson hdecodes' ?_ ?_ hbody⟩
    · exact hjoined row (List.mem_append_left _ hrow) data hdata
    · exact hjoined row' (List.mem_append_right _ hrow') data' hdata'
  have hes_ne : ∀ e ∈ es, e.hash ≠ GENESIS_HASH := fun e he => by
    rw [hvalid.hash_eq he]
    exact hsha.ne_genesis _ (hes_texts e he)
  have hfs_ne : ∀ f ∈ fs, f.hash ≠ GENESIS_HASH := fun f hf => by
    rw [hvalid'.hash_eq hf]
    exact hsha.ne_genesis _ (hfs_texts f hf)
  have hheads : head GENESIS_HASH es = head GENESIS_HASH fs := by
    rw [hreport, hreport'] at hhead
    by_cases hnil : es = []
    · by_cases hnil' : fs = []
      · rw [hnil, hnil']
      · rw [if_pos hnil, if_neg hnil'] at hhead
        exact absurd hhead (by simp)
    · by_cases hnil' : fs = []
      · rw [if_neg hnil, if_pos hnil'] at hhead
        exact absurd hhead (by simp)
      · rw [if_neg hnil, if_neg hnil'] at hhead
        exact Option.some.inj hhead
  obtain rfl := hvalid.eq_of_head hvalid' hbinds hes_ne hfs_ne hheads
  exact ⟨hes.length_eq.trans hfs.length_eq.symm, es.map Entry.body, map_eventFromPayload hes,
    map_eventFromPayload hfs⟩

/-! ### A pair of surrogates -/

/-- A member of a canonical object: its key and the text of its value, and what follows. -/
def memberText (key : String) (value : PyStr) (next : String) : PyStr :=
  [CodePoint.ofChar '"'] ++ .ofString key ++ .ofString "\":" ++ value ++ .ofString next

/-- The canonical payload of a decision, with the given text between the quotes of its
reason. -/
def decisionPayload (reason : PyStr) : PyStr :=
  [CodePoint.ofChar '\x7b'] ++ memberText "action" (.ofString "\"act:can_invoke\"") "," ++
  memberText "actor" (.ofString "\"agent:a\"") "," ++
  memberText "args_hash" (.ofString "null") "," ++
  memberText "decision_id" (.ofString "null") "," ++
  memberText "delegation_depth" (.ofString "0") "," ++
  memberText "engine_latency_ms" (.ofString "0.0") "," ++
  memberText "event_id" (.ofString "\"e1\"") "," ++
  memberText "kind" (.ofString "\"decision\"") "," ++
  memberText "outcome" (.ofString "\"ALLOW\"") "," ++
  memberText "reason" (.ofString "\"" ++ reason ++ .ofString "\"") "," ++
  memberText "resource" (.ofString "\"tool:mail.send\"") "," ++
  memberText "subject" (.ofString "\"user:alice\"") "," ++
  memberText "timestamp"
    (.ofString "\"" ++ .ofString "2026-09-09T12:00:00+00:00" ++ .ofString "\"") "," ++
  memberText "token_fingerprint" (.ofString "null") "\x7d"

/-- The instant and the text of the timestamp. -/
def decisionTime : Datetime := .utc 1788955200000000

def decisionTimeText : PyStr := .ofString "2026-09-09T12:00:00+00:00"

/-- The hashes of three of these payloads after `GENESIS`, by their reasons. -/
def decisionHashes : List (PyStr × String) :=
  [(.ofString "allowed", "0dd1d9e19476f46fe96cda53334c74b22aada0fad9b5db105b82360e63ade7fa"),
    (.ofString "\\ud83d\\ude00",
      "f5b3263f85faa8dc8b8010441b68e95d2c55d28693f893588420fe8ba4821955"),
    (.ofString "\\u2028", "ade106d4b5276bc19e9a2da803f92bcd14e57e5afa269bcf507bbc0976e6fac7")]

/-- SHA-256 on these texts. Any other text gets the hash of the empty one. -/
def decisionSha256 (text : List Char) : String :=
  match decisionHashes.find? fun entry =>
      CodePoint.ascii text = PyStr.ofString GENESIS_HASH ++ decisionPayload entry.1 with
  | some entry => entry.2
  | none => "e3b0c44298fc1c149afbf4c8996fb92427ae41e4649b934ca495991b7852b855"

/-- The standard library, as far as these payloads need it. -/
def decisionRuntime : DecodeRuntime where
  floatText := .ofBits
  isoformat d := if d = decisionTime then decisionTimeText else []
  sha256 := decisionSha256
  fromisoformat text := if text = decisionTimeText then some decisionTime else none
  intOfStr _ := none
  intOfFloat _ := none
  floatOfStr _ := none
  floatOfInt n := if n = 0 then some zeroMs else none
  strOf _ := []
  isoformat_plain d c hc := by
    split at hc
    · have hall : decisionTimeText.all (fun c => decide (0x20 ≤ c.val ∧ c.val ≤ 0x7e)) = true := by
        decide +kernel
      exact of_decide_eq_true (List.all_eq_true.mp hall c hc)
    · exact absurd hc List.not_mem_nil
  fromisoformat_isoformat s d h := by
    split at h
    · obtain rfl := Option.some.inj h
      rw [if_pos rfl, if_pos rfl]
    · exact absurd h (by simp)
  intOfStr_digits _ _ h := absurd h (by simp)
  intOfFloat_digits _ _ h := absurd h (by simp)

/-- The row that holds the payload right after the anchor. -/
def firstRow (seq : ℤ) (payload : PyStr) (hash : String) : ChainRow :=
  ⟨seq, payload, GENESIS_HASH, hash, none⟩

/-- The rows that hold an event after `GENESIS` have one hashed text. -/
theorem sha256On_of_text {rows : List ChainRow} (text : List Char)
    (hrows : ∀ row ∈ rows, row.prevHash.toList ++
      ((eventFromPayload rt row.payload).map (AuditEvent.canonicalJson rt.toRuntime)).getD [] =
        text)
    (hne : rt.sha256 text ≠ GENESIS_HASH) (hlen : (rt.sha256 text).length = 64) :
    Sha256On rt.sha256 (hashedTexts rt rows) := by
  have htext : ∀ t ∈ hashedTexts rt rows, t = text := by
    rintro t ⟨row, hrow, event, hevent, rfl⟩
    have heq := hrows row hrow
    rwa [hevent, Option.map_some, Option.getD_some] at heq
  refine ⟨fun t ht t' ht' _ => (htext t ht).trans (htext t' ht').symm,
    fun t ht => ?_, fun t ht => ?_⟩
  · rwa [htext t ht]
  · rwa [htext t ht]

/-- A decision stored canonically, and the same decision with a space in its payload. -/
def allowedRow : ChainRow :=
  firstRow 1 (decisionPayload (.ofString "allowed"))
    "0dd1d9e19476f46fe96cda53334c74b22aada0fad9b5db105b82360e63ade7fa"

def spacedRow : ChainRow :=
  firstRow 7 (.ofString " " ++ decisionPayload (.ofString "allowed"))
    "0dd1d9e19476f46fe96cda53334c74b22aada0fad9b5db105b82360e63ade7fa"

/-- The law at two journals of one row. -/
theorem rows_determined_by_head_allowed :
    ∃ events : List AuditEvent,
      [allowedRow].map (fun row => eventFromPayload decisionRuntime row.payload) =
        events.map some ∧
      [spacedRow].map (fun row => eventFromPayload decisionRuntime row.payload) =
        events.map some := by
  have hsha : Sha256On decisionRuntime.sha256
      (hashedTexts decisionRuntime ([allowedRow] ++ [spacedRow])) :=
    sha256On_of_text (GENESIS_HASH.toList ++ (decisionPayload (.ofString "allowed")).map
      CodePoint.toChar) (by decide +kernel) (by decide +kernel) (by decide +kernel)
  have hscalar : ([allowedRow] ++ [spacedRow]).all (fun row => row.payload.all fun c =>
      !c.isHigh && !c.isLow) = true := by
    decide +kernel
  have hjoined : ∀ row ∈ [allowedRow] ++ [spacedRow], PairsJoined decisionRuntime row.payload := by
    intro row hrow
    refine pairsJoined_of_isScalar fun c hc => ?_
    have hc' := List.all_eq_true.mp (List.all_eq_true.mp hscalar row hrow) c hc
    simpa [Json.IsScalar] using hc'
  have h : verifyRows decisionRuntime [allowedRow] GENESIS_HASH = some ⟨true, 1, some 1, some 1,
      GENESIS_HASH, allowedRow.hash, none, ""⟩ := by
    decide +kernel
  have h' : verifyRows decisionRuntime [spacedRow] GENESIS_HASH = some ⟨true, 1, some 7, some 7,
      GENESIS_HASH, spacedRow.hash, none, ""⟩ := by
    decide +kernel
  exact (rows_determined_by_head hsha hjoined h rfl h' rfl rfl).2

/-- A decision whose reason is written as two surrogates, and one whose reason is the
character they stand for. -/
def pairRow : ChainRow :=
  firstRow 1 (decisionPayload [0xd83d, 0xde00])
    "f5b3263f85faa8dc8b8010441b68e95d2c55d28693f893588420fe8ba4821955"

def characterRow : ChainRow :=
  firstRow 1 (decisionPayload (.ofString "\\ud83d\\ude00"))
    "f5b3263f85faa8dc8b8010441b68e95d2c55d28693f893588420fe8ba4821955"

/-- Two journals of one row that `verify_rows` accepts with one head, and whose events have
different reasons: the hash is taken of one escape. -/
theorem surrogates_unnoticed :
    Sha256On decisionRuntime.sha256 (hashedTexts decisionRuntime ([pairRow] ++ [characterRow])) ∧
    verifyRows decisionRuntime [pairRow] GENESIS_HASH = some ⟨true, 1, some 1, some 1,
      GENESIS_HASH, pairRow.hash, none, ""⟩ ∧
    verifyRows decisionRuntime [characterRow] GENESIS_HASH = some ⟨true, 1, some 1, some 1,
      GENESIS_HASH, pairRow.hash, none, ""⟩ ∧
    [pairRow].map (fun row => eventFromPayload decisionRuntime row.payload) ≠
      [characterRow].map (fun row => eventFromPayload decisionRuntime row.payload) := by
  refine ⟨sha256On_of_text (GENESIS_HASH.toList ++ (decisionPayload
    (.ofString "\\ud83d\\ude00")).map CodePoint.toChar) (by decide +kernel) (by decide +kernel)
    (by decide +kernel), by decide +kernel, by decide +kernel, fun heq => ?_⟩
  have hreasons := congrArg
    (List.map (Option.map fun event => decisionRuntime.str event.reason)) heq
  exact absurd hreasons (by decide +kernel)

end HeadOfContext
