import HeadOfContext.Audit.Chain

/-!
# What the hash says about a stored payload

The hash of a row is taken of the event that its payload decodes to, and decoding forgets:
white space, the order of the keys, keys it does not know, all but the last of several
members with one key, the spelling of numbers and dates, and whether a number came as a
number. So the stored text is the canonical JSON of the hashed event exactly when it is
spelled the way `canonical_json` spells it (`payload_canonical_iff`), and an edit into a
text that is not so spelled goes unnoticed (`edited_payload_accepted`). Between texts that
are, every edit is detected (`canonical_edit_detected`).
-/

namespace HeadOfContext

open HashChain CodePoint

variable {rt : DecodeRuntime}

/-- The payload is spelled the way `canonical_json` spells: compact and with sorted keys,
exactly the keys of an event, the depth an integer, the latency a float, and the timestamp
in the form of `isoformat`. -/
structure CanonicallySpelled (rt : DecodeRuntime) (payload : PyStr) : Prop where
  spelled : ∃ ms : List (PyStr × Json),
    Json.loads rt.floatText payload = some (.obj ms) ∧
    payload = ascii (Json.dumps rt.floatText (.obj ms)) ∧
    ms.map Prod.fst = eventKeys ∧
    (∃ depth, Json.item (.obj ms) "delegation_depth" = some (.int depth)) ∧
    (∃ latency, Json.item (.obj ms) "engine_latency_ms" = some (.float latency)) ∧
    ∃ text time, Json.item (.obj ms) "timestamp" = some (.str text) ∧
      rt.fromisoformat text = some time ∧ rt.isoformat time = text

/-- The payload is the canonical JSON of the event that was hashed for it. -/
def IsHashed (rt : DecodeRuntime) (payload : PyStr) : Prop :=
  ∃ event, eventFromPayload rt payload = some event ∧
    payload = ascii (event.canonicalJson rt.toRuntime)

/-! ### The items of an event -/

/-- Members with the same keys and the same items are the same. -/
theorem members_ext {ms ms' : List (PyStr × Json)} (hkeys : ms.map Prod.fst = ms'.map Prod.fst)
    (hnodup : (ms.map Prod.fst).Nodup)
    (hitems : ∀ k ∈ ms.map Prod.fst, Json.get (.obj ms) k = Json.get (.obj ms') k) : ms = ms' := by
  -- the induction is on the members; the first key does not come again
  induction ms generalizing ms' with
  | nil =>
    rw [List.map_nil] at hkeys
    exact (List.map_eq_nil_iff.mp hkeys.symm).symm
  | cons m ms ih =>
    cases ms' with
    | nil => exact absurd hkeys (by simp)
    | cons m' ms' =>
      obtain ⟨k, v⟩ := m
      obtain ⟨k', v'⟩ := m'
      obtain ⟨hk, hrestKeys⟩ := List.cons.inj hkeys
      obtain rfl : k = k' := hk
      obtain ⟨hnotin, hrestNodup⟩ := List.nodup_cons.mp hnodup
      have hv : v = v' := by
        have hfirst := hitems k List.mem_cons_self
        simpa [Json.get] using hfirst
      have hrest : ms = ms' := by
        refine ih hrestKeys hrestNodup fun key hkey => ?_
        have hne : ¬ k = key := fun heq => hnotin (heq ▸ hkey)
        have hitem := hitems key (List.mem_cons_of_mem _ hkey)
        simpa [Json.get, List.find?_cons, hne] using hitem
      rw [hv, hrest]

/-- An object has an item under each of its keys. -/
theorem exists_get {ms : List (PyStr × Json)} {k : PyStr} (h : k ∈ ms.map Prod.fst) :
    ∃ v, Json.get (.obj ms) k = some v := by
  obtain ⟨m, hm, rfl⟩ := List.mem_map.mp h
  have hsome : (ms.find? fun m' => m'.1 = m.1).isSome := by
    rw [List.find?_isSome]
    exact ⟨m, hm, decide_eq_true rfl⟩
  obtain ⟨m', hm'⟩ := Option.isSome_iff_exists.mp hsome
  exact ⟨m'.2, by rw [Json.get, hm', Option.map_some]⟩

theorem getD_item {data : Json} {key : String} {v : Json} (hv : (data.item key).getD .null = v)
    (hsome : ∃ w, data.item key = some w) : data.item key = some v := by
  obtain ⟨w, hw⟩ := hsome
  rw [hw] at hv ⊢
  exact congrArg some hv

/-- The value that a kind was read from is its text. -/
theorem EventKind.eq_of_ofJson {v : Json} {k : EventKind} (h : ofJson v = some k) :
    v = .str (.ofString k.str) := by
  match v, h with
  | .str s, h =>
    have hname : PyStr.ofString k.str = s := by
      simpa using List.find?_some
        (show all.find? (fun k => PyStr.ofString k.str = s) = some k from h)
    rw [hname]

/-! ### When the stored text is the hashed one -/

theorem AuditEvent.toJson_eq (rt : DecodeRuntime) (e : AuditEvent) :
    ∃ ms, e.toJson rt.toRuntime = .obj ms ∧ ms.map Prod.fst = eventKeys :=
  ⟨_, rfl, rfl⟩

/-- The canonical JSON of the event that a payload decodes to is spelled canonically. -/
theorem IsHashed.canonicallySpelled {payload : PyStr} (h : IsHashed rt payload) :
    CanonicallySpelled rt payload := by
  obtain ⟨e, hevent, hpayload⟩ := h
  obtain ⟨data, hdata, hdecodes⟩ := eventFromPayload_eq_some.mp hevent
  -- an ASCII text holds no surrogates, so that printing and reading give the event back
  have hscalar : ∀ c ∈ payload, Json.IsScalar c := by
    intro c hc
    rw [hpayload] at hc
    obtain ⟨char, -, rfl⟩ := List.mem_map.mp hc
    exact Json.isScalar_ofChar char
  have hwf := hdecodes.toJson_wf (pairsJoined_of_isScalar hscalar data hdata)
  have hloads : Json.loads rt.floatText payload = some (e.toJson rt.toRuntime) := by
    rw [hpayload]
    exact Json.loads_dumps hwf
  have hsame : data = e.toJson rt.toRuntime := Option.some.inj (hdata.symm.trans hloads)
  obtain ⟨ms, hms, hkeys⟩ := e.toJson_eq rt
  obtain ⟨-, -, -, -, hdepth, hlatency, -, -, -, -, -, -, htimestamp, -⟩ := e.item_toJson rt
  have htime : rt.fromisoformat (rt.isoformat e.timestamp) = some e.timestamp := by
    obtain ⟨text, -, hread⟩ := hdecodes.fromisoformat
    exact rt.fromisoformat_isoformat text _ hread
  rw [hms] at hloads hdepth hlatency htimestamp
  refine ⟨ms, hloads, ?_, hkeys, ⟨_, hdepth⟩, ⟨_, hlatency⟩, _, _, htimestamp, htime, rfl⟩
  rw [hpayload, AuditEvent.canonicalJson, hms]

/-- A canonically spelled payload is the canonical JSON of the event it decodes to. -/
theorem CanonicallySpelled.eq_canonicalJson {payload : PyStr} {e : AuditEvent}
    (h : CanonicallySpelled rt payload) (hevent : eventFromPayload rt payload = some e) :
    payload = ascii (e.canonicalJson rt.toRuntime) := by
  obtain ⟨ms, hloads, hpayload, hkeys, ⟨depth, hdepth⟩, ⟨latency, hlatency⟩, text, time, htext,
    htime, hprinted⟩ := h.spelled
  obtain ⟨data, hdata, hd⟩ := eventFromPayload_eq_some.mp hevent
  obtain rfl : data = .obj ms := Option.some.inj (hdata.symm.trans hloads)
  obtain ⟨ms', hms', hkeys'⟩ := e.toJson_eq rt
  -- each item of the payload is the one that the event prints
  have hsome : ∀ key : String, PyStr.ofString key ∈ eventKeys →
      ∃ v, Json.item (.obj ms) key = some v := fun key hkey => exists_get (hkeys ▸ hkey)
  have hdepth' : Json.item (.obj ms) "delegation_depth" = some (.int e.delegationDepth) := by
    have hread := hd.delegationDepth
    rw [hdepth, Option.bind_some] at hread
    rw [hdepth, Option.some.inj hread]
  have hlatency' : Json.item (.obj ms) "engine_latency_ms" = some (.float e.engineLatencyMs) := by
    have hread := hd.engineLatencyMs
    rw [hlatency, Option.bind_some] at hread
    rw [hlatency, Option.some.inj hread]
  have htimestamp' : Json.item (.obj ms) "timestamp" =
      some (.str (rt.isoformat e.timestamp)) := by
    have hread := hd.timestamp
    rw [htext, Option.bind_some] at hread
    rw [htext, ← Option.some.inj (htime.symm.trans hread), hprinted]
  have hkind : Json.item (.obj ms) "kind" = some (.str (.ofString e.kind.str)) := by
    obtain ⟨v, hv, hread⟩ := Option.bind_eq_some_iff.mp hd.kind
    rw [hv, EventKind.eq_of_ofJson hread]
  have hfingerprint := getD_item hd.tokenFingerprint (hsome _ (by simp [eventKeys]))
  have hargs := getD_item hd.argsHash (hsome _ (by simp [eventKeys]))
  have hdecision := getD_item hd.decisionId (hsome _ (by simp [eventKeys]))
  obtain ⟨h₁, h₂, h₃, h₄, h₅, h₆, h₇, h₈, h₉, h₁₀, h₁₁, h₁₂, h₁₃, h₁₄⟩ := e.item_toJson rt
  have hitems : ∀ k ∈ eventKeys, Json.get (.obj ms) k = (e.toJson rt.toRuntime).get k := by
    simp only [eventKeys, List.forall_mem_cons]
    exact ⟨hd.action.trans h₁.symm, hd.actor.trans h₂.symm, hargs.trans h₃.symm,
      hdecision.trans h₄.symm, hdepth'.trans h₅.symm, hlatency'.trans h₆.symm,
      hd.eventId.trans h₇.symm, hkind.trans h₈.symm, hd.outcome.trans h₉.symm,
      hd.reason.trans h₁₀.symm, hd.resource.trans h₁₁.symm, hd.subject.trans h₁₂.symm,
      htimestamp'.trans h₁₃.symm, hfingerprint.trans h₁₄.symm,
      fun k hk => absurd hk List.not_mem_nil⟩
  have hnodup : (ms.map Prod.fst).Nodup := by
    rw [hkeys]
    exact eventKeys_sorted.imp ne_of_lt
  have hsame : ms = ms' := by
    refine members_ext (hkeys.trans hkeys'.symm) hnodup fun k hk => ?_
    rw [hitems k (hkeys ▸ hk), hms']
  rw [hpayload, AuditEvent.canonicalJson, hms', hsame]

/-- Every row of an accepted sequence decodes to an event that its hash is of. -/
theorem hash_of_ok {rows : List ChainRow} {anchor : String} {report : ChainReport}
    (h : verifyRows rt rows anchor = some report) (hok : report.ok = true) {row : ChainRow}
    (hrow : row ∈ rows) : ∃ event, eventFromPayload rt row.payload = some event ∧
      row.hash = computeHash rt.toRuntime row.prevHash event := by
  obtain ⟨entries, hall, hvalid, -⟩ := verifyRows_ok h hok
  obtain ⟨n, hn, rfl⟩ := List.mem_iff_getElem.mp hrow
  have hn' : n < entries.length := hall.length_eq ▸ hn
  have hholds : ChainRow.Holds rt rows[n] entries[n] := hall.get hn hn'
  refine ⟨entries[n].body, hholds.event, ?_⟩
  rw [hholds.hash, hholds.prev]
  exact hvalid.hash_eq (List.getElem_mem hn')

/-- **What an accepted row stores.** Its payload is the canonical JSON of the event that was
hashed, if and only if it is spelled the way `canonical_json` spells. -/
theorem payload_canonical_iff {rows : List ChainRow} {anchor : String} {report : ChainReport}
    (h : verifyRows rt rows anchor = some report) (hok : report.ok = true) :
    ∀ row ∈ rows, IsHashed rt row.payload ↔ CanonicallySpelled rt row.payload := by
  intro row hrow
  refine ⟨IsHashed.canonicallySpelled, fun hspelled => ?_⟩
  obtain ⟨event, hevent, -⟩ := hash_of_ok h hok hrow
  exact ⟨event, hevent, hspelled.eq_canonicalJson hevent⟩

/-- **An edit between canonical spellings is detected.** Once the payload of a row has been
replaced by another text, both spelled the way `canonical_json` spells, the rows are not
accepted any more. -/
theorem canonical_edit_detected {before after : List ChainRow} {row : ChainRow} {anchor : String}
    {report report' : ChainReport} {payload : PyStr}
    (hsha : Sha256On rt.sha256 (hashedTexts rt [row, { row with payload }]))
    (h : verifyRows rt (before ++ row :: after) anchor = some report) (hok : report.ok = true)
    (hrow : CanonicallySpelled rt row.payload) (hpayload : CanonicallySpelled rt payload)
    (hne : payload ≠ row.payload)
    (h' : verifyRows rt (before ++ { row with payload } :: after) anchor = some report') :
    report'.ok = false := by
  by_contra hok'
  obtain ⟨event, hevent, hhash⟩ := hash_of_ok h hok (List.mem_append_right _ List.mem_cons_self)
  obtain ⟨event', hevent', hhash'⟩ := hash_of_ok h' (Bool.not_eq_false _ ▸ hok')
    (List.mem_append_right _ List.mem_cons_self)
  have hmem : row.prevHash.toList ++ event.canonicalJson rt.toRuntime ∈
      hashedTexts rt [row, { row with payload }] := ⟨row, by simp, event, hevent, rfl⟩
  have hmem' : row.prevHash.toList ++ event'.canonicalJson rt.toRuntime ∈
      hashedTexts rt [row, { row with payload }] :=
    ⟨{ row with payload }, by simp, event', hevent', rfl⟩
  -- the row keeps its hash and the hash in front of it, so that one text was hashed
  have htext := hsha.injOn hmem hmem' (hhash.symm.trans hhash')
  have hjson : event.canonicalJson rt.toRuntime = event'.canonicalJson rt.toRuntime :=
    List.append_cancel_left htext
  rw [hpayload.eq_canonicalJson hevent', hrow.eq_canonicalJson hevent, hjson] at hne
  exact hne rfl

/-! ### A key twice -/

/-- The law at the one decision of a journal. -/
theorem payload_canonical_iff_allowed :
    IsHashed decisionRuntime allowedRow.payload ↔
      CanonicallySpelled decisionRuntime allowedRow.payload := by
  have h : verifyRows decisionRuntime [allowedRow] GENESIS_HASH = some ⟨true, 1, some 1, some 1,
      GENESIS_HASH, allowedRow.hash, none, ""⟩ := by
    decide +kernel
  exact payload_canonical_iff h rfl allowedRow List.mem_cons_self

/-- The payload of the allowed decision, with an outcome `DENY` put in front. -/
def deniedPayload : PyStr :=
  [CodePoint.ofChar '\x7b'] ++ memberText "outcome" (.ofString "\"DENY\"") "," ++
    (decisionPayload (.ofString "allowed")).tail

/-- The payload of an allowed decision is replaced by one that starts with a denial, and the
rows are still accepted: the last of the two outcomes is the one that counts. -/
theorem edited_payload_accepted :
    verifyRows decisionRuntime [allowedRow] GENESIS_HASH = some ⟨true, 1, some 1, some 1,
      GENESIS_HASH, allowedRow.hash, none, ""⟩ ∧
    deniedPayload ≠ allowedRow.payload ∧
    verifyRows decisionRuntime [{ allowedRow with payload := deniedPayload }] GENESIS_HASH =
      some ⟨true, 1, some 1, some 1, GENESIS_HASH, allowedRow.hash, none, ""⟩ ∧
    ¬ IsHashed decisionRuntime deniedPayload := by
  refine ⟨by decide +kernel, by decide +kernel, by decide +kernel, ?_⟩
  rintro ⟨event, hevent, hpayload⟩
  have hcanonical : (eventFromPayload decisionRuntime deniedPayload).map
      (fun event => ascii (event.canonicalJson decisionRuntime.toRuntime)) =
      some (decisionPayload (.ofString "allowed")) := by
    decide +kernel
  rw [hevent, Option.map_some, ← hpayload] at hcanonical
  exact absurd (Option.some.inj hcanonical) (by decide +kernel)

end HeadOfContext
