import HeadOfContext.Actions.PostgresApprovals
import HeadOfContext.Framework.Binary64
import HeadOfContext.Framework.JsonPrint
import HeadOfContext.Tokens.MandateRuns

/-!
# The mandate store in PostgreSQL

`PostgresMandateStore` keeps one row of eleven columns for each mandate: the scope as a JSON
text, and the longest lifetime of a token as a whole number of seconds. What a query returns is
read back by `fromRow`, column by column; the cells are read as those of the approval store.

A row gives the mandate that was granted exactly where its `max_token_ttl` is a whole number of
seconds (`stored_as_granted_iff`): the column drops the rest, so a lifetime of less than a
second is stored as zero, which `issue` takes for no lifetime at all.
-/

namespace HeadOfContext

open Effects Except Sql

/-! ### The scope column -/

namespace Scope

/-- A capability as a JSON object. -/
def member (c : Capability) : Json :=
  .obj [(.ofString "kind", c.kind.str), (.ofString "resource", c.resource)]

/-- `scope_to_json`. -/
def toJson (ft : Json.FloatText) (s : Scope) : String :=
  String.ofList (Json.dumps ft (.arr (s.sorted.map member)))

/-- `str(value)`, where `repr` is the text of what is no string. -/
def strOf (repr : Json → PyStr) : Json → PyStr
  | .str s => s
  | v => repr v

/-- `Kind(value)`. -/
def kindOf : Json → Except Exn Kind
  | .str s =>
    match (PyStr.text s).bind Kind.ofStr with
    | some kind => .ok kind
    | none => .error (.other "ValueError")
  | _ => .error (.other "ValueError")

/-- `Capability(kind, resource)`: a resource with a surrogate is no valid pattern. -/
def capabilityOf (kind : Kind) (resource : PyStr) : Except Exn Capability :=
  match PyStr.text resource with
  | some resource => (Capability.make kind resource).mapError .hoc
  | none => .error (.hoc (HocClass.invalidResource.error "invalid resource pattern"))

/-- `Capability(Kind(c["kind"]), str(c["resource"]))`. -/
def ofMember (repr : Json → PyStr) (c : Json) : Except Exn Capability :=
  match c with
  | .obj _ =>
    match c.item "kind", c.item "resource" with
    | none, _ => .error (.other "KeyError")
    | some kind, resource => do
      let kind ← kindOf kind
      match resource with
      | none => .error (.other "KeyError")
      | some resource => capabilityOf kind (strOf repr resource)
  | _ => .error (.other "TypeError")

/-- What a loop over the value sees: the items of an array, the keys of an object, the
characters of a string. -/
def iterated : Json → Except Exn (List Json)
  | .arr items => .ok items
  | .obj members => .ok (members.map fun m => .str m.1)
  | .str s => .ok (s.map fun c => .str [c])
  | _ => .error (.other "TypeError")

/-- `scope_from_json`. -/
def fromJson (ft : Json.FloatText) (repr : Json → PyStr) (raw : String) : Except Exn Scope := do
  match Json.loads ft (.ofString raw) with
  | none => .error (.other "JSONDecodeError")
  | some data => do
    let items ← iterated data
    let caps ← items.mapM (ofMember repr)
    return .fromIterable caps

theorem ofMember_member (repr : Json → PyStr) (c : Capability) :
    ofMember repr (member c) = .ok c := by
  have hkind : (member c).item "kind" = some (c.kind.str : Json) := by
    simp [member, Json.item, Json.get]
  have hresource : (member c).item "resource" = some (c.resource : Json) := by
    have hne : PyStr.ofString "kind" ≠ PyStr.ofString "resource" := by decide
    simp [member, Json.item, Json.get, hne]
  have hof : kindOf (c.kind.str : Json) = .ok c.kind := by
    simp [kindOf, PyStr.text_ofString]
  have hmake : capabilityOf c.kind (.ofString c.resource) = .ok c := by
    simp [capabilityOf, PyStr.text_ofString, Capability.make_self, Except.mapError]
  unfold ofMember
  rw [hkind, hresource]
  simp only [member, hof, strOf, hmake, bind, Except.bind]

/-- The JSON of a scope is well-formed: the keys of a capability stand in order. -/
theorem wf_members (caps : List Capability) : Json.Wf Json.Joined (.arr (caps.map member)) := by
  refine .arr fun v hv => ?_
  obtain ⟨c, -, rfl⟩ := List.mem_map.mp hv
  refine .obj ?_ ?_ ?_
  · refine List.pairwise_pair.mpr ?_
    show PyStr.ofString "kind" < PyStr.ofString "resource"
    decide
  · intro m hm
    simp only [List.mem_cons, List.not_mem_nil, or_false] at hm
    rcases hm with rfl | rfl
    · exact Json.joined_ofString _
    · exact Json.joined_ofString _
  · intro m hm
    simp only [List.mem_cons, List.not_mem_nil, or_false] at hm
    rcases hm with rfl | rfl
    · exact .str (Json.joined_ofString _)
    · exact .str (Json.joined_ofString _)

/-- **A scope is read back as it was written.** -/
theorem fromJson_toJson (ft : Json.FloatText) (repr : Json → PyStr) (s : Scope) :
    fromJson ft repr (s.toJson ft) = .ok s := by
  have hloads : Json.loads ft (.ofString (s.toJson ft)) = some (.arr (s.sorted.map member)) := by
    rw [toJson, PyStr.ofString, String.toList_ofList]
    exact Json.loads_dumps (wf_members s.sorted)
  have hmembers : ∀ caps : List Capability,
      (caps.map member).mapM (ofMember repr) = .ok caps := by
    intro caps
    induction caps with
    | nil => rfl
    | cons c caps ih =>
      rw [List.map_cons, List.mapM_cons, ofMember_member, ih]
      rfl
  unfold fromJson
  rw [hloads]
  simp only [iterated, bind, Except.bind, hmembers]
  exact congrArg Except.ok (fromIterable_sorted s)

end Scope

/-! ### The lifetime column -/

namespace Timedelta

/-- What a `timedelta` holds, in microseconds: less than 10^9 days, either way. -/
def InRange (us : ℤ) : Prop := -(999999999 * DAY) ≤ us ∧ us < 1000000000 * DAY

instance (us : ℤ) : Decidable (InRange us) := inferInstanceAs (Decidable (_ ∧ _))

/-- `total_seconds()`: a true division, and so a double. -/
def totalSeconds (us : ℤ) : ℚ := Binary64.round ((us : ℚ) / 1000000)

/-- `timedelta(seconds=n)`. -/
def ofSeconds (n : ℤ) : Except Exn ℤ :=
  if InRange (n * 1000000) then .ok (n * 1000000) else .error (.other "OverflowError")

/-- A lifetime of whole seconds. -/
def Whole (us : ℤ) : Prop := us % 1000000 = 0

instance (us : ℤ) : Decidable (Whole us) := inferInstanceAs (Decidable (_ = _))

/-- **Whole seconds are counted exactly.** -/
theorem totalSeconds_whole {n : ℤ} (h : InRange (n * 1000000)) :
    totalSeconds (n * 1000000) = (n : ℚ) := by
  -- less than 10^9 days are less than 2^53 seconds
  have hsmall : |n| < 2 ^ 53 := by
    obtain ⟨hlow, hhigh⟩ := h
    simp only [DAY] at hlow hhigh
    rw [abs_lt]
    omega
  have hquotient : ((n * 1000000 : ℤ) : ℚ) / 1000000 = n := by
    push_cast
    exact mul_div_cancel_right₀ _ (by norm_num)
  rw [totalSeconds, hquotient, Binary64.round_intCast hsmall]

theorem ofSeconds_eq_ok {n us : ℤ} : ofSeconds n = .ok us ↔ InRange us ∧ us = n * 1000000 := by
  unfold ofSeconds
  split_ifs with h
  · rw [Except.ok.injEq]
    constructor
    · rintro rfl
      exact ⟨h, rfl⟩
    · rintro ⟨-, rfl⟩
      rfl
  · constructor
    · intro herr
      exact absurd herr (by simp)
    · rintro ⟨hrange, rfl⟩
      exact absurd hrange h

/-- **What the column gives back is what was written exactly for whole seconds.** -/
theorem ofSeconds_totalSeconds_iff {us : ℤ} (h : InRange us) :
    ofSeconds (Binary64.trunc (totalSeconds us)) = .ok us ↔ Whole us := by
  rw [ofSeconds_eq_ok]
  constructor
  · rintro ⟨-, hus⟩
    rw [Whole, hus]
    exact Int.mul_emod_left _ _
  · intro hwhole
    obtain ⟨n, rfl⟩ : ∃ n, us = n * 1000000 := ⟨us / 1000000, by rw [Whole] at hwhole; omega⟩
    rw [totalSeconds_whole h, Binary64.trunc_intCast]
    exact ⟨h, rfl⟩

end Timedelta

/-! ### The rows -/

/-- `MANDATES_SCHEMA`. -/
def mandatesSchema : Schema where
  columns :=
    [{ name := "mandate_id", type := .text },
     { name := "subject", type := .text },
     { name := "agent", type := .text },
     { name := "scope_json", type := .text },
     { name := "created_at", type := .timestamptz },
     { name := "expires_at", type := .timestamptz },
     { name := "max_token_ttl_seconds", type := .integer },
     { name := "created_by", type := .text },
     { name := "status", type := .text },
     { name := "revoked_at", type := .timestamptz, nullable := true },
     { name := "revocation_reason", type := .text, nullable := true }]
  key := "mandate_id"

/-- `mandates`. -/
abbrev MandateTable := Table mandatesSchema

namespace MandateStatus

/-- `str(status)`. -/
def str : MandateStatus → String
  | active => "active"
  | revoked => "revoked"
  | expired => "expired"

/-- `MandateStatus(value)`. -/
def ofStr (value : String) : Except Exn MandateStatus :=
  match value with
  | "active" => .ok .active
  | "revoked" => .ok .revoked
  | "expired" => .ok .expired
  | _ => .error (.other "ValueError")

@[simp] theorem ofStr_str (status : MandateStatus) : ofStr status.str = .ok status := by
  cases status <;> rfl

end MandateStatus

namespace PostgresMandateStore

open PostgresApprovalStore (textOrNull timestampOrNull ts str int strOrNone)

/-- `_COLUMNS`. -/
def columns : List String :=
  ["mandate_id", "subject", "agent", "scope_json", "created_at", "expires_at",
    "max_token_ttl_seconds", "created_by", "status", "revoked_at", "revocation_reason"]

/-- `_values`. -/
def values (ft : Json.FloatText) (m : Mandate) : List Sql.Value :=
  [.text m.mandateId, .text m.subject, .text m.agent, .text (m.scope.toJson ft),
    .timestamp m.createdAt, .timestamp m.expiresAt,
    .int (Binary64.trunc (Timedelta.totalSeconds m.maxTokenTtl)), .text m.createdBy,
    .text m.status.str, timestampOrNull m.revokedAt, textOrNull m.revocationReason]

/-- `_from_row`. -/
def fromRow (ft : Json.FloatText) (repr : Json → PyStr) : Row → Except Exn Mandate
  | [mandateId, subject, agent, scopeJson, createdAt, expiresAt, maxTokenTtlSeconds, createdBy,
      status, revokedAt, revocationReason] =>
    match ts createdAt, ts expiresAt with
    | some created, some expires => do
      return {
        mandateId := ← str mandateId
        subject := ← str subject
        agent := ← str agent
        scope := ← Scope.fromJson ft repr (← str scopeJson)
        createdAt := created
        expiresAt := expires
        maxTokenTtl := ← Timedelta.ofSeconds (← int maxTokenTtlSeconds)
        createdBy := ← str createdBy
        status := ← MandateStatus.ofStr (← str status)
        revokedAt := ts revokedAt
        revocationReason := ← strOrNone revocationReason }
    | _, _ =>
      .error (.hoc (HocClass.mandateStoreUnavailable.error "mandate row has invalid timestamps"))
  | _ => .error (.other "IndexError")

/-- A statement that the database refused is the store's `unavailable`, with the text of the
operation. -/
def orUnavailable {α : Type} (failure : String) : Option α → Except Exn α
  | some a => .ok a
  | none => .error (.hoc (HocClass.mandateStoreUnavailable.error failure))

/-- `_mandates`. -/
def mandates (ft : Json.FloatText) (repr : Json → PyStr) (t : MandateTable) (tests : List Test)
    (params : List Param) : Except Exn (List Mandate) := do
  let rows ← orUnavailable "mandate store read failed" (t.select columns tests params "created_at")
  rows.mapM (fromRow ft repr)

/-- `create`. -/
def create (ft : Json.FloatText) (t : MandateTable) (m : Mandate) :
    MandateTable × Except Exn Unit :=
  match t.insert columns (values ft m) with
  | some t' => (t', .ok ())
  | none => (t, orUnavailable "mandate store write failed" none)

/-- `get`. -/
def get (ft : Json.FloatText) (repr : Json → PyStr) (t : MandateTable) (mandateId : String) :
    Except Exn (Option Mandate) := do
  let rows ← mandates ft repr t [.eq "mandate_id"] [.value (.text mandateId)]
  return rows.head?

variable {ft : Json.FloatText} {repr : Json → PyStr} {m : Mandate}

/-! ### What a row gives back -/

/-- **A row gives back the mandate, with the lifetime that the column holds.** -/
theorem fromRow_values :
    fromRow ft repr (values ft m) =
      (Timedelta.ofSeconds (Binary64.trunc (Timedelta.totalSeconds m.maxTokenTtl))).map
        fun ttl => { m with maxTokenTtl := ttl } := by
  unfold values fromRow
  simp only [PostgresApprovalStore.ts_timestamp, PostgresApprovalStore.ts_timestampOrNull,
    PostgresApprovalStore.strOrNone_textOrNull, str, int, Scope.fromJson_toJson,
    MandateStatus.ofStr_str, bind, Except.bind]
  cases Timedelta.ofSeconds (Binary64.trunc (Timedelta.totalSeconds m.maxTokenTtl)) with
  | error e => rfl
  | ok ttl => rfl

theorem fromRow_values_iff (hrange : Timedelta.InRange m.maxTokenTtl) :
    fromRow ft repr (values ft m) = .ok m ↔ Timedelta.Whole m.maxTokenTtl := by
  rw [fromRow_values, ← Timedelta.ofSeconds_totalSeconds_iff hrange]
  cases Timedelta.ofSeconds (Binary64.trunc (Timedelta.totalSeconds m.maxTokenTtl)) with
  | error e => simp [Except.map]
  | ok ttl =>
    simp only [Except.map, Except.ok.injEq]
    constructor
    · intro h
      exact congrArg Mandate.maxTokenTtl h
    · rintro rfl
      rfl

/-- **What `get` reads back** after `create` is what the row gives back. -/
theorem get_of_create {t t' : MandateTable} (h : create ft t m = (t', .ok ())) :
    get ft repr t' m.mandateId = (fromRow ft repr (values ft m)).map some := by
  have hnames : mandatesSchema.names.Nodup := by decide
  have hinsert : t.insert mandatesSchema.names (values ft m) = some t' := by
    unfold create at h
    cases hins : t.insert columns (values ft m) with
    | none =>
      rw [hins] at h
      exact nomatch (Prod.mk.inj h).2
    | some t'' =>
      rw [hins] at h
      rw [← (Prod.mk.inj h).1]
      exact hins
  have hmem : values ft m ∈ t'.rows := by
    rw [Table.rows_of_insert hnames rfl hinsert]
    exact List.mem_append_right _ (List.mem_singleton.mpr rfl)
  have hkey : mandatesSchema.value (values ft m) mandatesSchema.key = .text m.mandateId := rfl
  have hsend : (Param.value (.text m.mandateId)).sendable = true :=
    Table.sendable_of_mem (t'.valid.holds _ hmem) _ List.mem_cons_self
  -- the key is unique, so the row that was inserted is the one that is found
  have hselect : t'.select columns [.eq "mandate_id"] [.value (.text m.mandateId)] "created_at" =
      some [values ft m] := Table.select_key hnames hmem hkey (by simp) hsend
  unfold get mandates
  rw [hselect]
  show (([values ft m].mapM (fromRow ft repr)).bind fun rows => .ok rows.head?) = _
  rw [List.mapM_cons, List.mapM_nil]
  cases fromRow ft repr (values ft m) with
  | error e => rfl
  | ok m' => rfl

end PostgresMandateStore

namespace MandateService

open PostgresMandateStore (values fromRow)

variable {Text : Type} {svc : MandateService Text} {ft : Json.FloatText} {repr : Json → PyStr}

/-- **A token is bounded by its mandate's `max_token_ttl`** unless the default lifetime takes
over: where the clock reads exactly the mandate's expiry and no negative lifetime was asked. -/
theorem lifetime_le_iff {m : Mandate} {ttl : Option ℤ} {now fallback : ℤ}
    (hmax : 0 < m.maxTokenTtl) :
    TokenService.ttlOr (some (effectiveTtl m ttl now)) fallback ≤ m.maxTokenTtl ↔
      now ≠ m.expiresAt ∨ (∃ t < 0, ttl = some t) ∨ fallback ≤ m.maxTokenTtl := by
  have hcap : min (TokenService.ttlOr ttl m.maxTokenTtl) m.maxTokenTtl ≤ m.maxTokenTtl :=
    min_le_right _ _
  -- the cap is never zero, and negative only where a negative lifetime was asked
  have hsign : (min (TokenService.ttlOr ttl m.maxTokenTtl) m.maxTokenTtl < 0 ∧
    ∃ t < 0, ttl = some t) ∨
      (0 < min (TokenService.ttlOr ttl m.maxTokenTtl) m.maxTokenTtl ∧ ¬ ∃ t < 0, ttl = some t) := by
    cases ttl with
    | none => exact .inr ⟨lt_min hmax hmax, by simp⟩
    | some t =>
      rcases lt_trichotomy t 0 with hneg | rfl | hpos
      · have hor : TokenService.ttlOr (some t) m.maxTokenTtl = t := if_neg hneg.ne
        exact .inl ⟨by rw [hor]; exact (min_le_left _ _).trans_lt hneg, t, hneg, rfl⟩
      · exact .inr ⟨lt_min hmax hmax, by simp⟩
      · have hor : TokenService.ttlOr (some t) m.maxTokenTtl = t := if_neg hpos.ne'
        refine .inr ⟨by rw [hor]; exact lt_min hpos hmax, ?_⟩
        rintro ⟨t', hneg, heq⟩
        obtain rfl := Option.some.inj heq
        omega
  unfold effectiveTtl
  generalize min (TokenService.ttlOr ttl m.maxTokenTtl) m.maxTokenTtl = cap at hcap hsign
  by_cases hzero : min cap (m.expiresAt - now) = 0
  · rw [hzero, TokenService.ttlOr, if_pos rfl]
    rcases hsign with ⟨hneg, -⟩ | ⟨hpos, hnone⟩
    · omega
    · have hnow : now = m.expiresAt := by omega
      simp only [hnow, ne_eq, not_true_eq_false, hnone, false_or]
  · rw [TokenService.ttlOr, if_neg hzero]
    refine iff_of_true ((min_le_left _ _).trans hcap) ?_
    rcases hsign with ⟨-, hasked⟩ | ⟨hpos, -⟩
    · exact .inr (.inl hasked)
    · exact .inl (by omega)

/-- **A stored mandate is the mandate that was granted, and bounds its tokens by the lifetime
that was set, exactly for whole seconds.** The row of an accepted mandate gives it back, and so
does the table that it was inserted into, if and only if `max_token_ttl` is a whole number of
seconds. A token issued under the row is then bounded by it, unless the default lifetime takes
over at the very instant of the mandate's expiry. -/
theorem stored_as_granted_iff {m : Mandate} {subject agent createdBy : String} {scope : Scope}
    {expiresAt : ℤ} {maxTokenTtl : Option ℤ} {tr₀ : Trace TokenSig}
    (hcreate : Raises.Run (svc.create subject agent scope expiresAt createdBy maxTokenTtl) tr₀
      (.ok m))
    (hrange : Timedelta.InRange m.maxTokenTtl) :
    (fromRow ft repr (values ft m) = .ok m ↔ Timedelta.Whole m.maxTokenTtl) ∧
    (∀ t t', PostgresMandateStore.create ft t m = (t', .ok ()) →
      (PostgresMandateStore.get ft repr t' m.mandateId = .ok (some m) ↔
        Timedelta.Whole m.maxTokenTtl)) ∧
    ∀ {caller : String} {scope' : Scope} {ttl : Option ℤ} {tr : Trace TokenSig}
      {issued : IssuedToken Text},
      Raises.Run (svc.issue m.mandateId caller scope' ttl) tr (.ok issued) →
      (∀ answer, ⟨.getMandate m.mandateId, answer⟩ ∈ tr →
        answer = (fromRow ft repr (values ft m)).map some) →
      ∃ t₂ t₃ b, (readings tr)[1]? = some t₂ ∧ (readings tr)[2]? = some t₃ ∧
        issued.token = svc.tokens.lib.toBase64 b ∧ ⟨"issued_at", [.ofInstant t₃]⟩ ∈ b.authority ∧
        ((fromRow ft repr (values ft m) = .ok m ∧ issued.expiresAt - t₃ ≤ m.maxTokenTtl) ↔
          (Timedelta.Whole m.maxTokenTtl ∧
            (t₂ ≠ m.expiresAt ∨ (∃ t < 0, ttl = some t) ∨ svc.tokens.ttl ≤ m.maxTokenTtl))) := by
  have hrow : fromRow ft repr (values ft m) = .ok m ↔ Timedelta.Whole m.maxTokenTtl :=
    PostgresMandateStore.fromRow_values_iff hrange
  refine ⟨hrow, fun t t' hstore => ?_, fun {caller scope' ttl tr issued} hissue hstored => ?_⟩
  · rw [PostgresMandateStore.get_of_create hstore, ← hrow]
    cases fromRow ft repr (values ft m) with
    | error e => simp [Except.map]
    | ok m' => simp [Except.map]
  · obtain ⟨-, -, -, -, hmax, -⟩ := create_run hcreate
    obtain ⟨m', t₁, t₂, chain, tr', -, -, -, -, -, rfl, htoken⟩ := issue_run hissue
    obtain ⟨t₃, key, id, at_, eventId, -, rfl, rfl⟩ := TokenService.issue_run htoken
    refine ⟨t₂, t₃, _, rfl, rfl, rfl, ?_, ?_⟩
    · rw [TokenService.rootToken_authority]
      exact mem_authorityBuilder.mpr (.inr (.inr (.inl rfl)))
    · rw [hrow]
      refine and_congr_right fun hwhole => ?_
      -- the row gave the mandate back, so the lifetime was capped by the one that was set
      obtain rfl : m' = m := by
        have hanswer := hstored _ List.mem_cons_self
        rw [hrow.mpr hwhole] at hanswer
        exact Option.some.inj (Except.ok.inj hanswer)
      rw [add_sub_cancel_left]
      exact lifetime_le_iff hmax

/-! ### A mandate for half a second -/

/-- The mandate `tenSeconds`, whose tokens may live half a second. -/
def halfSecond : Mandate := { tenSeconds with maxTokenTtl := 500000 }

/-- What its row gives back. -/
def halfSecondStored : Mandate := { tenSeconds with maxTokenTtl := 0 }

theorem fromRow_halfSecond :
    fromRow ft repr (values ft halfSecond) = .ok halfSecondStored := by
  have hseconds : Timedelta.ofSeconds (Binary64.trunc (Timedelta.totalSeconds 500000)) = .ok 0 := by
    decide +kernel
  rw [PostgresMandateStore.fromRow_values]
  show Except.map _ (Timedelta.ofSeconds (Binary64.trunc (Timedelta.totalSeconds 500000))) = _
  rw [hseconds]
  rfl

theorem create_halfSecond :
    ∃ tr, Raises.Run (boundToEngine.create "user:alice" "agent:a" tenSeconds.scope 10000000
      "user:alice" (some 500000)) tr (.ok halfSecond) := by
  have hresult : ((boundToEngine.create "user:alice" "agent:a" tenSeconds.scope 10000000
    "user:alice"
      (some 500000)).run.execFrom (S := TokenSig) (ticking none) []).2.returns
        (fun m => decide (m = halfSecond)) = true := by
    decide +kernel
  obtain ⟨m, hrun, heq⟩ := Raises.run_of_returns hresult
  obtain rfl := of_decide_eq_true heq
  exact ⟨_, hrun⟩

/-- **Half a second is stored as no lifetime at all**: the row gives back another mandate, and
the token issued under it lives for the default hour. -/
theorem halfSecond_lives_an_hour :
    (∃ tr₀, Raises.Run (boundToEngine.create "user:alice" "agent:a" tenSeconds.scope 10000000
      "user:alice" (some 500000)) tr₀ (.ok halfSecond)) ∧
    Timedelta.InRange halfSecond.maxTokenTtl ∧
    ∀ (ft : Json.FloatText) (repr : Json → PyStr),
      fromRow ft repr (values ft halfSecond) ≠ .ok halfSecond ∧
      ∃ tr issued, Raises.Run (boundToEngine.issue "m" "agent:a" tenSeconds.scope none) tr
          (.ok issued) ∧
        (∀ answer, ⟨.getMandate "m", answer⟩ ∈ tr →
          answer = (fromRow ft repr (values ft halfSecond)).map some) ∧
        readings tr = [0, 1, 2, 3] ∧ issued.expiresAt - 2 = 3600000000 := by
  refine ⟨create_halfSecond, by decide, fun ft repr => ⟨?_, ?_⟩⟩
  · rw [fromRow_halfSecond]
    intro heq
    exact absurd (congrArg Mandate.maxTokenTtl (Except.ok.inj heq)) (by decide)
  · -- the stored row reads as a lifetime of 0, which `or` takes for the default
    have hissue : ((boundToEngine.issue "m" "agent:a" tenSeconds.scope none).run.execFrom
        (S := TokenSig) (ticking (some halfSecondStored)) []).2.returns
          (fun issued => decide (issued.expiresAt - 2 = 3600000000)) = true ∧
        reads halfSecondStored "m" ((boundToEngine.issue "m" "agent:a" tenSeconds.scope
          none).run.execFrom (S := TokenSig) (ticking (some halfSecondStored)) []).1 = true ∧
        readings ((boundToEngine.issue "m" "agent:a" tenSeconds.scope none).run.execFrom
          (S := TokenSig) (ticking (some halfSecondStored)) []).1 = [0, 1, 2, 3] := by
      decide +kernel
    obtain ⟨hresult, hreads, hclock⟩ := hissue
    obtain ⟨issued, hrun, hexpires⟩ := Raises.run_of_returns hresult
    refine ⟨_, issued, hrun, fun answer hmem => ?_, hclock, of_decide_eq_true hexpires⟩
    rw [fromRow_halfSecond]
    exact reads_iff.mp hreads answer hmem

/-- The row of a mandate for an hour gives it back. -/
theorem stored_as_granted_tenSeconds :
    fromRow .ofBits (fun _ => []) (values .ofBits tenSeconds) = .ok tenSeconds := by
  obtain ⟨tr₀, hcreate⟩ := create_tenSeconds
  exact (stored_as_granted_iff hcreate (by decide)).1.mpr (by decide)

end MandateService

end HeadOfContext
