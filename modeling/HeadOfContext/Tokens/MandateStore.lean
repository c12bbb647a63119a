import HeadOfContext.Framework.Rows
import HeadOfContext.Tokens.Runs
import Mathlib.Data.List.Sort

/-!
# Runs over a store of mandates

Clients create, read, list, use and revoke mandates concurrently while a sweeper expires them,
and use the token layer beside it. The store is `InMemoryMandateStore`, each of its calls
atomic; a call may also fail, and then changes nothing. The clock never goes back; the engine,
the audit sink and the identifiers answer anything.

`MandateStep` says once what an event can do to the row of a mandate, and `Writes` what a call
may write, given what it has been told.
-/

namespace HeadOfContext

open Effects Except Service

/-! ### The store -/

/-- The rows of the store, one for each mandate id, in the order they were created. -/
abbrev MandateRows := List Mandate

namespace InMemoryMandateStore

/-- `get`. -/
def get (rows : MandateRows) (mandateId : String) : Option Mandate :=
  Rows.find Mandate.mandateId rows mandateId

/-- `create`. -/
def create (rows : MandateRows) (mandate : Mandate) : Except HocError MandateRows := do
  raiseIf ((get rows mandate.mandateId).isSome = true)
    (HocClass.mandateStoreUnavailable.error "duplicate mandate id")
  return rows ++ [mandate]

/-- `update`. -/
def update (rows : MandateRows) (mandate : Mandate) : Except HocError MandateRows := do
  raiseIf ((get rows mandate.mandateId).isSome = false)
    (HocClass.mandateStoreUnavailable.error "unknown mandate")
  return Rows.put Mandate.mandateId rows mandate

/-- `list_for`: `sorted` keeps the order of rows created at the same time. -/
def listFor (rows : MandateRows) (subject : String) : List Mandate :=
  (rows.filter fun m => m.subject = subject).insertionSort fun m m' => m.createdAt ≤ m'.createdAt

/-- A row that the sweeper expires. -/
def isOverdue (now : ℤ) (m : Mandate) : Bool := m.status = .active ∧ m.expiresAt ≤ now

/-- The row after the sweeper. -/
def swept (now : ℤ) (m : Mandate) : Mandate :=
  if isOverdue now m then { m with status := .expired } else m

/-- `expire_active`: the rows after it, and the ones it expired. -/
def expireActive (rows : MandateRows) (now : ℤ) : MandateRows × List Mandate :=
  (rows.map (swept now), (rows.filter (isOverdue now)).map (swept now))

variable {rows rows' : MandateRows} {id : String} {m : Mandate}

theorem create_eq_ok :
    create rows m = .ok rows' ↔ get rows m.mandateId = none ∧ rows' = rows ++ [m] := by
  simp only [create, bind_eq_ok, raiseIf_eq_ok, pure_eq_ok, Except.ok.injEq]
  constructor
  · rintro ⟨_, h, rfl⟩
    exact ⟨by simpa using h, rfl⟩
  · rintro ⟨h, rfl⟩
    exact ⟨(), by simp [h], rfl⟩

theorem update_eq_ok :
    update rows m = .ok rows' ↔
      (∃ old, get rows m.mandateId = some old) ∧ rows' = Rows.put Mandate.mandateId rows m := by
  simp only [update, bind_eq_ok, raiseIf_eq_ok, pure_eq_ok, Except.ok.injEq,
    ← Option.isSome_iff_exists]
  constructor
  · rintro ⟨_, h, rfl⟩
    exact ⟨by rwa [Bool.not_eq_false] at h, rfl⟩
  · rintro ⟨h, rfl⟩
    exact ⟨(), by simp [h], rfl⟩

theorem mem_listFor {subject : String} :
    m ∈ listFor rows subject ↔ m ∈ rows ∧ m.subject = subject := by
  rw [listFor, List.mem_insertionSort, List.mem_filter, decide_eq_true_iff]

theorem swept_mandateId {now : ℤ} : (swept now m).mandateId = m.mandateId := by
  unfold swept
  split <;> rfl

theorem get_expireActive {now : ℤ} :
    get (expireActive rows now).1 id = (get rows id).map (swept now) :=
  Rows.find_map fun _ => swept_mandateId

end InMemoryMandateStore

/-! ### The calls -/

/-- The calls of clients: those of the token layer, and the others of the mandate service. -/
inductive MandateCall (Text : Type) where
  | create (subject agent : String) (scope : Scope) (expiresAt : ℤ) (createdBy : String)
      (maxTokenTtl : Option ℤ)
  | get (mandateId : String)
  | listFor (subject : String)
  | expire
  | token (c : TokenCall Text)

/-- What each call returns. -/
abbrev MandateCall.Out {Text : Type} : MandateCall Text → Type
  | create _ _ _ _ _ _ => Except Exn Mandate
  | get _ => Except Exn (Option Mandate)
  | listFor _ => Except Exn (List Mandate)
  | expire => Except Exn ℕ
  | token c => c.Out

namespace MandateService

variable {Text : Type} (svc : MandateService Text)

/-- The programs of the calls. -/
def desk : Service TokenSig where
  Call := MandateCall Text
  Out := MandateCall.Out
  body
    | .create subject agent scope expiresAt createdBy maxTokenTtl =>
      (svc.create subject agent scope expiresAt createdBy maxTokenTtl).run
    | .get mandateId => (MandateService.get mandateId).run
    | .listFor subject => (MandateService.listFor subject).run
    | .expire => MandateService.expire.run
    | .token c => svc.service.body c

end MandateService

/-! ### The collaborators -/

/-- The state of the collaborators: the rows of the mandate store, the revoked ids, the ids
drawn for blocks, and the last reading of the clock. -/
structure DeskState where
  rows : MandateRows
  revoked : List String
  signed : List String
  clock : ℤ

namespace DeskState

/-- The row of a mandate. -/
def row (s : DeskState) (id : String) : Option Mandate := InMemoryMandateStore.get s.rows id

/-- The state with other rows. -/
def withRows (s : DeskState) (rows : MandateRows) : DeskState := { s with rows := rows }

/-- `is_revoked`. -/
def isRevoked (s : DeskState) (ids : List String) : Bool := ids.any fun id => s.revoked.contains id

end DeskState

open InMemoryMandateStore in
/-- The collaborators of the token layer, with a store of mandates. -/
def deskWorld : World TokenSig where
  State := DeskState
  init := ⟨[], [], [], 0⟩
  step s o r s' :=
    match o, r with
    | .now, t => s.clock ≤ t ∧ s' = { s with clock := t }
    | .sign, id => s' = { s with signed := id :: s.signed } ∧ id ∉ s.signed ∧ IsHex id
    | .isRevoked ids, .ok b => s' = s ∧ b = s.isRevoked ids
    | .revoke id _ _, .ok () => s' = { s with revoked := id :: s.revoked }
    | .createMandate m, .ok () => ∃ rows, create s.rows m = .ok rows ∧ s' = s.withRows rows
    | .getMandate id, .ok found => found = s.row id ∧ s' = s
    | .updateMandate m, .ok () => ∃ rows, update s.rows m = .ok rows ∧ s' = s.withRows rows
    | .listMandates subject, .ok found => found = listFor s.rows subject ∧ s' = s
    | .expireActive now, .ok expired =>
      ∃ rows, expireActive s.rows now = (rows, expired) ∧ s' = s.withRows rows
    | _, _ => s' = s

/-! ### One way to answer -/

/-- A call of the store answers, or raises and leaves the rows as they are. -/
def DeskState.stored (s : DeskState) (rows : Except HocError MandateRows) :
    Except Exn Unit × DeskState :=
  match rows with
  | .ok rows => (.ok (), s.withRows rows)
  | .error e => (.error (.hoc e), s)

/-- An id for a block, longer than any before. -/
def DeskState.blockId (s : DeskState) : String := String.ofList (List.replicate s.signed.length 'a')

open InMemoryMandateStore in
/-- Collaborators that never fail by themselves: the clock ticks, the engine relates everyone to
everything, and every identifier is "m". -/
def deskDriver : Driver deskWorld where
  answer s
    | .now => s.clock + 1
    | .uuid4 => "m"
    | .sign => s.blockId
    | .isRevoked ids => .ok (s.isRevoked ids)
    | .revoke _ _ _ => .ok ()
    | .record _ => .ok ()
    | .check _ _ _ => .ok true
    | .createMandate m => (s.stored (create s.rows m)).1
    | .getMandate id => .ok (s.row id)
    | .updateMandate m => (s.stored (update s.rows m)).1
    | .listMandates subject => .ok (listFor s.rows subject)
    | .expireActive now => .ok (expireActive s.rows now).2
  after s
    | .now => some { s with clock := s.clock + 1 }
    | .sign =>
      if s.blockId ∉ s.signed ∧ IsHex s.blockId then some { s with signed := s.blockId :: s.signed }
      else none
    | .revoke id _ _ => some { s with revoked := id :: s.revoked }
    | .createMandate m => some (s.stored (create s.rows m)).2
    | .updateMandate m => some (s.stored (update s.rows m)).2
    | .expireActive now => some (s.withRows (expireActive s.rows now).1)
    | _ => some s
  sound := by
    -- a state is only reached by a step of the world; a refused write leaves the rows
    intro s o s' h
    cases o with
    | now => exact ⟨Int.le_add_one le_rfl, (Option.some.inj h).symm⟩
    | sign =>
      rw [Option.ite_none_right_eq_some] at h
      obtain ⟨⟨hfresh, hhex⟩, heq⟩ := h
      exact ⟨(Option.some.inj heq).symm, hfresh, hhex⟩
    | createMandate m =>
      obtain rfl := Option.some.inj h
      cases hrows : create s.rows m with
      | error e =>
        simp only [DeskState.stored, hrows]
        rfl
      | ok rows => simp [DeskState.stored, hrows, deskWorld]
    | updateMandate m =>
      obtain rfl := Option.some.inj h
      cases hrows : update s.rows m with
      | error e =>
        simp only [DeskState.stored, hrows]
        rfl
      | ok rows => simp [DeskState.stored, hrows, deskWorld]
    | expireActive now =>
      obtain rfl := Option.some.inj h
      exact ⟨_, rfl, rfl⟩
    | isRevoked ids => exact ⟨(Option.some.inj h).symm, rfl⟩
    | getMandate id => exact ⟨rfl, (Option.some.inj h).symm⟩
    | listMandates subject => exact ⟨rfl, (Option.some.inj h).symm⟩
    | _ => exact (Option.some.inj h).symm

/-! ### What an event does to a row -/

/-- **What an event can do to the row of a mandate.** -/
inductive MandateStep (id : String) (before after : Option Mandate) : Event TokenSig → Prop
  | same {e : Event TokenSig} (ha : after = before) : MandateStep id before after e
  | created {m : Mandate} (hb : before = none) (hid : m.mandateId = id) (ha : after = some m) :
      MandateStep id before after ⟨.createMandate m, .ok ()⟩
  | updated {old m : Mandate} (hb : before = some old) (hid : m.mandateId = id)
      (ha : after = some m) : MandateStep id before after ⟨.updateMandate m, .ok ()⟩
  | swept {old : Mandate} {now : ℤ} {expired : List Mandate} (hb : before = some old)
      (hactive : old.status = .active) (ha : after = some { old with status := .expired }) :
      MandateStep id before after ⟨.expireActive now, .ok expired⟩

section Steps

open InMemoryMandateStore

variable {s s' : DeskState}

theorem row_update {m old : Mandate} {id : String} (h : s.row m.mandateId = some old) :
    (s.withRows (Rows.put Mandate.mandateId s.rows m)).row id =
      if id = m.mandateId then some m else s.row id := Rows.find_put_of_find h

/-- The calls that write to the mandate store. -/
def TokenOp.Stores : TokenOp → Prop
  | createMandate _ | updateMandate _ | expireActive _ => True
  | _ => False

/-- Any other call leaves the rows as they are. -/
theorem rows_eq {o : TokenOp} {r : o.Res} (h : deskWorld.step s o r s') (ho : ¬ o.Stores) :
    s'.rows = s.rows := by
  -- an operation that stores nothing answers from the rows or from elsewhere
  cases o with
  | createMandate m => exact absurd trivial ho
  | updateMandate m => exact absurd trivial ho
  | expireActive now => exact absurd trivial ho
  | now =>
    obtain ⟨-, rfl⟩ := h
    rfl
  | sign =>
    obtain ⟨rfl, -⟩ := h
    rfl
  | isRevoked ids =>
    match r with
    | .error e =>
      obtain rfl := h
      rfl
    | .ok b =>
      obtain ⟨rfl, -⟩ := h
      rfl
  | revoke id reason at_ =>
    match r with
    | .error e =>
      obtain rfl := h
      rfl
    | .ok () =>
      obtain rfl := h
      rfl
  | getMandate id =>
    match r with
    | .error e =>
      obtain rfl := h
      rfl
    | .ok found =>
      obtain ⟨-, rfl⟩ := h
      rfl
  | listMandates subject =>
    match r with
    | .error e =>
      obtain rfl := h
      rfl
    | .ok found =>
      obtain ⟨-, rfl⟩ := h
      rfl
  | _ =>
    obtain rfl := h
    rfl

theorem mandateStep (id : String) {o : TokenOp} {r : o.Res} (h : deskWorld.step s o r s') :
    MandateStep id (s.row id) (s'.row id) ⟨o, r⟩ := by
  -- the three operations that store a row; by `rows_eq` no other one changes the table
  cases o with
  | createMandate m =>
    match r with
    | .error e =>
      obtain rfl := h
      exact .same rfl
    | .ok () =>
      obtain ⟨rows, hcreate, rfl⟩ := h
      obtain ⟨hnone, rfl⟩ := create_eq_ok.mp hcreate
      have hrow : (s.withRows (s.rows ++ [m])).row id =
          if id = m.mandateId then some m else s.row id := Rows.find_append hnone
      by_cases hid : id = m.mandateId
      · subst hid
        exact .created hnone rfl (by rw [hrow, if_pos rfl])
      · exact .same (by rw [hrow, if_neg hid])
  | updateMandate m =>
    match r with
    | .error e =>
      obtain rfl := h
      exact .same rfl
    | .ok () =>
      obtain ⟨rows, hupdate, rfl⟩ := h
      obtain ⟨⟨old, hold⟩, rfl⟩ := update_eq_ok.mp hupdate
      by_cases hid : id = m.mandateId
      · subst hid
        exact .updated hold rfl (by rw [row_update hold, if_pos rfl])
      · exact .same (by rw [row_update hold, if_neg hid])
  | expireActive now =>
    match r with
    | .error e =>
      obtain rfl := h
      exact .same rfl
    | .ok expired =>
      obtain ⟨rows, hexpire, rfl⟩ := h
      have hrow : (s.withRows rows).row id = (s.row id).map (swept now) := by
        rw [DeskState.row, DeskState.row, ← get_expireActive, hexpire]
        rfl
      cases hold : s.row id with
      | none => exact .same (by rw [hrow, hold]; rfl)
      | some old =>
        by_cases hdue : isOverdue now old = true
        · refine .swept rfl (of_decide_eq_true hdue).1 ?_
          rw [hrow, hold, Option.map_some, swept, if_pos hdue]
        · refine .same ?_
          rw [hrow, hold, Option.map_some, swept, if_neg hdue]
  | _ =>
    refine .same ?_
    rw [DeskState.row, rows_eq h not_false]
    rfl

end Steps

/-! ### What a call may write -/

/-- What a mandate is about: everything but its status. -/
def Mandate.terms (m : Mandate) : String × String × String × Scope × ℤ × ℤ × ℤ × String :=
  (m.mandateId, m.subject, m.agent, m.scope, m.createdAt, m.expiresAt, m.maxTokenTtl, m.createdBy)

theorem Mandate.terms_eq {m m' : Mandate} (h : m.terms = m'.terms) :
    m.mandateId = m'.mandateId ∧ m.subject = m'.subject ∧ m.agent = m'.agent ∧
      m.scope = m'.scope := by
  simp only [terms, Prod.mk.injEq] at h
  obtain ⟨hid, hsubject, hagent, hscope, -⟩ := h
  exact ⟨hid, hsubject, hagent, hscope⟩

/-- The call was told the row. -/
def ToldMandate (h : Trace TokenSig) (m : Mandate) : Prop :=
  (∃ id, ⟨.getMandate id, .ok (some m)⟩ ∈ h) ∨
    ∃ subject found, ⟨.listMandates subject, .ok found⟩ ∈ h ∧ m ∈ found

theorem ToldMandate.append {h h' : Trace TokenSig} {m : Mandate} (ht : ToldMandate h m) :
    ToldMandate (h ++ h') m := by
  rcases ht with ⟨id, hget⟩ | ⟨subject, found, hlist, hm⟩
  · exact .inl ⟨id, List.mem_append_left _ hget⟩
  · exact .inr ⟨subject, found, List.mem_append_left _ hlist, hm⟩

namespace MandateService

variable {Text : Type} {svc : MandateService Text}

/-- The call creates mandates like this one, for its own subject. -/
def Creates (c : MandateCall Text) (m : Mandate) : Prop :=
  ∃ expiresAt maxTokenTtl, c = .create m.subject m.agent m.scope expiresAt m.subject maxTokenTtl

/-- **What a call may write to the store**, given what it has been told: a new ACTIVE mandate,
or a row it was told, no longer ACTIVE. -/
def Writes (c : MandateCall Text) (h : Trace TokenSig) : TokenOp → Prop
  | .createMandate m => m.status = .active ∧ m.createdBy = m.subject ∧ Creates c m
  | .updateMandate m => m.status ≠ .active ∧ ∃ m', ToldMandate h m' ∧ m.terms = m'.terms
  | _ => True

/-- A call of the interface that writes nothing to the mandate store. -/
def NoWrite : TokenOp → Prop
  | .createMandate _ | .updateMandate _ => False
  | _ => True

theorem passive_noWrite : Passive NoWrite :=
  ⟨trivial, trivial, trivial, fun _ => trivial, fun _ => trivial⟩

theorem NoWrite.writes {c : MandateCall Text} {h : Trace TokenSig} {o : TokenOp} (ho : NoWrite o) :
    Writes c h o := by
  cases o with
  | createMandate m => exact ho.elim
  | updateMandate m => exact ho.elim
  | _ => trivial

/-- A program without writes writes what it may. -/
theorem writes_of_calls {α : Type} {c : MandateCall Text} {p : Tokens α} {h : Trace TokenSig}
    (hp : Raises.Calls (S := TokenSig) NoWrite p) :
    Raises.Spec (Writes c) (fun _ _ => True) p h :=
  Prog.Calls.spec hp fun _ _ => NoWrite.writes

section Specs

variable {c : MandateCall Text} {h : Trace TokenSig}

/-- The lazy write-back of a row that was told. -/
theorem spec_fresh {m : Mandate} (htold : ToldMandate h m) :
    Raises.Spec (Writes c) (fun _ _ => True) (fresh m) h := by
  have hA := passive_noWrite
  unfold fresh
  split_ifs with hs
  · exact writes_of_calls (Raises.calls_pure _)
  refine .seq (writes_of_calls hA.calls_now) fun tr now _ => ?_
  split_ifs with hdue
  · refine .seq ⟨⟨nofun, m, htold.append, rfl⟩, fun _ => trivial⟩ fun _ _ _ => ?_
    exact .seq (writes_of_calls hA.calls_recordEvent) fun _ _ _ => trivial
  refine .seq (writes_of_calls (calls_mapHoc hA.calls_isRevoked)) fun tr' idRevoked _ => ?_
  split_ifs with hr
  · refine .seq ⟨⟨nofun, m, htold.append.append, rfl⟩, fun _ => trivial⟩ fun _ _ _ => ?_
    exact .seq (writes_of_calls hA.calls_recordEvent) fun _ _ _ => trivial
  · exact writes_of_calls (Raises.calls_pure _)

theorem spec_get {mandateId : String} :
    Raises.Spec (Writes c) (fun _ _ => True) (MandateService.get mandateId) h := by
  refine .seq ⟨trivial, fun _ => trivial⟩ fun tr stored hget => ?_
  obtain rfl := Raises.run_invoke.mp hget
  match stored with
  | none => exact writes_of_calls (Raises.calls_pure _)
  | some m => exact .seq (spec_fresh (.inl ⟨mandateId, by simp⟩)) fun _ _ _ => trivial

theorem spec_freshAll {stored : List Mandate} (htold : ∀ m ∈ stored, ToldMandate h m) :
    Raises.Spec (Writes c) (fun _ _ => True) (freshAll stored) h := by
  induction stored generalizing h with
  | nil => exact writes_of_calls (Raises.calls_pure _)
  | cons m rest ih =>
    refine .seq (spec_fresh (htold m List.mem_cons_self)) fun tr _ _ => ?_
    exact .seq (ih fun m' hm' => (htold m' (List.mem_cons_of_mem _ hm')).append) fun _ _ _ =>
      trivial

theorem spec_listFor {subject : String} :
    Raises.Spec (Writes c) (fun _ _ => True) (listFor subject) h := by
  refine .seq ⟨trivial, fun _ => trivial⟩ fun tr stored hlist => ?_
  obtain rfl := Raises.run_invoke.mp hlist
  exact spec_freshAll fun m hm => .inr ⟨subject, stored, by simp, hm⟩

theorem spec_revokeMandate {mandateId by_ reason : String} :
    Raises.Spec (Writes c) (fun _ _ => True) (MandateService.revoke mandateId by_ reason) h := by
  have hA := passive_noWrite
  refine .seq ⟨trivial, fun _ => trivial⟩ fun tr stored hget => ?_
  obtain rfl := Raises.run_invoke.mp hget
  match stored with
  | none => exact writes_of_calls (Raises.calls_raise _)
  | some m =>
    have htold : ToldMandate (h ++ [⟨.getMandate mandateId, .ok (some m)⟩]) m :=
      .inl ⟨mandateId, by simp⟩
    refine .seq (writes_of_calls calls_ofHoc) fun tr₁ _ _ => ?_
    refine .seq (writes_of_calls hA.calls_now) fun tr₂ _ _ => ?_
    refine .seq (writes_of_calls ?_) fun tr₃ _ _ => ?_
    · exact .bind hA.calls_now fun _ => .bind (Raises.calls_invoke trivial) fun _ =>
        .bind hA.calls_uuid4 fun _ => hA.calls_record
    refine .seq ⟨⟨nofun, m, htold.append.append.append, rfl⟩, fun _ => trivial⟩ fun _ _ _ => ?_
    exact .seq (writes_of_calls hA.calls_recordEvent) fun _ _ _ => trivial

theorem calls_recordExpired {expired : List Mandate} :
    Raises.Calls (S := TokenSig) NoWrite (recordExpired expired) := by
  induction expired with
  | nil => exact Raises.calls_pure _
  | cons m rest ih => exact .bind passive_noWrite.calls_recordEvent fun _ => ih

theorem spec_create {subject agent createdBy : String} {scope : Scope} {expiresAt : ℤ}
    {maxTokenTtl : Option ℤ} :
    Raises.Spec
      (Writes (.create subject agent scope expiresAt createdBy maxTokenTtl : MandateCall Text))
      (fun _ _ => True) (svc.create subject agent scope expiresAt createdBy maxTokenTtl) h := by
  have hA := passive_noWrite
  refine .seq (writes_of_calls calls_ofHoc) fun _ _ _ => ?_
  refine .seq (writes_of_calls calls_ofHoc) fun _ _ hcreator => ?_
  obtain ⟨rfl, hsame⟩ := Core.run_ofHoc_ok.mp hcreator
  obtain rfl : createdBy = subject := not_not.mp (raiseIf_eq_ok.mp hsame)
  refine .seq (writes_of_calls hA.calls_now) fun _ _ _ => ?_
  refine .seq (writes_of_calls calls_ofHoc) fun _ _ _ => ?_
  refine .seq (writes_of_calls calls_ofHoc) fun _ _ _ => ?_
  refine .seq (writes_of_calls calls_ofHoc) fun _ _ _ => ?_
  refine .seq (writes_of_calls calls_ofHoc) fun _ _ _ => ?_
  refine .seq (writes_of_calls (calls_requireBinding trivial)) fun _ _ _ => ?_
  refine .seq (writes_of_calls hA.calls_uuid4) fun _ _ _ => ?_
  refine .seq ⟨⟨rfl, rfl, expiresAt, maxTokenTtl, rfl⟩, fun _ => trivial⟩ fun _ _ _ => ?_
  exact .seq (writes_of_calls hA.calls_recordEvent) fun _ _ _ => trivial

theorem spec_issueUnder {mandateId caller : String} {scope : Scope} {ttl : Option ℤ} :
    Raises.Spec (Writes c) (fun _ _ => True) (svc.issue mandateId caller scope ttl) h := by
  have hA := passive_noWrite
  refine .seq spec_get fun _ found _ => ?_
  match found with
  | none => exact writes_of_calls (Raises.calls_raise _)
  | some m =>
    exact writes_of_calls (.bind calls_ofHoc fun _ => .bind (calls_requireBinding trivial) fun _ =>
      .bind hA.calls_now fun _ => .bind calls_ofHoc fun _ => hA.calls_issue)

end Specs

/-- **Every call writes what it may.** -/
theorem spec_desk (c : MandateCall Text) :
    Prog.Spec (Writes c) (fun _ _ => True) (svc.desk.body c) [] := by
  have hA := passive_noWrite
  -- what creates or reads a mandate has its own law, the others write none
  cases c with
  | create subject agent scope expiresAt createdBy maxTokenTtl => exact spec_create
  | get mandateId => exact spec_get
  | listFor subject => exact spec_listFor
  | expire =>
    exact writes_of_calls (.bind hA.calls_now fun _ => .bind (Raises.calls_invoke trivial) fun _ =>
      .bind calls_recordExpired fun _ => Raises.calls_pure _ : Raises.Calls _ MandateService.expire)
  | token c =>
    cases c with
    | issue chain ttl mandateId => exact writes_of_calls hA.calls_issue
    | attenuate token toActor scope => exact writes_of_calls hA.calls_attenuate
    | revoke token caller reason =>
      refine writes_of_calls (p := svc.tokens.revoke token caller reason) ?_
      refine .bind calls_ofHoc fun _ => .bind calls_ofHoc fun _ => .bind ?_ fun _ =>
        Raises.calls_pure _
      exact .bind hA.calls_now fun _ => .bind (Raises.calls_invoke trivial) fun _ =>
        .bind hA.calls_uuid4 fun _ => hA.calls_record
    | issueUnder mandateId caller scope ttl => exact spec_issueUnder
    | revokeMandate mandateId by_ reason => exact spec_revokeMandate
    | verify token caller operation resource => exact writes_of_calls hA.calls_verify
    | verifyMany token caller operation resources => exact writes_of_calls hA.calls_verifyMany
    | inspect token caller => exact writes_of_calls hA.calls_inspect

end MandateService

end HeadOfContext
