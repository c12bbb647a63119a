import HeadOfContext.Framework.Decimal
import HeadOfContext.Framework.Roles

/-!
# Schema migrations

`migrate` brings a database to the version of the code, one transaction for each migration, while
it holds an advisory lock of Postgres. Any number of processes do this at once, of any release of
the code, and a connection can be lost at any moment: the server then may or may not carry out the
statement it was sent, and ends the session when it notices, which is when the transaction is
rolled back and the lock released.
-/

namespace HeadOfContext

open Effects PyText

/-! ### The code -/

/-- `Migration`. -/
structure Migration where
  version : ℤ
  name : String
  sql : String
  deriving DecidableEq

/-- The migrations of one release of the code. -/
structure Release where
  migrations : List Migration
  ne : migrations ≠ []

namespace Release

variable (code : Release)

/-- `LATEST`. -/
def latest : ℤ := (code.migrations.getLast code.ne).version

/-- `pending`. -/
def pending (current : ℤ) : List Migration :=
  code.migrations.filter fun m => decide (current < m.version)

end Release

/-- What `migrate` can raise. -/
inductive MigrateError where
  | schemaOutOfDate (message : String)
  | other (name : String)
  deriving DecidableEq

/-- A statement that a connection executes for its effect. -/
inductive Stmt where
  | selectOne
  /-- `_LOCK`. -/
  | lock
  /-- `_UNLOCK`. -/
  | unlock
  /-- `LEDGER`. -/
  | createLedger
  | begin
  | sql (text : String)
  /-- `INSERT INTO schema_migrations`. -/
  | insert (version : ℤ) (name : String) (appliedAt : ℤ)
  | commit
  | rollback
  deriving DecidableEq

/-- A call of the database. The last two are not made by a process: the server ends a session, or
carries out what a lost connection had sent. -/
inductive DbOp where
  /-- `psycopg.connect`. -/
  | connect
  | execute (conn : ℕ) (stmt : Stmt)
  /-- `SELECT to_regclass('schema_migrations')`: whether the ledger exists. -/
  | regclass (conn : ℕ)
  /-- `SELECT COALESCE(MAX(version), 0) FROM schema_migrations`. -/
  | maxVersion (conn : ℕ)
  | now
  | close (conn : ℕ)
  | terminate (conn : ℕ)
  | settle (conn : ℕ)

/-- The answer to each call: a connection, a value, or the name of an exception of psycopg. -/
abbrev DbOp.Res : DbOp → Type
  | connect => Except String ℕ
  | execute _ _ => Except String Unit
  | regclass _ => Except String Bool
  | maxVersion _ => Except String ℤ
  | now => ℤ
  | close _ => Unit
  | terminate _ => Unit
  | settle _ => Unit

/-- The interface of the database. -/
abbrev DbSig : Sig := ⟨DbOp, DbOp.Res⟩

/-- A program of `db/migrations.py`. -/
abbrev Db := Raises DbSig MigrateError

namespace Db

/-- A call that can raise. -/
def ask {α : Type} (o : DbOp) (h : o.Res → Except String α) : Db α :=
  ⟨.call o fun r => .ret ((h r).mapError .other)⟩

def connect : Db ℕ := ask .connect id

def execute (conn : ℕ) (stmt : Stmt) : Db Unit := ask (.execute conn stmt) id

def regclass (conn : ℕ) : Db Bool := ask (.regclass conn) id

def maxVersion (conn : ℕ) : Db ℤ := ask (.maxVersion conn) id

def now : Db ℤ := .lift (.invoke (S := DbSig) .now)

def close (conn : ℕ) : Db Unit := .lift (.invoke (S := DbSig) (.close conn))

/-- `with psycopg.connect(conninfo, autocommit=True) as conn`. -/
def withConnection {α : Type} (body : ℕ → Db α) : Db α := do
  let conn ← connect
  let result ← (body conn).attempt
  close conn
  .ofExcept result

/-- `try: body finally: last`. -/
def ensuring {α : Type} (body : Db α) (last : Db Unit) : Db α := do
  let result ← body.attempt
  last
  .ofExcept result

/-- `with conn.transaction()`: a rollback that fails is ignored. -/
def transaction (conn : ℕ) (body : Db Unit) : Db Unit := do
  execute conn .begin
  let result ← body.attempt
  match result with
  | .ok _ => execute conn .commit
  | .error exc =>
    let _ ← (execute conn .rollback).attempt
    .raise exc

/-- `_current`. -/
def current (conn : ℕ) : Db ℤ := do
  let found ← regclass conn
  if found then maxVersion conn else return 0

/-- `current_version`. -/
def currentVersion : Db ℤ := withConnection current

/-- `ping`. -/
def ping : Db ℤ := withConnection fun conn => do
  execute conn .selectOne
  current conn

/-- `str` of a version. -/
def versionText (version : ℤ) : String := String.ofList (Decimal.intText version)

/-- The transaction of one migration. -/
def applyOne (conn : ℕ) (migration : Migration) : Db Unit :=
  transaction conn do
    execute conn (.sql migration.sql)
    let appliedAt ← now
    execute conn (.insert migration.version migration.name appliedAt)

/-- The loop of `migrate`, after the versions that it has applied. -/
def applyAll (conn : ℕ) (applied : List ℤ) : List Migration → Db (List ℤ)
  | [] => return applied
  | migration :: rest => do
    applyOne conn migration
    applyAll conn (applied ++ [migration.version]) rest

/-- What `migrate` does under the lock. -/
def migrateLocked (code : Release) (conn : ℕ) : Db (List ℤ) := do
  execute conn .createLedger
  let version ← current conn
  if code.latest < version then
    let version ← current conn
    .raise (.schemaOutOfDate ("database schema is at version " ++ versionText version ++
      ", newer than this code (" ++ versionText code.latest ++ "): refusing to migrate"))
  else
    let version ← current conn
    applyAll conn [] (code.pending version)

/-- `migrate`. -/
def migrate (code : Release) : Db (List ℤ) :=
  withConnection fun conn => do
    execute conn .lock
    ensuring (migrateLocked code conn) (execute conn .unlock)

/-- `assert_current`. -/
def assertCurrent (code : Release) : Db Unit := do
  let version ← currentVersion
  if version < code.latest then
    .raise (.schemaOutOfDate ("database schema is at version " ++ versionText version ++
      ", code expects " ++ versionText code.latest ++ ": run `hoc db migrate`"))
  else if code.latest < version then
    .raise (.schemaOutOfDate ("database schema is at version " ++ versionText version ++
      ", newer than this code (" ++ versionText code.latest ++ "): deploy the matching version"))
  else
    return ()

end Db

/-! ### The database -/

/-- What a transaction writes. -/
inductive Write where
  | sql (text : String)
  | row (version : ℤ) (name : String) (appliedAt : ℤ)
  deriving DecidableEq

/-- The version of a row of the ledger. -/
def Write.version? : Write → Option ℤ
  | sql _ => none
  | row version _ _ => some version

/-- An open transaction. In an aborted one every statement fails, and its end writes nothing. -/
structure Txn where
  writes : List Write
  aborted : Bool
  deriving DecidableEq

/-- The connection of a session: up, or lost with the statement that may still be carried out. -/
inductive Link where
  | up
  | down (inflight : Option Stmt)
  deriving DecidableEq

/-- A session, as the server has it. -/
structure DbSession where
  link : Link
  txn : Option Txn

/-- The database: the ledger as it was found, and what has been committed since, by whom. -/
structure Database where
  ledger : Bool
  found : List ℤ
  commits : List (ℕ × List Write)
  lock : Option ℕ
  sessions : ℕ → Option DbSession
  next : ℕ

namespace Database

variable (s : Database) (c : ℕ)

/-- The versions that commits have put into the ledger. -/
def rowsOf (writes : List Write) : List ℤ := writes.filterMap Write.version?

/-- The versions in the ledger. -/
def versions : List ℤ := s.found ++ s.commits.flatMap fun e => rowsOf e.2

/-- The session has a connection that works. -/
def Live : Prop := ∃ session, s.sessions c = some session ∧ session.link = .up

/-- The open transaction of a session. -/
def txn : Option Txn := (s.sessions c).bind DbSession.txn

/-- The session, with another transaction. -/
def setTxn (t : Option Txn) : Database :=
  { s with sessions := Function.update s.sessions c ((s.sessions c).map fun session =>
      { session with txn := t }) }

/-- A write: in the transaction that is open, or committed at once. -/
def write (w : Write) : Database :=
  match s.txn c with
  | none => { s with commits := s.commits ++ [(c, [w])] }
  | some t => s.setTxn c (some { t with writes := t.writes ++ [w] })

/-- What the session has written and not committed. -/
def staged : List Write := ((s.txn c).map Txn.writes).getD []

/-- The end of a transaction: an aborted one leaves nothing. -/
def commit : Database :=
  match s.txn c with
  | none => s
  | some t =>
    if t.aborted = true ∨ t.writes = [] then s.setTxn c none
    else { s with commits := s.commits ++ [(c, t.writes)] }.setTxn c none

/-- The session is in a transaction in which a statement has failed. -/
def Aborted : Prop := ∃ t, s.txn c = some t ∧ t.aborted = true

instance decidableAborted : Decidable (s.Aborted c) :=
  match h : s.txn c with
  | none => isFalse fun ⟨_, ht, _⟩ => by rw [h] at ht; cases ht
  | some t => decidable_of_iff (t.aborted = true)
      ⟨fun ha => ⟨t, h, ha⟩, fun ⟨t', ht', ha⟩ => by rw [h] at ht'; cases ht'; exact ha⟩

/-- The statement carried out, where it can be: a lock that another session holds is waited for,
and a row whose version is there already is refused. -/
def perform : Stmt → Option Database
  | .selectOne => if s.Aborted c then none else some s
  | .lock =>
    if s.Aborted c then none
    else if s.lock = none ∨ s.lock = some c then some { s with lock := some c }
    else none
  | .unlock =>
    if s.Aborted c then none
    else some (if s.lock = some c then { s with lock := none } else s)
  | .createLedger => if s.Aborted c then none else some { s with ledger := true }
  | .begin =>
    if s.Aborted c then none
    else some (if s.txn c = none then s.setTxn c (some ⟨[], false⟩) else s)
  | .sql text => if s.Aborted c then none else some (s.write c (.sql text))
  | .insert version name appliedAt =>
    if s.Aborted c then none
    else if s.ledger = true ∧ version ∉ s.versions ∧ version ∉ rowsOf (s.staged c) then
      some (s.write c (.row version name appliedAt))
    else none
  | .commit => some (s.commit c)
  | .rollback => some (s.setTxn c none)

/-- A new session. -/
def connected : Database :=
  { s with sessions := Function.update s.sessions s.next (some ⟨.up, none⟩), next := s.next + 1 }

/-- The session, its connection lost. -/
def lost (inflight : Option Stmt) : Database :=
  { s with sessions := Function.update s.sessions c ((s.sessions c).map fun session =>
      { session with link := .down inflight }) }

/-- The session, after a statement that the server has refused. -/
def failed (stmt : Option Stmt) : Database :=
  s.setTxn c (if stmt = some .commit then none
    else (s.txn c).map fun t => { t with aborted := true })

/-- The session at its end: rolled back, and its lock released. -/
def ended : Database :=
  { s with
    sessions := Function.update s.sessions c none
    lock := if s.lock = some c then none else s.lock }

/-- What a call that raises leaves: nothing was done, or the server refused, or the connection is
lost and the statement may still be carried out. -/
def Raised (stmt : Option Stmt) (s' : Database) : Prop :=
  s' = s ∨ (s.Live c ∧ (s' = s.failed c stmt ∨ s' = s.lost c stmt))

/-- The server carries out what a lost connection had sent, if that is so. -/
def Settled (s' : Database) : Prop :=
  s' = s ∨ ∃ txn stmt s₁, s.sessions c = some ⟨.down (some stmt), txn⟩ ∧
    s.perform c stmt = some s₁ ∧ s' = s₁.lost c none

/-- The collaborator of the processes. -/
def world (start : Database) : World DbSig where
  State := Database
  init := start
  step s o r s' :=
    match o, r with
    | .connect, .ok conn => conn = s.next ∧ s' = s.connected
    | .connect, .error _ => s' = s
    | .execute conn stmt, .ok _ => s.Live conn ∧ s.perform conn stmt = some s'
    | .execute conn stmt, .error _ => s.Raised conn (some stmt) s'
    | .regclass conn, .ok found => s.Live conn ∧ found = s.ledger ∧ s' = s
    | .regclass conn, .error _ => s.Raised conn none s'
    | .maxVersion conn, .ok version =>
      s.Live conn ∧ version = s.versions.max?.getD 0 ∧ s' = s
    | .maxVersion conn, .error _ => s.Raised conn none s'
    | .now, _ => s' = s
    | .close conn, _ => s' = s.ended conn ∨ s' = s.lost conn none
    | .terminate conn, _ => s' = s.ended conn
    | .settle conn, _ => s.Settled conn s'

end Database

end HeadOfContext
