import HeadOfContext.Framework.Datalog
import HeadOfContext.Framework.PyText
import HeadOfContext.Framework.Decimal

/-!
# Biscuit tokens

What the token layer relies on of the Biscuit library. A token is an authority block,
signed with the root key, and blocks that any holder may append. The facts of appended
blocks are visible to their own checks only; the authorizer matches its policies and
queries against the facts of the authority block and its own, and every check of every
block must hold.

An appended block may come from anyone. Its source is any text, and a check of it is any
condition on the facts it sees besides its own; the checks that the token layer writes
itself are Datalog (`Check`), built into blocks by `BlockBuilder`. Dates are whole
seconds.

The encoding of tokens and the printing of values are parameters (`BiscuitLib`), and the
text of a token is an opaque type: the code never looks inside.
-/

namespace HeadOfContext

open Datalog

/-- A value of Biscuit's Datalog, of the types the token layer meets. -/
inductive Value where
  | str (s : String)
  | int (n : ℤ)
  /-- A date, in seconds. -/
  | date (t : ℤ)
  deriving DecidableEq

instance : Inhabited Value := ⟨.int 0⟩

/-- The date of an instant in microseconds. -/
def Value.ofInstant (t : ℤ) : Value := .date (t / 1000000)

namespace Biscuit

abbrev Facts := List (Fact Value)

/-! ### Checks and policies written by the token layer -/

/-- The expressions in use. -/
inductive Expr where
  | eq (a b : Term Value)
  | startsWith (a b : Term Value)
  | lt (a b : Term Value)
  | const (b : Bool)

/-- The meaning of an expression. Comparing values of different types is false. -/
def Expr.guard : Expr → Guard Value
  | eq a b => ⟨[a, b], fun
    | [x, y] => x == y
    | _ => false⟩
  | startsWith a b => ⟨[a, b], fun
    | [.str x, .str y] => PyText.startsWith x y
    | _ => false⟩
  | lt a b => ⟨[a, b], fun
    | [.date x, .date y] => x < y
    | [.int x, .int y] => x < y
    | _ => false⟩
  | const b => ⟨[], fun _ => b⟩

/-- One alternative of a check or a policy. -/
structure Clause where
  atoms : List (Atom Value)
  exprs : List Expr

def Clause.body (c : Clause) : Body Value := ⟨c.atoms, c.exprs.map Expr.guard⟩

/-- `check if c₁ or c₂ or …`. -/
structure Check where
  clauses : List Clause

/-- A check holds when one of its alternatives does. -/
def Check.holds (facts : Facts) (c : Check) : Bool := c.clauses.any fun k => k.body.holds facts

/-- `allow if …` or `deny if …`. -/
structure Policy where
  allow : Bool
  clause : Clause

/-! ### Tokens -/

/-- A check of some block: its text, as error messages print it, and whether it holds
given the facts it sees besides those of its block. -/
structure BlockCheck where
  text : String
  holds : Facts → Bool

/-- An appended block. -/
structure Block where
  source : String
  checks : List BlockCheck
  revocationId : String

end Biscuit

open Biscuit

/-- A public key, by its bytes. -/
abbrev PublicKey := List UInt8

/-- A private key, by its bytes. -/
abbrev PrivateKey := List UInt8

/-- A token whose signatures verify under `rootKey`. -/
structure Biscuit where
  rootKeyId : Option ℤ
  rootKey : PublicKey
  authority : Facts
  authorityChecks : List BlockCheck
  authorityId : String
  blocks : List Block

namespace Biscuit

/-- `biscuit.block_count()`. -/
def blockCount (b : Biscuit) : ℕ := b.blocks.length + 1

/-- `biscuit.revocation_ids`. -/
def revocationIds (b : Biscuit) : List String := b.authorityId :: b.blocks.map Block.revocationId

/-- The token with a block appended. -/
def appendBlock (b : Biscuit) (block : Block) : Biscuit := { b with blocks := b.blocks ++ [block] }

/-- The token with more blocks appended. -/
def append (b : Biscuit) (blocks : List Block) : Biscuit := { b with blocks := b.blocks ++ blocks }

/-- The checks of every block. -/
def checks (b : Biscuit) : List BlockCheck := b.authorityChecks ++ b.blocks.flatMap Block.checks

/-! ### The authorizer -/

/-- An authorizer built for a token: its own facts and its policies, in order. -/
structure Authorizer where
  facts : Facts
  policies : List Policy

/-- The facts the authorizer sees. -/
def Authorizer.visible (a : Authorizer) (b : Biscuit) : Facts := b.authority ++ a.facts

/-- `authorizer.query(out(…) <- atom)`. -/
def Authorizer.query (a : Authorizer) (b : Biscuit) (out : List (Term Value)) (atom : Atom Value) :
    List (List Value) :=
  Body.select (a.visible b) out ⟨[atom], []⟩

/-- The first policy that matches. -/
def Authorizer.matched (a : Authorizer) (b : Biscuit) : Option Policy :=
  a.policies.find? fun p => p.clause.body.holds (a.visible b)

/-- The texts of the checks that fail. -/
def Authorizer.failedChecks (a : Authorizer) (b : Biscuit) : List String :=
  (b.checks.filter fun c => !c.holds (a.visible b)).map BlockCheck.text

/-- `AuthorizationError`: its message lists the checks that failed. -/
structure AuthorizationError where
  failedChecks : List String

/-- `text in str(exc)`, for a text that is not part of the frame of the message. -/
def AuthorizationError.mentions (e : AuthorizationError) (text : String) : Bool :=
  e.failedChecks.any fun t => decide (text.toList <:+: t.toList)

/-- `authorizer.authorize()`: an allow policy matches first, and every check holds. -/
def Authorizer.authorize (a : Authorizer) (b : Biscuit) : Except AuthorizationError Unit :=
  if ((a.matched b).map Policy.allow).getD false && (a.failedChecks b).isEmpty then .ok ()
  else .error ⟨a.failedChecks b⟩

theorem Authorizer.authorize_eq_ok {a : Authorizer} {b : Biscuit} {u : Unit} :
    a.authorize b = .ok u ↔
      (∃ p, a.matched b = some p ∧ p.allow = true) ∧
        ∀ c ∈ b.checks, c.holds (a.visible b) = true := by
  have hchecks : (a.failedChecks b).isEmpty = true ↔
      ∀ c ∈ b.checks, c.holds (a.visible b) = true := by
    simp [failedChecks, List.isEmpty_iff, List.filter_eq_nil_iff]
  have hallow : ((a.matched b).map Policy.allow).getD false = true ↔
      ∃ p, a.matched b = some p ∧ p.allow = true := by
    cases a.matched b with
    | none => simp
    | some p => simp
  rw [authorize, ← hchecks, ← hallow, ← Bool.and_eq_true]
  split
  · next h => simp [h]
  · next h => simp [h]

end Biscuit

/-! ### The library -/

/-- A character that printing a string leaves as it is: printable ASCII other than the
quote and the backslash. -/
def isPlainChar (c : Char) : Bool :=
  0x20 ≤ c.toNat && c.toNat ≤ 0x7e && c != '\x22' && c != '\\'

/-- The parts of the library that stay parameters. -/
structure BiscuitLib (Text : Type) where
  /-- The public key of a private one. -/
  publicKey : PrivateKey → PublicKey
  /-- `UnverifiedBiscuit.from_base64(token).root_key_id()`, unless it raises. -/
  rootKeyId : Text → Option (Option ℤ)
  /-- `Biscuit.from_base64(token, key)`, unless it raises. -/
  fromBase64 : Text → PublicKey → Option Biscuit
  /-- `biscuit.to_base64()`. -/
  toBase64 : Biscuit → Text
  /-- A value, as block sources print it. -/
  printValue : Value → String
  /-- `str(term)`. -/
  strValue : Value → String
  rootKeyId_toBase64 : ∀ b, rootKeyId (toBase64 b) = some b.rootKeyId
  fromBase64_toBase64 : ∀ b key,
    fromBase64 (toBase64 b) key = if key = b.rootKey then some b else none
  printValue_str : ∀ s : String, (∀ c ∈ s.toList, isPlainChar c = true) →
    printValue (.str s) = "\"" ++ s ++ "\""
  strValue_str : ∀ s, strValue (.str s) = s

namespace BiscuitLib

variable {Text : Type} (lib : BiscuitLib Text)

/-- A term, as block sources print it. -/
def printTerm : Term Value → String
  | .val v => lib.printValue v
  | .var x => "$" ++ x

/-- A fact, as block sources print it. -/
def printFact (f : Fact Value) : String :=
  f.name ++ "(" ++ ", ".intercalate (f.terms.map lib.printValue) ++ ")"

def printAtom (a : Atom Value) : String :=
  a.name ++ "(" ++ ", ".intercalate (a.terms.map lib.printTerm) ++ ")"

def printExpr : Expr → String
  | .eq a b => lib.printTerm a ++ " == " ++ lib.printTerm b
  | .startsWith a b => lib.printTerm a ++ ".starts_with(" ++ lib.printTerm b ++ ")"
  | .lt a b => lib.printTerm a ++ " < " ++ lib.printTerm b
  | .const b => if b then "true" else "false"

def printClause (c : Clause) : String :=
  ", ".intercalate (c.atoms.map lib.printAtom ++ c.exprs.map lib.printExpr)

/-- A check, as block sources and error messages print it. -/
def printCheck (c : Check) : String :=
  "check if " ++ " or ".intercalate (c.clauses.map lib.printClause)

/-- The library whose token texts are the tokens themselves. -/
def transparent : BiscuitLib Biscuit where
  publicKey key := key
  rootKeyId b := some b.rootKeyId
  fromBase64 b key := if key = b.rootKey then some b else none
  toBase64 b := b
  printValue
    | .str s => "\"" ++ s ++ "\""
    | .int n => String.ofList (Decimal.intText n)
    | .date t => String.ofList (Decimal.intText t)
  strValue
    | .str s => s
    | .int n => String.ofList (Decimal.intText n)
    | .date t => String.ofList (Decimal.intText t)
  rootKeyId_toBase64 _ := rfl
  fromBase64_toBase64 _ _ := rfl
  printValue_str _ _ := rfl
  strValue_str _ := rfl

/-- Two tokens with one text are the same token. -/
theorem toBase64_injective : Function.Injective lib.toBase64 := by
  intro b b' h
  have hb := lib.fromBase64_toBase64 b b.rootKey
  rw [if_pos rfl, h, lib.fromBase64_toBase64] at hb
  split at hb
  · exact (Option.some.inj hb).symm
  · exact absurd hb (by simp)

end BiscuitLib

namespace Biscuit

/-! ### Builders -/

/-- `BlockBuilder`. -/
structure BlockBuilder where
  facts : Facts
  checks : List Check

/-- The block of a builder: each fact and each check on its own line of the source. A
check sees the facts of its block besides the visible ones. -/
def BlockBuilder.build {Text : Type} (lib : BiscuitLib Text) (block : BlockBuilder)
    (revocationId : String) : Block where
  source := String.join ((block.facts.map lib.printFact ++ block.checks.map lib.printCheck).map
    fun line => line ++ ";\n")
  checks := block.checks.map fun c => ⟨lib.printCheck c, fun visible =>
    c.holds (visible ++ block.facts)⟩
  revocationId := revocationId

/-- `BiscuitBuilder`. -/
structure Builder where
  facts : Facts
  checks : List Check
  rootKeyId : Option ℤ

/-- `builder.build(private_key)`. -/
def Builder.build {Text : Type} (lib : BiscuitLib Text) (builder : Builder) (key : PrivateKey)
    (revocationId : String) : Biscuit where
  rootKeyId := builder.rootKeyId
  rootKey := lib.publicKey key
  authority := builder.facts
  authorityChecks := builder.checks.map fun c => ⟨lib.printCheck c, fun visible => c.holds visible⟩
  authorityId := revocationId
  blocks := []

end Biscuit

end HeadOfContext
