import HeadOfContext.Framework.FrozenSet
import Mathlib.Data.Prod.Lex
import Mathlib.Data.String.Basic

/-!
# Relationship tuples

`Tuple` is `(user, relation, object)`, in the order of OpenFGA. Tuples are compared as Python
compares them, component by component.
-/

namespace HeadOfContext

/-- `Tuple`. -/
structure Tuple where
  user : String
  relation : String
  obj : String
  deriving DecidableEq, Repr

namespace Tuple

instance : LinearOrder Tuple :=
  LinearOrder.lift' (fun t => toLex (t.user, toLex (t.relation, t.obj))) fun a b h => by
    obtain ⟨huser, hrest⟩ := Prod.mk.inj (toLex_inj.mp h)
    obtain ⟨hrelation, hobj⟩ := Prod.mk.inj (toLex_inj.mp hrest)
    cases a
    cases b
    congr

end Tuple

end HeadOfContext
