import HeadOfContext.Core.Refs
import HeadOfContext.Framework.FrozenSet
import Mathlib.Data.Prod.Lex

/-!
# Capabilities and scopes

A capability is a kind of operation and a resource pattern; a scope is a frozen set
of capabilities. `Capability.covers` and `Scope.isSubsetOf` compare them
syntactically. A capability carries the proof that its resource passed
`validate_resource_pattern`, as `__post_init__` checks it, and this is what makes
coverage transitive: with two stars in a resource it would not be.
-/

namespace HeadOfContext

open PyText

/-- The kinds of operation. -/
inductive Kind where
  | read | act | remember
  deriving DecidableEq, Repr

namespace Kind

/-- `str(kind)`. -/
def str : Kind → String
  | read => "read"
  | act => "act"
  | remember => "remember"

/-- `Kind(value)`, which raises `ValueError` on anything else. -/
def ofStr (value : String) : Option Kind :=
  if value = "read" then some read
  else if value = "act" then some act
  else if value = "remember" then some remember
  else none

@[simp] theorem ofStr_str (k : Kind) : ofStr k.str = some k := by
  cases k <;> decide

theorem str_injective : Function.Injective str := by
  intro a b h
  have h' : some a = some b := by rw [← ofStr_str a, h, ofStr_str]
  exact Option.some.inj h'

end Kind

/-- A capability. Its resource is a valid pattern, concrete or with a final star. -/
structure Capability where
  kind : Kind
  resource : String
  valid : isResourcePattern resource = true
  deriving DecidableEq

namespace Capability

/-- `Capability(kind, resource)`: raises `InvalidResource`. -/
def make (kind : Kind) (resource : String) : Except HocError Capability :=
  if h : isResourcePattern resource = true then .ok ⟨kind, resource, h⟩
  else .error (HocClass.invalidResource.error ("invalid resource pattern " ++ quoted resource))

theorem make_ok {k : Kind} {r : String} {c : Capability} (h : make k r = .ok c) :
    c.kind = k ∧ c.resource = r := by
  rw [make] at h
  split at h
  · obtain rfl := Except.ok.inj h
    exact ⟨rfl, rfl⟩
  · exact absurd h (by simp)

theorem make_self (c : Capability) : make c.kind c.resource = .ok c := by
  rw [make, dif_pos c.valid]

@[ext] theorem ext {a b : Capability} (hk : a.kind = b.kind) (hr : a.resource = b.resource) :
    a = b := by
  cases a
  cases b
  congr

/-- Capabilities are ordered as the tuples `(kind, resource)`. -/
instance : LinearOrder Capability :=
  LinearOrder.lift' (fun c => toLex (c.kind.str, c.resource)) fun a b h => by
    obtain ⟨hk, hr⟩ := Prod.mk.inj (toLex_inj.mp h)
    exact ext (Kind.str_injective hk) hr

/-- Whether the resource is a prefix pattern. -/
def isPattern (c : Capability) : Bool := endsWith c.resource "*"

/-- True if every resource matched by `other` is matched by `self`. -/
def covers (self other : Capability) : Bool :=
  if self.kind ≠ other.kind then false
  else if !self.isPattern then self.resource == other.resource
  else startsWith other.resource (dropLast self.resource)

theorem isPattern_iff {c : Capability} :
    c.isPattern = true ↔ ∃ p, c.resource.toList = p ++ ['*'] := by
  rw [isPattern, endsWith_iff]
  exact ⟨fun ⟨p, hp⟩ => ⟨p, hp.symm⟩, fun ⟨p, hp⟩ => ⟨p, hp.symm⟩⟩

/-- The only star of a pattern is its last character. -/
theorem star_notMem_dropLast {c : Capability} (h : c.isPattern = true) :
    '*' ∉ c.resource.toList.dropLast := by
  obtain ⟨p, hp⟩ := isPattern_iff.mp h
  obtain ⟨t, i, hbody, hne, ht, hi⟩ := isResourcePattern_shape c.valid
  rw [matchBody, hp, List.getLast?_append, if_neg (by simp)] at hbody
  -- the id ends in the star, so the star is what `stripStar` removes
  obtain ⟨i', x, rfl⟩ := List.eq_nil_or_concat i |>.resolve_left hne
  rw [List.concat_eq_append] at hbody hi
  rw [← List.cons_append, ← List.append_assoc] at hbody
  obtain ⟨hp', hx⟩ := List.append_inj' hbody rfl
  obtain rfl : '*' = x := by simpa using hx
  rw [hp, List.dropLast_concat, hp']
  rw [stripStar, List.getLast?_append, if_pos (by simp), List.dropLast_concat] at hi
  intro hmem
  rcases List.mem_append.mp hmem with hm | hm
  · exact absurd (isTypeName_mem ht hm) (by decide)
  · rcases List.mem_cons.mp hm with hm | hm
    · exact absurd hm (by decide)
    · exact absurd (hi _ hm) (by decide)

theorem covers_iff {a b : Capability} :
    a.covers b = true ↔ a.kind = b.kind ∧
      ((a.isPattern = false ∧ a.resource = b.resource) ∨
        (a.isPattern = true ∧ a.resource.toList.dropLast <+: b.resource.toList)) := by
  rw [covers]
  by_cases hk : a.kind = b.kind
  · rw [if_neg (not_not.mpr hk)]
    cases hp : a.isPattern with
    | false => simp [hk]
    | true => simp [hk, startsWith_iff]
  · simp [hk]

/-- Coverage is reflexive. -/
theorem covers_refl (a : Capability) : a.covers a = true := by
  rw [covers_iff]
  refine ⟨rfl, ?_⟩
  cases hp : a.isPattern with
  | false => exact .inl ⟨rfl, rfl⟩
  | true => exact .inr ⟨rfl, List.dropLast_prefix _⟩

/-- **Coverage is transitive.** The one interesting case is a pattern inside a
pattern: the outer prefix cannot reach into the star of the inner one. -/
theorem covers_trans {a b c : Capability} (hab : a.covers b = true) (hbc : b.covers c = true) :
    a.covers c = true := by
  rw [covers_iff] at hab hbc ⊢
  obtain ⟨hk, hab⟩ := hab
  obtain ⟨hk', hbc⟩ := hbc
  refine ⟨hk.trans hk', ?_⟩
  rcases hab with ⟨hpa, hr⟩ | ⟨hpa, hpre⟩
  · -- an exact capability covers nothing but itself
    have hpb : b.isPattern = false := by rw [← hpa, isPattern, isPattern, hr]
    rcases hbc with ⟨-, hr'⟩ | ⟨hpb', -⟩
    · exact .inl ⟨hpa, hr.trans hr'⟩
    · rw [hpb] at hpb'
      exact absurd hpb' (by decide)
  · refine .inr ⟨hpa, ?_⟩
    rcases hbc with ⟨-, hr'⟩ | ⟨hpb, hpre'⟩
    · rwa [← hr']
    · obtain ⟨p, hp⟩ := isPattern_iff.mp hpb
      rw [hp, List.dropLast_concat] at hpre'
      rw [hp] at hpre
      rcases List.prefix_concat_iff.mp hpre with heq | hpre
      · refine absurd ?_ (star_notMem_dropLast hpa)
        rw [heq]
        exact List.mem_append_right _ (List.mem_singleton.mpr rfl)
      · exact hpre.trans hpre'

end Capability

/-- A frozen set of capabilities. -/
structure Scope where
  capabilities : FrozenSet Capability
  deriving DecidableEq

namespace Scope

/-- `Scope.empty()`. -/
def empty : Scope := ⟨.empty⟩

/-- `Scope.from_iterable(caps)`. -/
def fromIterable (caps : List Capability) : Scope := ⟨.ofList caps⟩

/-- `sorted(scope)`. -/
def sorted (s : Scope) : List Capability := s.capabilities.items

/-- Some capability of the scope covers `cap`. -/
def covers (s : Scope) (cap : Capability) : Bool := s.sorted.any (·.covers cap)

/-- Every capability of the scope is covered by `other`. -/
def isSubsetOf (s other : Scope) : Bool := s.sorted.all other.covers

@[simp] theorem fromIterable_sorted (s : Scope) : fromIterable s.sorted = s := by
  cases s
  simp [fromIterable, sorted]

/-- Scopes with the same capabilities are equal. -/
protected theorem ext {s t : Scope} (h : ∀ cap, cap ∈ s.sorted ↔ cap ∈ t.sorted) : s = t := by
  cases s
  cases t
  exact congrArg Scope.mk (FrozenSet.ext h)

theorem mem_sorted_fromIterable {c : Capability} {caps : List Capability} :
    c ∈ (fromIterable caps).sorted ↔ c ∈ caps :=
  FrozenSet.mem_ofList

theorem covers_iff {s : Scope} {cap : Capability} :
    s.covers cap = true ↔ ∃ own ∈ s.sorted, own.covers cap = true := by
  simp [covers]

theorem isSubsetOf_iff {s t : Scope} :
    s.isSubsetOf t = true ↔ ∀ cap ∈ s.sorted, t.covers cap = true := by
  simp [isSubsetOf]

/-- A wider scope covers whatever a narrower one covers. -/
theorem covers_of_isSubsetOf {s t : Scope} {cap : Capability} (hst : s.isSubsetOf t = true)
    (hc : s.covers cap = true) : t.covers cap = true := by
  obtain ⟨own, hown, hcov⟩ := covers_iff.mp hc
  obtain ⟨own', hown', hcov'⟩ := covers_iff.mp (isSubsetOf_iff.mp hst own hown)
  exact covers_iff.mpr ⟨own', hown', Capability.covers_trans hcov' hcov⟩

theorem isSubsetOf_refl (s : Scope) : s.isSubsetOf s = true :=
  isSubsetOf_iff.mpr fun cap hcap => covers_iff.mpr ⟨cap, hcap, Capability.covers_refl cap⟩

theorem isSubsetOf_trans {s t u : Scope} (hst : s.isSubsetOf t = true)
    (htu : t.isSubsetOf u = true) : s.isSubsetOf u = true :=
  isSubsetOf_iff.mpr fun cap hcap => covers_of_isSubsetOf htu (isSubsetOf_iff.mp hst cap hcap)

end Scope

end HeadOfContext
