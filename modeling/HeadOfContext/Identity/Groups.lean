import HeadOfContext.Core.Refs
import HeadOfContext.Framework.OffsetPages
import HeadOfContext.Read.Connectors

/-!
# The groups of a realm

`KeycloakGroupsConnector` reads the groups of a realm, page by page, and the members of each.
A listed group carries the number of its subgroups, and the subgroups themselves or none; those
that come without are asked for. The list of groups to ask about is taken once, before the
answers are added to it.
-/

namespace HeadOfContext

open OffsetPages

/-! ### The admin API -/

/-- A group, as the admin API lists it. -/
inductive GroupDict where
  | mk (id path : String) (subGroupCount : ℕ) (subGroups : List GroupDict)

namespace GroupDict

def id : GroupDict → String | .mk id _ _ _ => id

def path : GroupDict → String | .mk _ path _ _ => path

def subGroupCount : GroupDict → ℕ | .mk _ _ count _ => count

def subGroups : GroupDict → List GroupDict | .mk _ _ _ subs => subs

end GroupDict

/-- A member of a group, as the admin API lists it: its `username`, where that is a string, and
whether its `enabled` is true or missing. -/
structure Member where
  username : Option String
  enabled : Bool
  deriving DecidableEq

/-- The answers of the admin API: to the login, and to the requests for a page of groups, the
children of a group and a page of its members. -/
structure Keycloak where
  login : Except HocError Unit
  groups : ℕ → Except HocError (List GroupDict)
  children : String → Except HocError (List GroupDict)
  members : String → ℕ → Except HocError (List Member)

/-! ### The connector -/

namespace KeycloakGroupsConnector

mutual

/-- `_flatten`: the group, and the groups inside it. -/
def flatten : GroupDict → List GroupDict
  | .mk id path count subs => .mk id path count subs :: flattenAll subs

/-- `_flatten` of each group in turn. -/
def flattenAll : List GroupDict → List GroupDict
  | [] => []
  | d :: ds => flatten d ++ flattenAll ds

end

/-- The subgroups were not listed with the group. -/
def toLoad (group : GroupDict) : Bool := 0 < group.subGroupCount && group.subGroups.isEmpty

variable (api : Keycloak) (fuel : ℕ)

/-- `_all_groups`. -/
def allGroups : Requests HocError (List GroupDict) := do
  let listed ← fetchPages 100 api.groups fuel 0
  let flat := flattenAll listed
  let children ← (flat.filter toLoad).mapM fun group => answer (api.children group.id)
  return flat ++ flattenAll children.flatten

/-- `path.strip("/")`. -/
def stripSlashes (path : String) : String :=
  String.ofList ((path.toList.dropWhile (· == '/')).reverse.dropWhile (· == '/')).reverse

/-- `_group_ref`. -/
def groupRef (path : String) : Except HocError String :=
  validateRef ("group:" ++ stripSlashes path) "group"

/-- The tuple of a member, unless the member is disabled or not well named. -/
def memberTuple (ref : String) (member : Member) : Option Tuple :=
  match member.username with
  | none => none
  | some username =>
    if member.enabled then
      match validateRef ("user:" ++ username) "user" with
      | .ok user => some ⟨user, "member", ref⟩
      | .error _ => none
    else none

/-- The tuples of a group. -/
def groupTuples (group : GroupDict) : Requests HocError (List Tuple) := do
  let ref ← answer (groupRef group.path)
  let members ← fetchPages 100 (api.members group.id) fuel 0
  return members.filterMap (memberTuple ref)

/-- `snapshot`. -/
def snapshot : Requests HocError Snapshot := do
  answer api.login
  let groups ← allGroups api fuel
  let tuples ← groups.mapM (groupTuples api fuel)
  return ⟨.ofList tuples.flatten, []⟩

end KeycloakGroupsConnector

/-! ### A realm -/

/-- A group with its subgroups. Where it is listed, a `lazy` group comes without them. -/
inductive GroupTree where
  | node (id path : String) (lazy : Bool) (children : List GroupTree)

namespace GroupTree

def id : GroupTree → String | .node id _ _ _ => id

def path : GroupTree → String | .node _ path _ _ => path

def children : GroupTree → List GroupTree | .node _ _ _ children => children

/-- The subgroups of the group have to be asked for. -/
def lazyParent : GroupTree → Bool | .node _ _ lazy children => lazy && !children.isEmpty

mutual

/-- How the group is listed. -/
def rep : GroupTree → GroupDict
  | .node id path lazy children => .mk id path children.length (if lazy then [] else reps children)

/-- How the groups are listed. -/
def reps : List GroupTree → List GroupDict
  | [] => []
  | t :: ts => rep t :: reps ts

end

mutual

/-- The group and every group below it. -/
def all : GroupTree → List GroupTree
  | .node id path lazy children => .node id path lazy children :: allOf children

/-- The groups and every group below them. -/
def allOf : List GroupTree → List GroupTree
  | [] => []
  | t :: ts => all t ++ allOf ts

end

end GroupTree

open GroupTree

/-- A realm: its top-level groups, with the members of each group. The ids are different. -/
structure Realm where
  top : List GroupTree
  members : String → List Member
  distinct : ((allOf top).map GroupTree.id).Nodup

namespace Realm

/-- Every group of the realm. -/
def groups (realm : Realm) : List GroupTree := allOf realm.top

/-- The group with the id. -/
def find (realm : Realm) (id : String) : Option GroupTree :=
  realm.groups.find? fun t => decide (t.id = id)

/-- The admin API of the realm: groups and members in pages of 100, children all at once. -/
def api (realm : Realm) : Keycloak where
  login := .ok ()
  groups first := .ok (((realm.top.map rep).drop first).take 100)
  children id := .ok (((realm.find id).map fun t => t.children.map rep).getD [])
  members id first := .ok (((realm.members id).drop first).take 100)

end Realm

end HeadOfContext
