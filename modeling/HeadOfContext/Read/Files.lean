import HeadOfContext.Core.Events
import HeadOfContext.Core.Grammar
import HeadOfContext.Framework.Except
import HeadOfContext.Framework.JsonRead
import HeadOfContext.Framework.PosixPath
import HeadOfContext.Read.Connectors

/-!
# The files connector

A directory tree and its manifest become the tuples and documents of a snapshot. The manifest
is any JSON value, its objects with their members in the order of the file; what the code does
with a value of another shape than it expects is an exception here too. A parameter, `strOf`,
is `str(value)` of a value that is no text.
-/

namespace HeadOfContext

open PyText PosixPath Except

/-- `principal`: users as they are, groups through their `member` userset. -/
def principal (ref : String) : Except HocError String :=
  if startsWith ref "group:" then do
    let _ ← validateRef ref "group"
    return ref ++ "#member"
  else validateRef ref "user"

/-! ### The values of the manifest -/

namespace ManifestValue

variable (strOf : Json → String)

/-- `d.get(key, default)`, which only a dictionary has. -/
def dictGet (d : Json) (key : PyStr) (default : Json) : Except Exn Json :=
  match d with
  | .obj _ => .ok ((d.get key).getD default)
  | _ => .error (.other "AttributeError")

/-- `d.values()`. -/
def values : Json → Except Exn (List Json)
  | .obj ms => .ok (ms.map Prod.snd)
  | _ => .error (.other "AttributeError")

/-- `for item in value`. -/
def items : Json → Except Exn (List Json)
  | .arr xs => .ok xs
  | .obj ms => .ok (ms.map fun m => .str m.1)
  | .str s => .ok (s.map fun c => .str [c])
  | _ => .error (.other "TypeError")

/-- `str(value)`. -/
def str : Json → String
  | .str s => (PyStr.text s).getD (strOf (.str s))
  | value => strOf value

/-- `_principal`. -/
def principalOf (ref : Json) : Except Exn String :=
  match principal (str strOf ref) with
  | .ok user => .ok user
  | .error exc =>
    if exc.cls.isInvariantViolation then .error (.other "ValueError") else .error (.hoc exc)

/-- `for ref in spec.get(key, []): tuples.add((_principal(ref), relation, obj))`. -/
def grants (spec : Json) (key relation obj : String) : Except Exn (List Tuple) := do
  let refs ← items (← dictGet spec (.ofString key) (.arr []))
  let users ← refs.mapM (principalOf strOf)
  return users.map fun user => ⟨user, relation, obj⟩

end ManifestValue

open ManifestValue

/-! ### The tree -/

/-- The files below a root, by the names on the way to each, and what the manifest file holds:
nothing where it is no file, and otherwise what `json.loads` makes of its text. -/
structure FileTree where
  files : List (List String)
  manifest : Option (Except Exn Json)
  nodup : files.Nodup
  relative : ∀ file ∈ files, IsRelative file

/-- The two keys of the manifest. -/
structure Manifest where
  folders : Json
  documents : Json

/-- `_load_manifest`, and the two keys that `snapshot` reads. -/
def FileTree.loadManifest (tree : FileTree) : Except Exn Manifest :=
  match tree.manifest with
  | none => .error (.other "FileNotFoundError")
  | some data => do
    match ← data with
    | .obj ms =>
      let folders ← dictGet (.obj ms) (.ofString "folders") (.obj [])
      let documents ← dictGet (.obj ms) (.ofString "documents") (.obj [])
      return ⟨folders, documents⟩
    | _ => .error (.other "ValueError")

inductive IdStrategy where
  | stem | path
  deriving DecidableEq, Repr

/-- `FilesConnector`, with the components of its root. -/
structure FilesConnector where
  root : List String
  name : String
  idStrategy : IdStrategy
  manifestName : String

/-- `part.startswith(".")`. -/
def isDotted (part : String) : Bool := startsWith part "."

/-- `_nearest_folder`, over the parts of a path without its last one, the innermost first. -/
def nearestOf (folders : Json) : List String → Option String
  | [] => none
  | part :: outer =>
    let candidate := asPosix (part :: outer).reverse
    if (folders.get (.ofString candidate)).isSome then some candidate else nearestOf folders outer

/-- `_nearest_folder`. -/
def nearestFolder (folders : Json) (rel : String) : Option String :=
  nearestOf folders (splitSlash rel).dropLast.reverse

namespace FilesConnector

variable (strOf : Json → String) (c : FilesConnector)

/-- What `_document_id` puts behind `document:`. -/
def candidate (file : List String) : String :=
  match c.idStrategy with
  | .path => beforeLast '.' (asPosix file)
  | .stem => stem (file.getLast?.getD "")

/-- `_document_id`. -/
def documentId (file : List String) : Except HocError String :=
  validateRef ("document:" ++ c.candidate file) "document"

/-- The loop's `continue`: of a path, the manifests and what lies behind a dot. -/
def skips (path : List String) : Bool :=
  path.getLast? == some c.manifestName || path.any isDotted

/-- The tuples of a folder. -/
def folderTuples (spec : Json) : Except Exn (List Tuple) := do
  let source ← dictGet spec (.ofString "source") .null
  match source with
  | .null => return []
  | source => do
    let text := str strOf source
    let _ ← (validateRef text "source").mapError .hoc
    let viewers ← grants strOf spec "viewers" "viewer" text
    let editors ← grants strOf spec "editors" "editor" text
    return viewers ++ editors

/-- The source of a file: that of its nearest folder. -/
def sourceOf (folders : Json) (rel : String) : Except Exn (Option String) :=
  match nearestFolder folders rel with
  | none => .ok none
  | some folder => do
    let source ← dictGet ((folders.get (.ofString folder)).getD .null) (.ofString "source") .null
    match source with
    | .null => return none
    | source => return some (str strOf source)

/-- What the loop does with a file: its tuples and its document. -/
def fileEntry (manifest : Manifest) (file : List String) :
    Except Exn (List Tuple × DocumentMeta) := do
  let rel := asPosix file
  let source ← sourceOf strOf manifest.folders rel
  let docId ← (c.documentId file).mapError .hoc
  let parents := source.toList.map fun source => ⟨source, "parent", docId⟩
  let viewers ← grants strOf
    (← dictGet manifest.documents (.ofString rel) (.obj [])) "viewers" "viewer"
    docId
  let editors ← grants strOf
    (← dictGet manifest.documents (.ofString rel) (.obj [])) "editors" "editor"
    docId
  return (parents ++ viewers ++ editors, ⟨docId, stem (file.getLast?.getD ""), rel, source⟩)

/-- `sorted(p for p in self._root.rglob("*") if p.is_file())`. -/
def paths (tree : FileTree) : List (List String) := sorted (tree.files.map (c.root ++ ·))

/-- The files that the loop does not skip, as paths below the root. -/
def listed (tree : FileTree) : List (List String) :=
  ((c.paths tree).filter fun path => !c.skips path).map fun path => path.drop c.root.length

/-- `snapshot`. -/
def snapshot (tree : FileTree) : Except Exn Snapshot := do
  let manifest ← tree.loadManifest
  let ofFolders ← (← values manifest.folders).mapM (folderTuples strOf)
  let ofFiles ← (c.listed tree).mapM (c.fileEntry strOf manifest)
  return ⟨.ofList (ofFolders.flatten ++ (ofFiles.map Prod.fst).flatten), ofFiles.map Prod.snd⟩

end FilesConnector

end HeadOfContext
