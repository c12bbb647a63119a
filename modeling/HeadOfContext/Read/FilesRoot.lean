import HeadOfContext.Read.Files

/-!
# A snapshot and the place of its tree

`snapshot` looks for dots in the whole path of a file and not in the part below the root, so a
root with a dotted component, a hidden directory or `..`, hides every file of the tree. That is
the only way in which the root comes in: `root_independent_iff`.
-/

namespace HeadOfContext

open PosixPath Except

namespace FilesConnector

/-- The connector over another root. -/
def moved (c : FilesConnector) (root : List String) : FilesConnector := { c with root := root }

/-- The file is a manifest, or one of its components below the root starts with a dot. -/
def Unlisted (c : FilesConnector) (file : List String) : Prop :=
  file.getLast? = some c.manifestName ∨ ∃ part ∈ file, isDotted part = true

/-- A component of the root starts with a dot. -/
def HiddenRoot (root : List String) : Prop := ∃ part ∈ root, isDotted part = true

variable {strOf : Json → String} {c : FilesConnector} {tree : FileTree} {root : List String}
  {file : List String}

/-- The dots are looked for in the whole path. -/
theorem skips_append (h : IsRelative file) :
    c.skips (c.root ++ file) = true ↔ HiddenRoot c.root ∨ c.Unlisted file := by
  have hlast : (c.root ++ file).getLast? = file.getLast? :=
    List.getLast?_append_of_ne_nil _ h.1
  rw [skips, hlast, Bool.or_eq_true, beq_iff_eq, List.any_append, Bool.or_eq_true,
    List.any_eq_true, List.any_eq_true]
  constructor
  · rintro (hname | hroot | hfile)
    · exact .inr (.inl hname)
    · exact .inl hroot
    · exact .inr (.inr hfile)
  · rintro (hroot | hname | hfile)
    · exact .inr (.inl hroot)
    · exact .inl hname
    · exact .inr (.inr hfile)

/-- The files that are listed, in the order of the tree below the root. -/
theorem listed_eq :
    c.listed tree = (sorted tree.files).filter fun file => !c.skips (c.root ++ file) := by
  rw [listed, paths, sorted_append, List.filter_map, List.map_map]
  calc ((sorted tree.files).filter fun file => !c.skips (c.root ++ file)).map
        ((fun path => path.drop c.root.length) ∘ (c.root ++ ·))
      = ((sorted tree.files).filter fun file => !c.skips (c.root ++ file)).map id :=
        List.map_congr_left fun file _ => List.drop_left
    _ = _ := List.map_id _

/-- **What is listed**: the files of the tree that are neither manifests nor behind a dot, if the
root is not hidden. -/
theorem mem_listed : file ∈ c.listed tree ↔
    file ∈ tree.files ∧ ¬ HiddenRoot c.root ∧ ¬ c.Unlisted file := by
  rw [listed_eq, List.mem_filter, mem_sorted]
  refine and_congr_right fun hfile => ?_
  rw [Bool.not_eq_true', ← Bool.not_eq_true, skips_append (tree.relative file hfile), not_or]

/-- Two roots list the same files, when each of them is not hidden or nothing is to be listed. -/
theorem listed_moved {root' : List String}
    (h : ¬ HiddenRoot root ∨ ∀ file ∈ tree.files, c.Unlisted file)
    (h' : ¬ HiddenRoot root' ∨ ∀ file ∈ tree.files, c.Unlisted file) :
    (c.moved root).listed tree = (c.moved root').listed tree := by
  rw [listed_eq, listed_eq]
  apply List.filter_congr
  intro file hfile
  rw [mem_sorted] at hfile
  have hskips : ∀ r, (¬ HiddenRoot r ∨ ∀ file ∈ tree.files, c.Unlisted file) →
      ((c.moved r).skips (r ++ file) = true ↔ c.Unlisted file) := by
    intro r hr
    rw [show r ++ file = (c.moved r).root ++ file from rfl, skips_append (tree.relative file hfile)]
    rcases hr with hr | hr
    · exact or_iff_right hr
    · exact ⟨fun _ => hr file hfile, .inr⟩
  exact congrArg not (Bool.eq_iff_iff.mpr ((hskips root h).trans (hskips root' h').symm))

/-- Where the same files are listed, the snapshots are the same. -/
theorem snapshot_moved {root' : List String}
    (h : (c.moved root).listed tree = (c.moved root').listed tree) :
    (c.moved root).snapshot strOf tree = (c.moved root').snapshot strOf tree := by
  unfold snapshot
  rw [h]
  rfl

/-- The files that a connector skips are the manifests and what lies behind a dot below the
root. -/
def SkipsBelow (c : FilesConnector) (tree : FileTree) (root : List String) : Prop :=
  ∀ file ∈ tree.files, (c.moved root).skips (root ++ file) = true ↔ c.Unlisted file

theorem skipsBelow_iff : c.SkipsBelow tree root ↔
    ¬ HiddenRoot root ∨ ∀ file ∈ tree.files, c.Unlisted file := by
  have hskips : ∀ file ∈ tree.files, ((c.moved root).skips (root ++ file) = true ↔
      HiddenRoot root ∨ c.Unlisted file) :=
    fun file hfile => skips_append (c := c.moved root) (tree.relative file hfile)
  constructor
  · intro h
    by_cases hroot : HiddenRoot root
    · exact .inr fun file hfile => (h file hfile).mp ((hskips file hfile).mpr (.inl hroot))
    · exact .inl hroot
  · rintro (hroot | hall) file hfile
    · exact (hskips file hfile).trans (or_iff_right hroot)
    · exact (hskips file hfile).trans ⟨fun _ => hall file hfile, .inr⟩

/-- **A snapshot depends on the root only by its dots.** Over two roots of one tree the snapshots
are the same, and each skips exactly the manifests and what lies behind a dot below the root, if
and only if neither root has a component that starts with a dot (or every file of the tree is
to be skipped). -/
theorem root_independent_iff (strOf : Json → String) (c : FilesConnector) (tree : FileTree)
    (root root' : List String) :
    ((c.moved root).snapshot strOf tree = (c.moved root').snapshot strOf tree ∧
        c.SkipsBelow tree root ∧ c.SkipsBelow tree root') ↔
      (¬ HiddenRoot root ∧ ¬ HiddenRoot root') ∨ ∀ file ∈ tree.files, c.Unlisted file := by
  rw [skipsBelow_iff, skipsBelow_iff]
  constructor
  · rintro ⟨-, h, h'⟩
    rcases h with h | hall
    · rcases h' with h' | hall
      · exact .inl ⟨h, h'⟩
      · exact .inr hall
    · exact .inr hall
  · intro h
    have hroot : ¬ HiddenRoot root ∨ ∀ file ∈ tree.files, c.Unlisted file := h.imp_left And.left
    have hroot' : ¬ HiddenRoot root' ∨ ∀ file ∈ tree.files, c.Unlisted file := h.imp_left And.right
    exact ⟨snapshot_moved (listed_moved hroot hroot'), hroot, hroot'⟩

/-! ### One tree from two directories -/

/-- A text of the manifest. -/
def manifestText (text : String) : Json := .str (.ofString text)

/-- One document in a folder with a source. -/
def acmeTree : FileTree where
  files := [["rh", "acme-0001.md"]]
  manifest := some (.ok (.obj [(.ofString "folders", .obj [(.ofString "rh",
    .obj [(.ofString "source", manifestText "source:files-rh")])])]))
  nodup := by decide
  relative := by decide

/-- A connector over an absolute root. -/
def acmeFiles : FilesConnector := ⟨["/", "srv", "acme"], "files-acme", .stem, "hoc-acl.json"⟩

/-- How many documents a snapshot has, if there is one. -/
def documentCount : Except Exn Snapshot → Option ℕ
  | .error _ => none
  | .ok snap => some snap.documents.length

/-- The tree that a connector sees from next door is empty. -/
theorem hidden_root_lists_nothing :
    ¬ ((acmeFiles.moved ["/", "srv", "acme"]).snapshot (fun _ => "") acmeTree =
          (acmeFiles.moved ["..", "acme"]).snapshot (fun _ => "") acmeTree ∧
        acmeFiles.SkipsBelow acmeTree ["/", "srv", "acme"] ∧
        acmeFiles.SkipsBelow acmeTree ["..", "acme"]) := by
  rintro ⟨hsame, -⟩
  have hseen : documentCount
    ((acmeFiles.moved ["/", "srv", "acme"]).snapshot (fun _ => "") acmeTree)
      = some 1 := by decide +kernel
  have hhidden : documentCount ((acmeFiles.moved ["..", "acme"]).snapshot (fun _ => "") acmeTree)
      = some 0 := by decide +kernel
  rw [hsame, hhidden] at hseen
  exact absurd hseen (by decide)

end FilesConnector

end HeadOfContext
