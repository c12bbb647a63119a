import HeadOfContext.Read.Files

/-!
# Document ids and the files they stand for

The id of a document is cut out of the name of its file: the name without its extension, or
the path below the root up to its last dot. Two files with one id share their grants. When a
snapshot succeeds, the ids are different, and the grants on each of them are those of one file,
exactly when no two listed files are cut to the same text (`own_grants_iff`).
-/

namespace HeadOfContext

open PyText PosixPath Except ManifestValue

variable {strOf : Json → String} {c : FilesConnector} {tree : FileTree} {snap : Snapshot}
  {manifest : Manifest} {file : List String}

/-! ### What a snapshot is made of -/

/-- The grants of an entry are about the one object, with the one relation. -/
theorem mem_grants {spec : Json} {key relation obj : String} {ts : List Tuple} {t : Tuple}
    (h : grants strOf spec key relation obj = .ok ts) (ht : t ∈ ts) :
    t.relation = relation ∧ t.obj = obj := by
  obtain ⟨value, -, h⟩ := bind_eq_ok.mp h
  obtain ⟨refs, -, h⟩ := bind_eq_ok.mp h
  obtain ⟨users, -, h⟩ := bind_eq_ok.mp h
  obtain rfl := Except.ok.inj h
  obtain ⟨user, -, rfl⟩ := List.mem_map.mp ht
  exact ⟨rfl, rfl⟩

namespace FilesConnector

theorem documentId_eq_ok {id : String} : c.documentId file = .ok id ↔
    isRef ("document:" ++ c.candidate file) "document" = true ∧
      id = "document:" ++ c.candidate file := validateRef_eq_ok

/-- The tuples of a folder are about its source. -/
theorem mem_folderTuples {spec : Json} {ts : List Tuple} {t : Tuple}
    (h : folderTuples strOf spec = .ok ts) (ht : t ∈ ts) : isRef t.obj "source" = true := by
  obtain ⟨source, -, h⟩ := bind_eq_ok.mp h
  split at h
  · obtain rfl := Except.ok.inj h
    exact absurd ht List.not_mem_nil
  · obtain ⟨_, hvalid, h⟩ := bind_eq_ok.mp h
    obtain ⟨viewers, hviewers, h⟩ := bind_eq_ok.mp h
    obtain ⟨editors, heditors, h⟩ := bind_eq_ok.mp h
    obtain rfl := Except.ok.inj h
    have href := (validateRef_eq_ok.mp (mapError_eq_ok.mp hvalid)).1
    rcases List.mem_append.mp ht with ht | ht
    · rwa [(mem_grants hviewers ht).2]
    · rwa [(mem_grants heditors ht).2]

/-- The tuple comes from the file's own entries: the source of its nearest folder, or an entry
under its own path. -/
def OwnGrant (strOf : Json → String) (manifest : Manifest) (rel : String) (t : Tuple) : Prop :=
  (t.relation = "parent" ∧ sourceOf strOf manifest.folders rel = .ok (some t.user)) ∨
    ∃ entry ts, dictGet manifest.documents (.ofString rel) (.obj []) = .ok entry ∧
      (grants strOf entry "viewers" "viewer" t.obj = .ok ts ∨
        grants strOf entry "editors" "editor" t.obj = .ok ts) ∧ t ∈ ts

/-- **What a file adds to a snapshot**: a document under its path, and its own grants on it. -/
theorem fileEntry_eq_ok {e : List Tuple × DocumentMeta}
    (h : c.fileEntry strOf manifest file = .ok e) :
    e.2.path = asPosix file ∧ c.documentId file = .ok e.2.id ∧
      ∀ t ∈ e.1, t.obj = e.2.id ∧ OwnGrant strOf manifest (asPosix file) t := by
  obtain ⟨source, hsource, h⟩ := bind_eq_ok.mp h
  obtain ⟨docId, hdocId, h⟩ := bind_eq_ok.mp h
  obtain ⟨entry, hentry, h⟩ := bind_eq_ok.mp h
  obtain ⟨viewers, hviewers, h⟩ := bind_eq_ok.mp h
  obtain ⟨entry', hentry', h⟩ := bind_eq_ok.mp h
  obtain rfl := Except.ok.inj (hentry.symm.trans hentry')
  obtain ⟨editors, heditors, h⟩ := bind_eq_ok.mp h
  obtain rfl := Except.ok.inj h
  refine ⟨rfl, mapError_eq_ok.mp hdocId, fun t ht => ?_⟩
  rcases List.mem_append.mp ht with ht | ht
  · rcases List.mem_append.mp ht with ht | ht
    · -- the parent
      obtain ⟨user, huser, rfl⟩ := List.mem_map.mp ht
      obtain rfl := Option.mem_toList.mp huser
      exact ⟨rfl, .inl ⟨rfl, hsource⟩⟩
    · have hobj := (mem_grants hviewers ht).2
      exact ⟨hobj, .inr ⟨entry, viewers, hentry, .inl (hobj ▸ hviewers), ht⟩⟩
  · have hobj := (mem_grants heditors ht).2
    exact ⟨hobj, .inr ⟨entry, editors, hentry, .inr (hobj ▸ heditors), ht⟩⟩

/-- **What a snapshot is made of**: one document for each listed file, and tuples on sources or
on the documents, from the entries of a file of that document. -/
structure MadeOf (strOf : Json → String) (c : FilesConnector) (tree : FileTree)
    (manifest : Manifest)
    (snap : Snapshot) : Prop where
  document : ∀ d ∈ snap.documents, ∃ file ∈ c.listed tree, d.path = asPosix file ∧
    c.documentId file = .ok d.id
  listed : ∀ file ∈ c.listed tree, ∃ d ∈ snap.documents, d.path = asPosix file ∧
    c.documentId file = .ok d.id
  tuples : ∀ t ∈ snap.tuples, isRef t.obj "source" = true ∨
    ∃ file ∈ c.listed tree, c.documentId file = .ok t.obj ∧
      OwnGrant strOf manifest (asPosix file) t

theorem madeOf (h : c.snapshot strOf tree = .ok snap) :
    ∃ manifest, tree.loadManifest = .ok manifest ∧ MadeOf strOf c tree manifest snap := by
  obtain ⟨manifest, hmanifest, h⟩ := bind_eq_ok.mp h
  obtain ⟨specs, -, h⟩ := bind_eq_ok.mp h
  obtain ⟨ofFolders, hfolders, h⟩ := bind_eq_ok.mp h
  obtain ⟨ofFiles, hfiles, h⟩ := bind_eq_ok.mp h
  obtain rfl := Except.ok.inj h
  refine ⟨manifest, hmanifest, ?_, ?_, ?_⟩
  · intro d hd
    obtain ⟨e, he, rfl⟩ := List.mem_map.mp hd
    obtain ⟨file, hfile, hentry⟩ := exists_of_mem_result hfiles he
    obtain ⟨hpath, hid, -⟩ := fileEntry_eq_ok hentry
    exact ⟨file, hfile, hpath, hid⟩
  · intro file hfile
    obtain ⟨e, he, hentry⟩ := exists_result_of_mem hfiles hfile
    obtain ⟨hpath, hid, -⟩ := fileEntry_eq_ok hentry
    exact ⟨e.2, List.mem_map_of_mem he, hpath, hid⟩
  · -- a tuple is of a folder's grants or of a file's own
    intro t ht
    rcases List.mem_append.mp (FrozenSet.mem_ofList.mp ht) with ht | ht
    · obtain ⟨ts, hts, ht⟩ := List.mem_flatten.mp ht
      obtain ⟨spec, -, hspec⟩ := exists_of_mem_result hfolders hts
      exact .inl (mem_folderTuples hspec ht)
    · obtain ⟨ts, hts, ht⟩ := List.mem_flatten.mp ht
      obtain ⟨e, he, rfl⟩ := List.mem_map.mp hts
      obtain ⟨file, hfile, hentry⟩ := exists_of_mem_result hfiles he
      obtain ⟨-, hid, htuples⟩ := fileEntry_eq_ok hentry
      obtain ⟨hobj, hown⟩ := htuples t ht
      exact .inr ⟨file, hfile, hobj ▸ hid, hown⟩

/-! ### One id for one file -/

/-- The text that the id of a file is made of: its name without the extension, or its path up to
the last dot. -/
def NamedBy (c : FilesConnector) (base : String) (file : List String) : Prop :=
  match c.idStrategy with
  | .stem => HasStem base (file.getLast?.getD "")
  | .path => CutTo '.' base (asPosix file)

theorem candidate_eq_iff {base : String} : c.candidate file = base ↔ c.NamedBy base file := by
  unfold candidate NamedBy
  cases c.idStrategy with
  | stem => exact stem_iff
  | path => exact beforeLast_iff

/-- No two listed files are cut to the same text. -/
def DistinctNames (c : FilesConnector) (tree : FileTree) : Prop :=
  ∀ file ∈ c.listed tree, ∀ file' ∈ c.listed tree, file ≠ file' →
    ¬ ∃ base, c.NamedBy base file ∧ c.NamedBy base file'

theorem distinctNames_iff : c.DistinctNames tree ↔
    ∀ file ∈ c.listed tree, ∀ file' ∈ c.listed tree, c.candidate file = c.candidate file' →
      file = file' := by
  constructor
  · intro h file hfile file' hfile' heq
    by_contra hne
    exact h file hfile file' hfile' hne ⟨_, candidate_eq_iff.mp rfl, candidate_eq_iff.mp heq.symm⟩
  · rintro h file hfile file' hfile' hne ⟨base, hbase, hbase'⟩
    rw [← candidate_eq_iff] at hbase hbase'
    exact hne (h file hfile file' hfile' (hbase.trans hbase'.symm))

/-- Two files with one id are cut to one text. -/
theorem candidate_eq_of_id {file' : List String} {id : String} (h : c.documentId file = .ok id)
    (h' : c.documentId file' = .ok id) : c.candidate file = c.candidate file' := by
  have heq := (documentId_eq_ok.mp h).2.symm.trans (documentId_eq_ok.mp h').2
  have hlist := congrArg String.toList heq
  rw [String.toList_append, String.toList_append] at hlist
  exact String.toList_inj.mp (List.append_cancel_left hlist)

theorem relative_of_listed (h : file ∈ c.listed tree) : IsRelative file := by
  obtain ⟨path, hpath, rfl⟩ := List.mem_map.mp h
  obtain ⟨file, hfile, rfl⟩ := List.mem_map.mp (mem_sorted.mp (List.mem_of_mem_filter hpath))
  rw [List.drop_left]
  exact tree.relative file hfile

/-- A source is no document. -/
theorem not_source_of_document {value : String} (hsource : isRef value "source" = true)
    (hdocument : isRef value "document" = true) : False := by
  obtain ⟨-, i, hi, -⟩ := isRef_iff.mp hsource
  obtain ⟨-, i', hi', -⟩ := isRef_iff.mp hdocument
  have heads := congrArg List.head? (hi.symm.trans hi')
  simp at heads

/-- **A file's grants are its own, unless its name is cut to that of another.** When a snapshot
succeeds, different documents have different ids, and every grant on a document comes from the
nearest folder of its file or from the file's own entry, if and only if no two listed files are
cut to the same text. -/
theorem own_grants_iff (h : c.snapshot strOf tree = .ok snap) :
    ((∀ d ∈ snap.documents, ∀ d' ∈ snap.documents, d.path ≠ d'.path → d.id ≠ d'.id) ∧
      ∃ manifest, tree.loadManifest = .ok manifest ∧
        ∀ d ∈ snap.documents, ∀ t ∈ snap.tuples, t.obj = d.id →
          OwnGrant strOf manifest d.path t) ↔ c.DistinctNames tree := by
  obtain ⟨manifest, hmanifest, hmade⟩ := madeOf h
  rw [distinctNames_iff]
  constructor
  · rintro ⟨hids, -⟩ file hfile file' hfile' heq
    obtain ⟨d, hd, hpath, hid⟩ := hmade.listed file hfile
    obtain ⟨d', hd', hpath', hid'⟩ := hmade.listed file' hfile'
    have hsame : d.path = d'.path := by
      by_contra hne
      refine hids d hd d' hd' hne ?_
      rw [(documentId_eq_ok.mp hid).2, (documentId_eq_ok.mp hid').2, heq]
    rw [hpath, hpath'] at hsame
    exact asPosix_injective (relative_of_listed hfile) (relative_of_listed hfile') hsame
  · intro hdistinct
    refine ⟨?_, manifest, hmanifest, ?_⟩
    · intro d hd d' hd' hne heq
      obtain ⟨file, hfile, hpath, hid⟩ := hmade.document d hd
      obtain ⟨file', hfile', hpath', hid'⟩ := hmade.document d' hd'
      have hsame := hdistinct file hfile file' hfile' (candidate_eq_of_id hid (heq ▸ hid'))
      exact hne (by rw [hpath, hpath', hsame])
    · intro d hd t ht hobj
      obtain ⟨file, hfile, hpath, hid⟩ := hmade.document d hd
      rcases hmade.tuples t ht with hsource | ⟨file', hfile', hid', hown⟩
      · -- the tuples of folders are about sources
        obtain ⟨href, hvalue⟩ := documentId_eq_ok.mp hid
        rw [hobj, hvalue] at hsource
        exact (not_source_of_document hsource href).elim
      · obtain rfl := hdistinct file hfile file' hfile' (candidate_eq_of_id hid (hobj ▸ hid'))
        rwa [hpath]

/-! ### Two notes -/

/-- A manifest with an open folder and one whose files have no source. -/
def openAndRestricted : Json :=
  .obj [(.ofString "folders", .obj [
    (.ofString "public", .obj [(.ofString "source", .str (.ofString "source:public"))]),
    (.ofString "restricted", .obj [(.ofString "source", .null)])])]

/-- A file in each of the two folders. -/
def twoFiles (openName restrictedName : String) (h : IsName openName) (h' : IsName restrictedName) :
    FileTree where
  files := [["public", openName], ["restricted", restrictedName]]
  manifest := some (.ok openAndRestricted)
  nodup := by simp
  relative := by
    intro file hfile
    have hdirs : IsName "public" ∧ IsName "restricted" := by decide
    rcases List.mem_cons.mp hfile with rfl | hfile
    · exact ⟨List.cons_ne_nil _ _, List.forall_mem_cons.mpr
        ⟨hdirs.1, List.forall_mem_cons.mpr ⟨h, fun _ hp => absurd hp List.not_mem_nil⟩⟩⟩
    · obtain rfl := List.mem_singleton.mp hfile
      exact ⟨List.cons_ne_nil _ _, List.forall_mem_cons.mpr
        ⟨hdirs.2, List.forall_mem_cons.mpr ⟨h', fun _ hp => absurd hp List.not_mem_nil⟩⟩⟩

/-- A connector that names documents by the stem. -/
def byStem : FilesConnector := ⟨["/", "srv", "acme"], "files-acme", .stem, "hoc-acl.json"⟩

/-- Two files with different stems. -/
theorem own_grants_iff_notes : ∃ snap,
    byStem.snapshot (fun _ => "") (twoFiles "notes.md" "board.md" (by decide) (by decide)) =
      .ok snap ∧
    ∀ d ∈ snap.documents, ∀ d' ∈ snap.documents, d.path ≠ d'.path → d.id ≠ d'.id := by
  have hok : (byStem.snapshot (fun _ => "") (twoFiles "notes.md" "board.md" (by decide)
      (by decide))).returns (fun _ => true) = true := by decide +kernel
  obtain ⟨snap, hsnap, -⟩ := returns_iff.mp hok
  have hdistinct : byStem.DistinctNames
      (twoFiles "notes.md" "board.md" (by decide) (by decide)) := by
    rw [distinctNames_iff]
    decide +kernel
  exact ⟨snap, hsnap, ((own_grants_iff hsnap).mpr hdistinct).1⟩

/-- What the two files come to when both are called `notes.md`. -/
def isMerged (snap : Snapshot) : Bool :=
  snap.documents = [⟨"document:notes", "notes", "public/notes.md", some "source:public"⟩,
      ⟨"document:notes", "notes", "restricted/notes.md", none⟩] ∧
    snap.tuples.items = [⟨"source:public", "parent", "document:notes"⟩]

/-- A restricted file is open when an open file has its name. -/
theorem open_file_opens_restricted : ∃ snap,
    byStem.snapshot (fun _ => "") (twoFiles "notes.md" "notes.md" (by decide) (by decide)) =
      .ok snap ∧
    ¬ (∀ d ∈ snap.documents, ∀ d' ∈ snap.documents, d.path ≠ d'.path → d.id ≠ d'.id) ∧
    ∃ d ∈ snap.documents, d.path = "restricted/notes.md" ∧ d.source = none ∧
      ⟨"source:public", "parent", d.id⟩ ∈ snap.tuples := by
  have hmerged : (byStem.snapshot (fun _ => "") (twoFiles "notes.md" "notes.md" (by decide)
      (by decide))).returns isMerged = true := by decide +kernel
  obtain ⟨snap, hsnap, hmerged⟩ := returns_iff.mp hmerged
  obtain ⟨hdocuments, htuples⟩ := of_decide_eq_true hmerged
  refine ⟨snap, hsnap, ?_, ?_⟩
  · rw [hdocuments]
    intro h
    exact h _ List.mem_cons_self _ (List.mem_cons_of_mem _ (List.mem_singleton_self _))
      (by decide) rfl
  · rw [hdocuments]
    refine ⟨_, List.mem_cons_of_mem _ (List.mem_singleton_self _), rfl, rfl, ?_⟩
    rw [FrozenSet.mem_def, htuples]
    exact List.mem_singleton_self _

end FilesConnector

end HeadOfContext
