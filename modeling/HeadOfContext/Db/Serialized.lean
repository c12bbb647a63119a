import HeadOfContext.Db.Migrations
import Mathlib.Data.List.Pairwise
import Mathlib.Data.List.Forall2

/-!
# Concurrent migrations

The migrations of every release are the first ones of one history, because an applied migration is
never edited (`History`). However many processes migrate at once, with connections that are lost
and sessions that are ended at any moment, the ledger is always an initial segment of the history,
and each migration beyond those that were found was committed once, with its row
(`Database.Sound`). What a process knows while it holds the lock is its `Role`; a commit that is
still in flight on a lost connection is covered by `Database.Harmless`.
-/

namespace HeadOfContext

open Effects PyText

/-! ### The history -/

/-- The migrations of all releases, in order. -/
structure History where
  migrations : List Migration
  increasing : migrations.Pairwise fun m m' => m.version < m'.version
  positive : ∀ m ∈ migrations, 0 < m.version

namespace History

variable (H : History)

/-- The version of a database that has the first `n` migrations. -/
def versionAt (n : ℕ) : ℤ := ((H.migrations.take n).map Migration.version).max?.getD 0

variable {H} {n k : ℕ} {m : Migration}

theorem le_versionAt (hm : m ∈ H.migrations.take n) : m.version ≤ H.versionAt n := by
  unfold versionAt
  have hmem := List.mem_map_of_mem (f := Migration.version) hm
  cases hmax : ((H.migrations.take n).map Migration.version).max? with
  | none =>
    rw [List.max?_eq_none_iff.mp hmax] at hmem
    cases hmem
  | some v => exact (List.max?_eq_some_iff.mp hmax).2 _ hmem

theorem versionAt_cases :
    H.versionAt n = 0 ∨ ∃ m ∈ H.migrations.take n, H.versionAt n = m.version := by
  unfold versionAt
  cases hmax : ((H.migrations.take n).map Migration.version).max? with
  | none => exact .inl rfl
  | some v =>
    obtain ⟨m, hm, rfl⟩ := List.mem_map.mp (List.max?_eq_some_iff.mp hmax).1
    exact .inr ⟨m, hm, rfl⟩

/-- A later migration has a larger version. -/
theorem versionAt_lt (hm : m ∈ H.migrations.drop n) : H.versionAt n < m.version := by
  rcases versionAt_cases (H := H) (n := n) with hzero | ⟨m', hm', heq⟩
  · rw [hzero]
    exact H.positive m (List.mem_of_mem_drop hm)
  · rw [heq]
    have hsplit := H.increasing
    rw [← List.take_append_drop n H.migrations, List.pairwise_append] at hsplit
    exact hsplit.2.2 m' hm' m hm

/-- The migrations of a release are the first ones of the history. -/
def Includes (H : History) (code : Release) : Prop := code.migrations <+: H.migrations

variable {code : Release}

theorem Includes.eq_take (h : H.Includes code) :
    code.migrations = H.migrations.take code.migrations.length := List.prefix_iff_eq_take.mp h

/-- A database that is no newer than the release lacks the migrations from its own number on. -/
theorem Includes.pending (h : H.Includes code) :
    code.pending (H.versionAt n) = code.migrations.drop n := by
  unfold Release.pending
  have htake : ∀ m ∈ code.migrations.take n, ¬ H.versionAt n < m.version := by
    intro m hm
    refine not_lt.mpr (le_versionAt ?_)
    exact (h.take n).subset hm
  have hdrop : ∀ m ∈ code.migrations.drop n, H.versionAt n < m.version := by
    intro m hm
    exact versionAt_lt ((h.drop n).subset hm)
  -- the migrations of the release in two parts: none of the first is pending, all of the rest are
  conv_lhs => rw [← List.take_append_drop n code.migrations, List.filter_append]
  rw [List.filter_eq_nil_iff.mpr fun m hm => by simpa using not_lt.mp (htake m hm),
    List.filter_eq_self.mpr fun m hm => by simpa using hdrop m hm, List.nil_append]

/-- A release refuses the databases that have more migrations than it. -/
theorem Includes.latest_lt (h : H.Includes code) (hn : n ≤ H.migrations.length) :
    code.latest < H.versionAt n ↔ code.migrations.length < n := by
  have hlast := List.getLast_mem code.ne
  constructor
  · intro hlt
    by_contra hle
    rcases versionAt_cases (H := H) (n := n) with hzero | ⟨m, hm, heq⟩
    · rw [hzero] at hlt
      exact absurd (H.positive _ (h.subset hlast)) (not_lt.mpr (le_of_lt hlt))
    · -- the newest of the first `n` is one of the release
      have hmem : m ∈ code.migrations := by
        rw [h.eq_take]
        exact (List.take_prefix_take_left (Nat.le_of_not_lt hle)).subset hm
      have hmax : m.version ≤ code.latest := by
        have hincreasing := H.increasing.sublist h.sublist
        rw [← List.dropLast_append_getLast code.ne] at hmem hincreasing
        rcases List.mem_append.mp hmem with hearlier | hlast'
        · exact le_of_lt ((List.pairwise_append.mp hincreasing).2.2 m hearlier _
            (List.mem_singleton.mpr rfl))
        · rw [List.mem_singleton.mp hlast']
          exact le_refl _
      rw [heq] at hlt
      exact absurd hlt (not_lt.mpr hmax)
  · intro hlt
    -- the migration after the last of the release is among the first `n`
    have hk : code.migrations.length < H.migrations.length := Nat.lt_of_lt_of_le hlt hn
    have hnext : H.migrations[code.migrations.length] ∈ H.migrations.take n :=
      List.mem_take_iff_getElem.mpr ⟨_, by omega, rfl⟩
    have hafter : H.migrations[code.migrations.length] ∈
        H.migrations.drop code.migrations.length :=
      List.mem_drop_iff_getElem.mpr ⟨0, by simpa using hk, by simp⟩
    have hbelow := H.increasing
    rw [← List.take_append_drop code.migrations.length H.migrations, List.pairwise_append]
      at hbelow
    have hlast' : code.migrations.getLast code.ne ∈ H.migrations.take code.migrations.length := by
      rw [← h.eq_take]
      exact hlast
    exact lt_of_lt_of_le (hbelow.2.2 _ hlast' _ hafter) (le_versionAt hnext)

end History

/-! ### What the database keeps -/

/-- What the commit of a migration writes: its statements and its row, together. -/
def Migration.Written (m : Migration) (writes : List Write) : Prop :=
  ∃ appliedAt, writes = [.sql m.sql, .row m.version m.name appliedAt]

theorem Migration.Written.rowsOf {m : Migration} {writes : List Write} (h : m.Written writes) :
    Database.rowsOf writes = [m.version] := by
  obtain ⟨appliedAt, rfl⟩ := h
  rfl

namespace Database

variable {H : History} {s s' : Database} {c c' : ℕ} {stmt : Stmt}

/-- How many migrations are in the ledger. -/
def count (s : Database) : ℕ := s.found.length + s.commits.length

/-- The writes are those of the next migration. -/
def Next (H : History) (s : Database) (writes : List Write) : Prop :=
  ∃ m, H.migrations[s.count]? = some m ∧ m.Written writes

/-- Carried out now, the statement of the session does no harm: it writes inside of a transaction,
and commits nothing but the next migration, and that only with the lock and into a ledger. -/
def Harmless (H : History) (s : Database) (c : ℕ) : Stmt → Prop
  | .sql _ => s.txn c ≠ none
  | .insert _ _ _ => s.txn c ≠ none
  | .commit => ∀ t, s.txn c = some t → t.aborted = false → t.writes ≠ [] →
      s.lock = some c ∧ s.ledger = true ∧ Next H s t.writes
  | _ => True

/-- The connection is lost, and the statement may still be carried out. -/
def InFlight (s : Database) (c : ℕ) (stmt : Stmt) : Prop :=
  ∃ session, s.sessions c = some session ∧ session.link = .down (some stmt)

/-- **The invariant.** The ledger has the first migrations of the history, and those it did not have
when it was found were committed one by one. -/
structure Sound (H : History) (s : Database) : Prop where
  found : s.found = (H.migrations.take s.found.length).map Migration.version
  count : s.count ≤ H.migrations.length
  commits : List.Forall₂ Migration.Written ((H.migrations.take s.count).drop s.found.length)
    (s.commits.map Prod.snd)
  ledger : s.ledger = false → s.versions = []
  inflight : ∀ c stmt, s.InFlight c stmt → Harmless H s c stmt

theorem rowsOf_commits {ms : List Migration} {commits : List (ℕ × List Write)}
    (h : List.Forall₂ Migration.Written ms (commits.map Prod.snd)) :
    commits.flatMap (fun e => rowsOf e.2) = ms.map Migration.version := by
  -- the induction is on the commits; each has written one migration, whose row it has
  induction commits generalizing ms with
  | nil =>
    cases h
    rfl
  | cons e rest ih =>
    cases h with
    | cons hwritten hrest =>
      rw [List.flatMap_cons, hwritten.rowsOf, ih hrest, List.map_cons]
      rfl

/-- The ledger is an initial segment of the history. -/
theorem Sound.versions (h : Sound H s) :
    s.versions = (H.migrations.take s.count).map Migration.version := by
  unfold Database.versions
  rw [rowsOf_commits h.commits, h.found]
  have hlength : ((H.migrations.take s.found.length).map Migration.version).length =
      s.found.length := congrArg List.length h.found.symm
  rw [hlength, ← List.map_append]
  -- what was found are the first migrations, also of those that are there now
  congr 1
  conv_rhs => rw [← List.take_append_drop s.found.length (H.migrations.take s.count)]
  rw [List.take_take, Nat.min_eq_left (show s.found.length ≤ s.count from Nat.le_add_right _ _)]

theorem Sound.maxVersion (h : Sound H s) : s.versions.max?.getD 0 = H.versionAt s.count := by
  rw [h.versions]
  rfl

/-! ### What a step of one session changes -/

/-- What the others see of a step of a session. -/
structure Frame (c : ℕ) (s s' : Database) : Prop where
  next : s.next ≤ s'.next
  found : s'.found = s.found
  commits : s.commits <+: s'.commits
  ledger : s.ledger = true → s'.ledger = true
  sessions : ∀ c' ≠ c, s'.sessions c' = s.sessions c'
  held : ∀ c' ≠ c, s.lock = some c' → s'.lock = some c' ∧ s'.commits = s.commits

theorem Frame.refl : Frame c s s :=
  ⟨Nat.le_refl _, rfl, List.prefix_refl _, id, fun _ _ => rfl, fun _ _ h => ⟨h, rfl⟩⟩

/-- A step that changes the session and nothing else that others see. -/
theorem Frame.of_session (hnext : s'.next = s.next) (hfound : s'.found = s.found)
    (hcommits : s'.commits = s.commits) (hledger : s.ledger = true → s'.ledger = true)
    (hlock : ∀ c' ≠ c, s.lock = some c' → s'.lock = some c')
    (hsessions : ∀ c' ≠ c, s'.sessions c' = s.sessions c') : Frame c s s' :=
  ⟨hnext ▸ Nat.le_refl _, hfound, hcommits ▸ List.prefix_refl _, hledger, hsessions,
    fun c' hne h => ⟨hlock c' hne h, hcommits⟩⟩

theorem Frame.trans {s'' : Database} (h : Frame c s s') (h' : Frame c s' s'') : Frame c s s'' :=
  ⟨Nat.le_trans h.next h'.next, h'.found.trans h.found, h.commits.trans h'.commits,
    fun hledger => h'.ledger (h.ledger hledger),
    fun c' hne => (h'.sessions c' hne).trans (h.sessions c' hne), fun c' hne hlock =>
      ⟨(h'.held c' hne (h.held c' hne hlock).1).1,
        ((h'.held c' hne (h.held c' hne hlock).1).2).trans (h.held c' hne hlock).2⟩⟩

theorem Frame.txn (h : Frame c s s') (hne : c' ≠ c) : s'.txn c' = s.txn c' := by
  unfold Database.txn
  rw [h.sessions c' hne]

theorem Frame.live (h : Frame c s s') (hne : c' ≠ c) : s'.Live c' ↔ s.Live c' := by
  unfold Live
  rw [h.sessions c' hne]

theorem Frame.count_le (h : Frame c s s') : s.count ≤ s'.count := by
  unfold Database.count
  rw [h.found]
  exact Nat.add_le_add_left h.commits.length_le _

theorem Harmless.frame (hharmless : Harmless H s c' stmt) (h : Frame c s s') (hne : c' ≠ c) :
    Harmless H s' c' stmt := by
  cases stmt with
  | sql text => exact fun hnone => hharmless ((h.txn hne).symm.trans hnone)
  | insert version name appliedAt => exact fun hnone => hharmless ((h.txn hne).symm.trans hnone)
  -- the session holds the lock, so nobody else has committed
  | commit =>
    intro t ht haborted hwrites
    rw [h.txn hne] at ht
    obtain ⟨hlock, hledger, m, hm, hwritten⟩ := hharmless t ht haborted hwrites
    obtain ⟨hlock', hcommits⟩ := h.held c' hne hlock
    refine ⟨hlock', h.ledger hledger, m, ?_, hwritten⟩
    unfold count
    rw [h.found, hcommits]
    exact hm
  | _ => trivial

/-- The invariant after a step of one session, where the ledger is sound and what the session has
in flight does no harm. -/
theorem Sound.frame (hs : Sound H s) (h : Frame c s s') (hcount : s'.count ≤ H.migrations.length)
    (hcommits : List.Forall₂ Migration.Written
      ((H.migrations.take s'.count).drop s.found.length) (s'.commits.map Prod.snd))
    (hledger : s'.ledger = false → s'.versions = [])
    (hown : ∀ stmt, s'.InFlight c stmt → Harmless H s' c stmt) : Sound H s' where
  found := by
    rw [h.found]
    exact hs.found
  count := hcount
  commits := by
    rw [h.found]
    exact hcommits
  ledger := hledger
  inflight c' stmt hinflight := by
    -- the other sessions have what they had in flight, and the step leaves it harmless
    by_cases hne : c' = c
    · subst hne
      exact hown stmt hinflight
    · refine (hs.inflight c' stmt ?_).frame h hne
      unfold InFlight at hinflight ⊢
      rwa [h.sessions c' hne] at hinflight

/-- The invariant after a step that commits nothing. -/
theorem Sound.frame_of_commits (hs : Sound H s) (h : Frame c s s')
    (hcommits : s'.commits = s.commits)
    (hown : ∀ stmt, s'.InFlight c stmt → Harmless H s' c stmt) : Sound H s' := by
  have hcount : s'.count = s.count := by
    unfold Database.count
    rw [h.found, hcommits]
  refine hs.frame h (hcount ▸ hs.count) ?_ (fun hnone => ?_) hown
  · rw [hcount, hcommits]
    exact hs.commits
  · unfold Database.versions
    rw [h.found, hcommits]
    refine hs.ledger ?_
    cases hledger' : s.ledger with
    | false => rfl
    | true => rw [h.ledger hledger'] at hnone; cases hnone

/-! ### The session itself -/

theorem sessions_setTxn {t : Option Txn} : (s.setTxn c t).sessions c =
    (s.sessions c).map fun session => { session with txn := t } := Function.update_self _ _ _

theorem sessions_lost {sent : Option Stmt} : (s.lost c sent).sessions c =
    (s.sessions c).map fun session => { session with link := .down sent } :=
  Function.update_self _ _ _

theorem sessions_ended : (s.ended c).sessions c = none := Function.update_self _ _ _

theorem txn_lost {sent : Option Stmt} : (s.lost c sent).txn c = s.txn c := by
  unfold Database.txn
  rw [sessions_lost]
  cases s.sessions c <;> rfl

theorem live_setTxn {t : Option Txn} : (s.setTxn c t).Live c ↔ s.Live c := by
  unfold Live
  rw [sessions_setTxn]
  cases s.sessions c <;> simp

theorem txn_setTxn {t : Option Txn} (hlive : s.Live c) : (s.setTxn c t).txn c = t := by
  obtain ⟨session, hsession, -⟩ := hlive
  unfold Database.txn
  rw [sessions_setTxn, hsession]
  rfl

theorem not_live_lost {sent : Option Stmt} : ¬ (s.lost c sent).Live c := by
  rintro ⟨session, hsession, hup⟩
  rw [sessions_lost] at hsession
  obtain ⟨session', -, rfl⟩ := Option.map_eq_some_iff.mp hsession
  cases hup

theorem not_live_ended : ¬ (s.ended c).Live c := by
  rintro ⟨session, hsession, -⟩
  rw [sessions_ended] at hsession
  cases hsession

/-- Only a connection that is lost leaves a statement in flight. -/
theorem not_inFlight_of_live (hlive : s.Live c) : ¬ s.InFlight c stmt := by
  rintro ⟨session, hsession, hdown⟩
  obtain ⟨session', hsession', hup⟩ := hlive
  obtain rfl := Option.some.inj (hsession.symm.trans hsession')
  rw [hup] at hdown
  cases hdown

theorem not_inFlight_ended : ¬ (s.ended c).InFlight c stmt := by
  rintro ⟨session, hsession, -⟩
  rw [sessions_ended] at hsession
  cases hsession

theorem inFlight_lost {sent : Option Stmt} (h : (s.lost c sent).InFlight c stmt) :
    sent = some stmt := by
  obtain ⟨session, hsession, hdown⟩ := h
  rw [sessions_lost] at hsession
  obtain ⟨session', -, rfl⟩ := Option.map_eq_some_iff.mp hsession
  exact Link.down.inj hdown

theorem Harmless.lost {sent : Option Stmt} (h : Harmless H s c stmt) :
    Harmless H (s.lost c sent) c stmt := by
  cases stmt with
  | sql text => exact fun hnone => h (txn_lost.symm.trans hnone)
  | insert version name appliedAt => exact fun hnone => h (txn_lost.symm.trans hnone)
  | commit => exact fun t ht => h t (txn_lost.symm.trans ht)
  | _ => trivial

/-! ### The statements -/

theorem frame_setTxn {t : Option Txn} : Frame c s (s.setTxn c t) :=
  .of_session rfl rfl rfl id (fun _ _ h => h) fun _ hne => Function.update_of_ne hne _ _

theorem frame_lost {inflight : Option Stmt} : Frame c s (s.lost c inflight) :=
  .of_session rfl rfl rfl id (fun _ _ h => h) fun _ hne => Function.update_of_ne hne _ _

theorem frame_ended : Frame c s (s.ended c) := by
  refine .of_session rfl rfl rfl id (fun c' hne h => ?_) fun _ hne => Function.update_of_ne hne _ _
  have hother : s.lock ≠ some c := fun hlock => hne (Option.some.inj (h.symm.trans hlock))
  exact (if_neg hother).trans h

theorem frame_connected : Frame s.next s s.connected :=
  ⟨Nat.le_succ _, rfl, List.prefix_refl _, id, fun _ hne => Function.update_of_ne hne _ _,
    fun _ _ h => ⟨h, rfl⟩⟩

theorem write_of_txn {w : Write} {t : Txn} (ht : s.txn c = some t) :
    s.write c w = s.setTxn c (some { t with writes := t.writes ++ [w] }) := by
  simp only [write, ht]

theorem commit_of_nothing {t : Txn} (ht : s.txn c = some t)
    (hnothing : t.aborted = true ∨ t.writes = []) : s.commit c = s.setTxn c none := by
  simp only [commit, ht, if_pos hnothing]

theorem commit_of_writes {t : Txn} (ht : s.txn c = some t)
    (hwrites : ¬ (t.aborted = true ∨ t.writes = [])) :
    s.commit c = { s with commits := s.commits ++ [(c, t.writes)] }.setTxn c none := by
  simp only [commit, ht, if_neg hwrites]

theorem frame_write {w : Write} (htxn : s.txn c ≠ none) :
    Frame c s (s.write c w) ∧ (s.write c w).commits = s.commits := by
  obtain ⟨t, ht⟩ := Option.ne_none_iff_exists'.mp htxn
  rw [write_of_txn ht]
  exact ⟨frame_setTxn, rfl⟩

/-- The commit of a session that does no harm adds nothing, or the next migration. -/
theorem frame_commit (hharmless : Harmless H s c .commit) :
    Frame c s (s.commit c) ∧ ((s.commit c).commits = s.commits ∨
      s.ledger = true ∧ ∃ writes, Next H s writes ∧
        (s.commit c).commits = s.commits ++ [(c, writes)]) := by
  cases ht : s.txn c with
  | none =>
    have hsame : s.commit c = s := by simp only [commit, ht]
    rw [hsame]
    exact ⟨.refl, .inl rfl⟩
  | some t =>
    -- a transaction that is aborted or has written nothing ends without a commit
    by_cases hnothing : t.aborted = true ∨ t.writes = []
    · rw [commit_of_nothing ht hnothing]
      exact ⟨frame_setTxn, .inl rfl⟩
    · rw [commit_of_writes ht hnothing]
      obtain ⟨haborted, hwrites⟩ := not_or.mp hnothing
      obtain ⟨hlock, hledger, hnext⟩ :=
        hharmless t ht (Bool.eq_false_iff.mpr haborted) hwrites
      refine ⟨⟨Nat.le_refl _, rfl, List.prefix_append _ _, id,
        fun _ hne => Function.update_of_ne hne _ _, fun c' hne hlock' => ?_⟩,
        .inr ⟨hledger, t.writes, hnext, rfl⟩⟩
      -- no other session can hold the lock
      exact absurd (Option.some.inj (hlock'.symm.trans hlock)) hne

/-- The next migration is one more of the history. -/
theorem Sound.next (hs : Sound H s) {writes : List Write} (hnext : Next H s writes) :
    s.count + 1 ≤ H.migrations.length ∧
      List.Forall₂ Migration.Written ((H.migrations.take (s.count + 1)).drop s.found.length)
        (s.commits.map Prod.snd ++ [writes]) := by
  obtain ⟨m, hm, hwritten⟩ := hnext
  obtain ⟨hlt, rfl⟩ := List.getElem?_eq_some_iff.mp hm
  refine ⟨hlt, ?_⟩
  have hfound : s.found.length ≤ (H.migrations.take s.count).length := by
    rw [List.length_take, Nat.min_eq_left hs.count]
    exact Nat.le_add_right _ _
  rw [List.take_add_one, hm, Option.toList_some, List.drop_append_of_le_length hfound]
  exact List.rel_append hs.commits (.cons hwritten .nil)

/-- **A statement that does no harm** changes nothing that others rely on, and keeps the
invariant, once what the session has in flight afterwards does no harm. -/
theorem Sound.perform (hs : Sound H s) (hharmless : Harmless H s c stmt)
    (h : s.perform c stmt = some s') :
    Frame c s s' ∧ ∀ s'', Frame c s' s'' → s''.commits = s'.commits →
      (∀ stmt, s''.InFlight c stmt → Harmless H s'' c stmt) → Sound H s'' := by
  -- all statements but the commit leave the committed migrations as they are
  have hquiet : Frame c s s' ∧ s'.commits = s.commits →
      Frame c s s' ∧ ∀ s'', Frame c s' s'' → s''.commits = s'.commits →
        (∀ stmt, s''.InFlight c stmt → Harmless H s'' c stmt) → Sound H s'' :=
    fun hf => ⟨hf.1, fun s'' h'' hsame =>
      hs.frame_of_commits (hf.1.trans h'') (hsame.trans hf.2)⟩
  cases stmt with
  | selectOne =>
    refine hquiet ?_
    rw [Database.perform] at h
    split_ifs at h
    obtain rfl := Option.some.inj h
    exact ⟨.refl, rfl⟩
  | lock =>
    refine hquiet ?_
    rw [Database.perform] at h
    split_ifs at h with _ hfree
    obtain rfl := Option.some.inj h
    refine ⟨.of_session rfl rfl rfl id (fun c' hne hlock => ?_) fun _ _ => rfl, rfl⟩
    -- the lock was free or the own one, so nobody loses it
    rcases hfree with hnone | hown
    · rw [hnone] at hlock
      cases hlock
    · exact absurd (Option.some.inj (hlock.symm.trans hown)) hne
  | unlock =>
    refine hquiet ?_
    rw [Database.perform] at h
    split_ifs at h with _ hown
    · obtain rfl := Option.some.inj h
      refine ⟨.of_session rfl rfl rfl id (fun c' hne hlock => ?_) fun _ _ => rfl, rfl⟩
      exact absurd (Option.some.inj (hlock.symm.trans hown)) hne
    · obtain rfl := Option.some.inj h
      exact ⟨.refl, rfl⟩
  | createLedger =>
    refine hquiet ?_
    rw [Database.perform] at h
    split_ifs at h
    obtain rfl := Option.some.inj h
    exact ⟨.of_session rfl rfl rfl (fun _ => rfl) (fun _ _ hlock => hlock) fun _ _ => rfl, rfl⟩
  | begin =>
    refine hquiet ?_
    rw [Database.perform] at h
    split_ifs at h
    · obtain rfl := Option.some.inj h
      exact ⟨frame_setTxn, rfl⟩
    · obtain rfl := Option.some.inj h
      exact ⟨.refl, rfl⟩
  | sql text =>
    refine hquiet ?_
    rw [Database.perform] at h
    split_ifs at h
    obtain rfl := Option.some.inj h
    exact frame_write hharmless
  | insert version name appliedAt =>
    refine hquiet ?_
    rw [Database.perform] at h
    split_ifs at h
    obtain rfl := Option.some.inj h
    exact frame_write hharmless
  | rollback =>
    refine hquiet ?_
    obtain rfl := Option.some.inj h
    exact ⟨frame_setTxn, rfl⟩
  | commit =>
    obtain rfl := Option.some.inj h
    obtain ⟨hframe, hsame | ⟨hledger, writes, hnext, hmore⟩⟩ := frame_commit hharmless
    · exact hquiet ⟨hframe, hsame⟩
    · refine ⟨hframe, fun s'' h'' hsame => ?_⟩
      -- the next migration has been committed: the ledger is one longer
      have hcommits : s''.commits = s.commits ++ [(c, writes)] := hsame.trans hmore
      have hcount : s''.count = s.count + 1 := by
        unfold Database.count
        rw [h''.found, hframe.found, hcommits, List.length_append, List.length_singleton,
          Nat.add_assoc]
      refine hs.frame (hframe.trans h'') ?_ ?_ fun hnone => ?_
      · rw [hcount]
        exact (hs.next hnext).1
      · rw [hcount, hcommits, List.map_append]
        exact (hs.next hnext).2
      · rw [(hframe.trans h'').ledger hledger] at hnone
        cases hnone

theorem live_perform (hlive : s.Live c) (h : s.perform c stmt = some s') : s'.Live c := by
  have hset : ∀ t, (s.setTxn c t).Live c := fun t => live_setTxn.mpr hlive
  have hwrite : ∀ w, (s.write c w).Live c := by
    intro w
    cases ht : s.txn c with
    | none =>
      simp only [write, ht]
      exact hlive
    | some t =>
      rw [write_of_txn ht]
      exact hset _
  -- a statement may change the transaction of the session, never its connection
  cases stmt with
  | commit =>
    obtain rfl := Option.some.inj h
    cases ht : s.txn c with
    | none =>
      simp only [commit, ht]
      exact hlive
    | some t =>
      by_cases hnothing : t.aborted = true ∨ t.writes = []
      · rw [commit_of_nothing ht hnothing]
        exact hset _
      · rw [commit_of_writes ht hnothing]
        exact live_setTxn.mpr hlive
  | rollback =>
    obtain rfl := Option.some.inj h
    exact hset _
  | _ =>
    rw [Database.perform] at h
    split_ifs at h <;> obtain rfl := Option.some.inj h <;>
      first | exact hlive | exact hset _ | exact hwrite _

end Database

/-! ### What a process knows -/

/-- What a process knows of its session: whether it holds the lock, whether it has opened the
ledger, its transaction, and, with the lock, how many migrations there are. -/
structure Inside where
  locked : Bool
  opened : Bool
  txn : Option Txn
  count : Option ℕ

/-- A process with a connection: what it knows of the session, the versions that it has committed,
and how many migrations there are at least. -/
structure Role where
  conn : ℕ
  inside : Option Inside
  done : List ℤ
  reached : ℕ

/-- The role of a process that knows nothing of its session any more. -/
def Role.left (θ : Role) : Role := { θ with inside := none }

/-- The role of a process that knows this of its session. -/
def Role.at (θ : Role) (x : Inside) : Role := { θ with inside := some x }

/-- What holds of the session. -/
structure Inside.Holds (x : Inside) (c : ℕ) (s : Database) : Prop where
  txn : s.txn c = x.txn
  ledger : x.opened = true → s.ledger = true
  lock : x.locked = true → s.lock = some c
  count : x.locked = true → ∀ n, x.count = some n → s.count = n

/-- What a process in the role knows. What it knows of the session, it knows while that is
live. -/
structure Knows (θ : Role) (s : Database) : Prop where
  conn : θ.conn < s.next
  done : ∀ v ∈ θ.done, ∃ writes, (θ.conn, writes) ∈ s.commits ∧ v ∈ Database.rowsOf writes
  reached : θ.reached ≤ s.count
  inside : ∀ x, θ.inside = some x → s.Live θ.conn → x.Holds θ.conn s

section Knows

variable {H : History} {s s' : Database} {c : ℕ} {θ θ' : Role}

/-- What does not depend on the session outlasts every step. -/
theorem Knows.later (h : Knows θ s) (hframe : Database.Frame c s s') {x : Option Inside}
    (hinside : ∀ y, x = some y → s'.Live θ.conn → y.Holds θ.conn s') :
    Knows { θ with inside := x } s' where
  conn := Nat.lt_of_lt_of_le h.conn hframe.next
  done v hv := by
    obtain ⟨writes, hmem, hrow⟩ := h.done v hv
    exact ⟨writes, hframe.commits.subset hmem, hrow⟩
  reached := Nat.le_trans h.reached hframe.count_le
  inside := hinside

/-- A step of one session leaves to the others what they know. -/
theorem Knows.frame (h : Knows θ s) (hframe : Database.Frame c s s') (hne : θ.conn ≠ c) :
    Knows θ s' := by
  refine h.later hframe (x := θ.inside) fun x hx hlive => ?_
  have hholds := h.inside x hx ((hframe.live hne).mp hlive)
  -- the number of migrations stays exact while the process holds the lock
  refine ⟨(hframe.txn hne).trans hholds.txn, fun ho => hframe.ledger (hholds.ledger ho),
    fun hl => (hframe.held _ hne (hholds.lock hl)).1, fun hl n hn => ?_⟩
  unfold Database.count
  rw [hframe.found, (hframe.held _ hne (hholds.lock hl)).2]
  exact hholds.count hl n hn

/-- A process whose session is not live knows of it whatever it has known. -/
theorem Knows.down (h : Knows θ s) (hframe : Database.Frame c s s') (hdown : ¬ s'.Live θ.conn) :
    Knows θ s' :=
  h.later hframe (x := θ.inside) fun _ _ hlive => absurd hlive hdown

theorem Knows.left (h : Knows θ s) (hframe : Database.Frame c s s') : Knows θ.left s' :=
  h.later hframe fun _ hx => by cases hx

theorem Knows.at (h : Knows θ s) (hframe : Database.Frame c s s') {x : Inside}
    (hx : x.Holds θ.conn s') : Knows (θ.at x) s' :=
  h.later hframe fun _ hy _ => Option.some.inj hy ▸ hx

end Knows

/-- The roles of the processes over a database: two processes never have the same connection. -/
def migrating (H : History) (start : Database) : Roles (Database.world start) where
  Role := Option Role
  inv := Database.Sound H
  knows θ s := ∀ θ', θ = some θ' → Knows θ' s
  apart θ θ' := ∀ a b, θ = some a → θ' = some b → a.conn ≠ b.conn
  moves s s' := s'.found = s.found ∧ s.commits <+: s'.commits
  outside := none
  knows_outside _ _ h := by cases h
  apart_outside _ _ _ h := by cases h
  apart_symm h a b ha hb := (h b a hb ha).symm
  moves_refl _ := ⟨rfl, List.prefix_refl _⟩
  moves_trans h h' := ⟨h'.1.trans h.1, h.2.trans h'.2⟩

section Keeps

variable {H : History} {start s s' : Database} {θ θ' : Role} {stmt : Stmt}

/-- A step of the own session. -/
theorem leaves_own (hframe : Database.Frame θ.conn s s') (hinv : Database.Sound H s')
    (hconn : θ'.conn = θ.conn) (hown : Knows θ' s') :
    (migrating H start).Leaves (some θ) (some θ') s s' where
  inv := hinv
  moves := ⟨hframe.found, hframe.commits⟩
  own _ h := Option.some.inj h ▸ hown
  others θ₂ hapart hknows := by
    -- the others have other connections
    refine ⟨fun b hb => ?_, fun a b ha hb => ?_⟩
    · exact (hknows b hb).frame hframe (hapart θ b rfl hb).symm
    · rw [← Option.some.inj ha, hconn]
      exact hapart θ b rfl hb

/-- What happens to the session when a call raises. -/
theorem raised_left {c : ℕ} {sent : Option Stmt} (hs : Database.Sound H s)
    (hharmless : ∀ stmt, sent = some stmt → s.Live c → Database.Harmless H s c stmt)
    (h : s.Raised c sent s') : Database.Frame c s s' ∧ Database.Sound H s' := by
  -- the call was not made, or its transaction is aborted, or the connection is lost
  rcases h with rfl | ⟨hlive, rfl | rfl⟩
  · exact ⟨.refl, hs⟩
  · refine ⟨Database.frame_setTxn, hs.frame_of_commits Database.frame_setTxn rfl fun stmt hin => ?_⟩
    exact absurd hin (Database.not_inFlight_of_live (Database.live_setTxn.mpr hlive))
  · refine ⟨Database.frame_lost, hs.frame_of_commits Database.frame_lost rfl fun stmt hin => ?_⟩
    exact (hharmless stmt (Database.inFlight_lost hin) hlive).lost

/-- A call of the own session that may raise. -/
theorem keeps_ask {α : Type} {o : DbOp} {h : o.Res → Except String α} (sent : Option Stmt)
    {Q : Option Role → Except MigrateError α → Prop}
    (hharmless : ∀ s, Database.Sound H s → Knows θ s → ∀ stmt, sent = some stmt →
      s.Live θ.conn → Database.Harmless H s θ.conn stmt)
    (hstep : ∀ s r s', Database.Sound H s → Knows θ s → (Database.world start).step s o r s' →
      (∃ a, h r = .ok a ∧ ∃ θ', θ'.conn = θ.conn ∧ Database.Frame θ.conn s s' ∧
          Database.Sound H s' ∧ Knows θ' s' ∧ Q (some θ') (.ok a)) ∨
        ∃ name, h r = .error name ∧ s.Raised θ.conn sent s')
    (hraised : ∀ name, Q (some θ.left) (.error (.other name))) :
    (migrating H start).KeepsRaising Q (Db.ask o h) (some θ) := by
  intro s r s' hinv hknows hworld
  have hown := hknows θ rfl
  -- the call returns into the next role, or raises and costs what was known of the session
  rcases hstep s r s' hinv hown hworld with ⟨a, ha, θ', hconn, hframe, hsound, hknows', hQ⟩ |
    ⟨name, hname, hraise⟩
  · refine ⟨some θ', leaves_own hframe hsound hconn hknows', ?_⟩
    change Q (some θ') ((h r).mapError .other)
    rw [ha]
    exact hQ
  · obtain ⟨hframe, hsound⟩ := raised_left hinv (hharmless s hinv hown) hraise
    refine ⟨some θ.left, leaves_own hframe hsound rfl (hown.left hframe), ?_⟩
    change Q (some θ.left) ((h r).mapError .other)
    rw [hname]
    exact hraised name

/-- **A statement**: one that does no harm brings the process to its next role, or costs it what it
knew of its session. -/
theorem keeps_execute (θ θ' : Role) (hconn : θ'.conn = θ.conn)
    (hharmless : ∀ s, Database.Sound H s → Knows θ s → s.Live θ.conn →
      Database.Harmless H s θ.conn stmt)
    (hdone : ∀ s s', Database.Sound H s → Knows θ s → s.Live θ.conn →
      s.perform θ.conn stmt = some s' → Database.Frame θ.conn s s' → Knows θ' s') :
    (migrating H start).KeepsRaising (fun θ'' x => (θ'' = some θ' ∧ x = .ok ()) ∨
      (θ'' = some θ.left ∧ ∃ name, x = .error (.other name)))
      (Db.execute θ.conn stmt) (some θ) := by
  refine keeps_ask (some stmt) (fun s hs hk st hst hlive => ?_) (fun s r s' hs hk hstep => ?_)
    fun name => .inr ⟨rfl, name, rfl⟩
  · obtain rfl := Option.some.inj hst
    exact hharmless s hs hk hlive
  · cases r with
    | error name => exact .inr ⟨name, rfl, hstep⟩
    | ok u =>
      obtain ⟨hlive, hperform⟩ := hstep
      obtain ⟨hframe, hsound⟩ := hs.perform (hharmless s hs hk hlive) hperform
      have hknows := hdone s s' hs hk hlive hperform hframe
      refine .inl ⟨u, rfl, θ', hconn, hframe, hsound s' .refl rfl fun st hin => ?_, hknows,
        .inl ⟨rfl, rfl⟩⟩
      -- a session that was answered is live, so nothing of it is in flight
      exact absurd hin (Database.not_inFlight_of_live (Database.live_perform hlive hperform))

/-- A process that knows nothing of its session can do everything but write. -/
theorem keeps_harmless (stmt : Stmt) (hharmless : ∀ s, Database.Harmless H s θ.conn stmt) :
    (migrating H start).KeepsRaising (fun θ' _ => θ' = some θ.left) (Db.execute θ.conn stmt)
      (some θ) := by
  refine (keeps_execute θ θ.left rfl (fun s _ _ _ => hharmless s)
    fun s s' _ hk _ _ hframe => hk.left hframe).mono fun θ' x h => ?_
  rcases h with ⟨rfl, -⟩ | ⟨rfl, -⟩
  · rfl
  · rfl

/-! ### The statements of a migration -/

/-- The call has brought the process to the role `θ'`, or has raised and left it without a
session. -/
def Brings (θ θ' : Role) (r : Option Role) (x : Except MigrateError Unit) : Prop :=
  (r = some θ' ∧ x = .ok ()) ∨ (r = some θ.left ∧ ∃ name, x = .error (.other name))

/-- A statement takes the session from what is known before to what is known after it. -/
theorem keeps_at {x y : Inside}
    (hharmless : ∀ s, s.Live θ.conn → x.Holds θ.conn s → Database.Harmless H s θ.conn stmt)
    (hdone : ∀ s s', s.Live θ.conn → x.Holds θ.conn s → s.perform θ.conn stmt = some s' →
      y.Holds θ.conn s') :
    (migrating H start).KeepsRaising (Brings θ (θ.at y)) (Db.execute θ.conn stmt)
      (some (θ.at x)) :=
  keeps_execute (θ.at x) (θ.at y) rfl
    (fun s _ hk hlive => hharmless s hlive (hk.inside x rfl hlive))
    fun s s' _ hk hlive hperform hframe =>
      Knows.at (θ := θ.at x) hk hframe (hdone s s' hlive (hk.inside x rfl hlive) hperform)

/-- A connection that has just been made. -/
def Inside.connected : Inside := ⟨false, false, none, none⟩

/-- The lock is held, nothing more is known. -/
def Inside.entered : Inside := ⟨true, false, none, none⟩

/-- The ledger is there, with so many migrations, and this transaction is open. -/
def Inside.within (txn : Option Txn) (count : Option ℕ) : Inside := ⟨true, true, txn, count⟩

variable {n : ℕ} {text name : String} {version t : ℤ}

theorem keeps_lock : (migrating H start).KeepsRaising (Brings θ (θ.at .entered))
    (Db.execute θ.conn .lock) (some (θ.at .connected)) := by
  refine keeps_at (fun _ _ _ => trivial) fun s s' hlive hholds hperform => ?_
  rw [Database.perform] at hperform
  split_ifs at hperform
  obtain rfl := Option.some.inj hperform
  refine ⟨hholds.txn, fun h => ?_, fun _ => rfl, fun _ n hn => ?_⟩
  · cases h
  · cases hn

theorem keeps_createLedger : (migrating H start).KeepsRaising
    (Brings θ (θ.at (.within none none))) (Db.execute θ.conn .createLedger)
    (some (θ.at .entered)) := by
  refine keeps_at (fun _ _ _ => trivial) fun s s' hlive hholds hperform => ?_
  rw [Database.perform] at hperform
  split_ifs at hperform
  obtain rfl := Option.some.inj hperform
  refine ⟨hholds.txn, fun _ => rfl, hholds.lock, fun _ n hn => ?_⟩
  cases hn

theorem keeps_begin : (migrating H start).KeepsRaising
    (Brings θ (θ.at (.within (some ⟨[], false⟩) (some n)))) (Db.execute θ.conn .begin)
    (some (θ.at (.within none (some n)))) := by
  refine keeps_at (fun _ _ _ => trivial) fun s s' hlive hholds hperform => ?_
  rw [Database.perform] at hperform
  split_ifs at hperform with _ htxn
  · obtain rfl := Option.some.inj hperform
    exact ⟨Database.txn_setTxn hlive, hholds.ledger, hholds.lock, hholds.count⟩
  · exact absurd hholds.txn htxn

/-- A write in the open transaction. -/
theorem Inside.Holds.write {writes : List Write} {w : Write} {s : Database} {c : ℕ}
    (hlive : s.Live c) (h : (Inside.within (some ⟨writes, false⟩) (some n)).Holds c s) :
    (Inside.within (some ⟨writes ++ [w], false⟩) (some n)).Holds c (s.write c w) := by
  rw [Database.write_of_txn h.txn]
  exact ⟨Database.txn_setTxn hlive, h.ledger, h.lock, h.count⟩

theorem keeps_sql : (migrating H start).KeepsRaising
    (Brings θ (θ.at (.within (some ⟨[.sql text], false⟩) (some n)))) (Db.execute θ.conn (.sql text))
    (some (θ.at (.within (some ⟨[], false⟩) (some n)))) := by
  refine keeps_at (fun s _ hholds hnone => ?_) fun s s' hlive hholds hperform => ?_
  · cases hholds.txn.symm.trans hnone
  · rw [Database.perform] at hperform
    split_ifs at hperform
    obtain rfl := Option.some.inj hperform
    exact hholds.write hlive

theorem keeps_insert : (migrating H start).KeepsRaising
    (Brings θ (θ.at (.within (some ⟨[.sql text, .row version name t], false⟩) (some n))))
    (Db.execute θ.conn (.insert version name t))
    (some (θ.at (.within (some ⟨[.sql text], false⟩) (some n)))) := by
  refine keeps_at (fun s _ hholds hnone => ?_) fun s s' hlive hholds hperform => ?_
  · cases hholds.txn.symm.trans hnone
  · rw [Database.perform] at hperform
    split_ifs at hperform
    obtain rfl := Option.some.inj hperform
    exact hholds.write hlive

/-- The role of a process that has committed one migration more. -/
def Role.more (θ : Role) (version : ℤ) : Role := { θ with done := θ.done ++ [version] }

theorem keeps_commit {m : Migration} (hm : H.migrations[n]? = some m) :
    (migrating H start).KeepsRaising
    (Brings θ ((θ.more m.version).at (.within none (some (n + 1))))) (Db.execute θ.conn .commit)
    (some (θ.at (.within (some ⟨[.sql m.sql, .row m.version m.name t], false⟩)
      (some n)))) := by
  have hwrites : ¬ ((⟨[.sql m.sql, .row m.version m.name t], false⟩ : Txn).aborted = true ∨
      [Write.sql m.sql, .row m.version m.name t] = []) := by simp
  refine keeps_execute (θ.at _) ((θ.more m.version).at _) rfl
    (fun s _ hk hlive txn htxn _ _ => ?_) fun s s' _ hk hlive hperform hframe => ?_
  · -- under the lock the number read is still exact, so this migration is the next one
    have hholds := hk.inside _ rfl hlive
    obtain rfl := Option.some.inj (htxn.symm.trans hholds.txn)
    refine ⟨hholds.lock rfl, hholds.ledger rfl, m, ?_, t, rfl⟩
    rw [hholds.count rfl n rfl]
    exact hm
  · have hholds := hk.inside _ rfl hlive
    obtain rfl := Option.some.inj hperform
    have hcommit := Database.commit_of_writes hholds.txn hwrites
    have hcommits : (s.commit θ.conn).commits =
        s.commits ++ [(θ.conn, [.sql m.sql, .row m.version m.name t])] :=
      congrArg Database.commits hcommit
    -- what was known before holds on, with one migration more
    have hlater : Knows (θ.at (.within none (some (n + 1)))) (s.commit θ.conn) := by
      refine Knows.at (θ := θ.at _) hk hframe ?_
      change Inside.Holds _ θ.conn (s.commit θ.conn)
      refine ⟨?_, fun _ => hframe.ledger (hholds.ledger rfl), fun _ => ?_, fun _ n' hn' => ?_⟩
      · exact (congrArg (fun s' => s'.txn θ.conn) hcommit).trans (Database.txn_setTxn hlive)
      · exact (congrArg Database.lock hcommit).trans (hholds.lock rfl)
      · obtain rfl := Option.some.inj hn'
        have hfound : (s.commit θ.conn).found = s.found := hframe.found
        rw [← hholds.count rfl n rfl]
        unfold Database.count
        rw [hfound, hcommits, List.length_append, List.length_singleton, Nat.add_assoc]
    refine ⟨hlater.conn, fun v hv => ?_, hlater.reached, hlater.inside⟩
    -- the version is an earlier one, or that of this commit
    rcases List.mem_append.mp hv with hold | hnew
    · exact hlater.done v hold
    · rw [List.mem_singleton.mp hnew]
      exact ⟨_, hcommits ▸ List.mem_append_right _ (List.mem_singleton.mpr rfl),
        List.mem_singleton.mpr rfl⟩

/-! ### The programs -/

/-- The process still has its connection, and nothing more is said. -/
def Lost {α : Type} (c : ℕ) (r : Option Role) (x : Except MigrateError α) : Prop :=
  (∃ θ, r = some θ ∧ θ.conn = c) ∧ ∃ exc, x = .error exc

/-- The sequence rule for a statement. -/
theorem bind_brings {β : Type} {p : Db Unit} {f : Unit → Db β} {r : Option Role}
    {Q : Option Role → Except MigrateError β → Prop}
    (h : (migrating H start).KeepsRaising (Brings θ θ') p r)
    (hok : (migrating H start).KeepsRaising Q (f ()) (some θ'))
    (hlost : ∀ r x, Lost θ.conn r x → Q r x) :
    (migrating H start).KeepsRaising Q (p >>= f) r := by
  -- where the statement raises, what follows it is not run
  refine Roles.KeepsRaising.bind h (fun r' u hr => ?_) fun r' exc hr => ?_
  · rcases hr with ⟨rfl, -⟩ | ⟨-, name, hname⟩
    · exact hok
    · cases hname
  · rcases hr with ⟨-, hexc⟩ | ⟨rfl, -⟩
    · cases hexc
    · exact hlost _ _ ⟨⟨θ.left, rfl, rfl⟩, exc, rfl⟩

theorem keeps_now {θ : Role} : (migrating H start).KeepsRaising
    (fun r x => r = some θ ∧ ∃ t, x = .ok t) Db.now (some θ) := by
  intro s t s' hinv hknows hstep
  obtain rfl := hstep
  exact ⟨some θ, leaves_own .refl hinv rfl (hknows θ rfl), rfl, t, rfl⟩

/-- **One migration**, in its transaction. -/
theorem keeps_applyOne {m : Migration} (hm : H.migrations[n]? = some m) :
    (migrating H start).KeepsRaising (fun r x =>
      (r = some ((θ.more m.version).at (.within none (some (n + 1)))) ∧ x = .ok ()) ∨
        Lost θ.conn r x) (Db.applyOne θ.conn m) (some (θ.at (.within none (some n)))) := by
  unfold Db.applyOne Db.transaction
  refine bind_brings keeps_begin ?_ fun r x h => .inr h
  -- what the body of the transaction leaves
  have hbody : (migrating H start).KeepsRaising (fun r x =>
      (∃ appliedAt, r = some (θ.at (.within
        (some ⟨[.sql m.sql, .row m.version m.name appliedAt], false⟩) (some n))) ∧ x = .ok ()) ∨
      Lost θ.conn r x) (do
        Db.execute θ.conn (.sql m.sql)
        let appliedAt ← Db.now
        Db.execute θ.conn (.insert m.version m.name appliedAt))
      (some (θ.at (.within (some ⟨[], false⟩) (some n)))) := by
    refine bind_brings keeps_sql ?_ fun r x h => .inr h
    refine keeps_now.bind (fun r t hr => ?_) fun r exc hr => ?_
    · obtain ⟨rfl, -⟩ := hr
      refine (keeps_insert (t := t)).mono fun r x hr => ?_
      rcases hr with ⟨rfl, rfl⟩ | ⟨rfl, name, rfl⟩
      · exact .inl ⟨t, rfl, rfl⟩
      · exact .inr ⟨⟨θ.left, rfl, rfl⟩, _, rfl⟩
    · obtain ⟨-, t, ht⟩ := hr
      cases ht
  -- the transaction is committed where its body returns and rolled back where it raises
  refine hbody.attempt_bind fun r x hr => ?_
  cases x with
  | ok u =>
    rcases hr with ⟨appliedAt, rfl, -⟩ | ⟨-, exc, hexc⟩
    · refine (keeps_commit hm).mono fun r x hr => ?_
      rcases hr with hdone | ⟨rfl, name, rfl⟩
      · exact .inl hdone
      · exact .inr ⟨⟨θ.left, rfl, rfl⟩, _, rfl⟩
    · cases hexc
  | error exc =>
    rcases hr with ⟨_, -, hok⟩ | ⟨⟨θ₁, rfl, hconn⟩, -⟩
    · cases hok
    · rw [← hconn]
      refine (keeps_harmless .rollback fun _ => trivial).attempt_bind fun r x hr => ?_
      exact .inr ⟨⟨θ₁.left, hr, rfl⟩, exc, rfl⟩

/-- **The loop**: the migrations that follow are applied in their order. -/
theorem keeps_applyAll {rest : List Migration} {applied : List ℤ}
    (hrest : rest <+: H.migrations.drop n) :
    (migrating H start).KeepsRaising (fun r x =>
      (∃ θ' : Role, r = some (θ'.at (.within none (some (n + rest.length)))) ∧ θ'.conn = θ.conn ∧
        θ'.done = θ.done ++ rest.map Migration.version ∧
        x = .ok (applied ++ rest.map Migration.version)) ∨ Lost θ.conn r x)
      (Db.applyAll θ.conn applied rest) (some (θ.at (.within none (some n)))) := by
  -- the induction is on the migrations that follow; the ledger has `n` when it reaches them
  induction rest generalizing n θ applied with
  | nil =>
    refine .inl ⟨θ, rfl, rfl, ?_, ?_⟩
    · exact (List.append_nil _).symm
    · exact congrArg Except.ok (List.append_nil _).symm
  | cons m rest ih =>
    -- the next one of the history is the first of those that follow
    obtain ⟨more, hmore⟩ := hrest
    have hm : H.migrations[n]? = some m := by
      have hfirst := congrArg (fun l => l[0]?) hmore
      simpa using hfirst.symm
    have hnext : rest <+: H.migrations.drop (n + 1) := by
      refine ⟨more, ?_⟩
      rw [← List.drop_drop, ← hmore]
      rfl
    unfold Db.applyAll
    refine (keeps_applyOne hm).bind (fun r u hr => ?_) fun r exc hr => ?_
    · rcases hr with ⟨rfl, -⟩ | ⟨-, exc, hexc⟩
      · refine (ih (θ := θ.more m.version) hnext).mono fun r x hr => ?_
        rcases hr with ⟨θ', rfl, hconn, hdone, rfl⟩ | hlost
        · refine .inl ⟨θ', ?_, hconn, ?_, ?_⟩
          · rw [List.length_cons, Nat.add_assoc, Nat.add_comm 1]
          · rw [hdone, List.map_cons]
            exact List.append_assoc _ _ _
          · rw [List.map_cons, List.append_assoc]
            rfl
        · exact .inr hlost
      · cases hexc
    · rcases hr with ⟨-, hexc⟩ | hlost
      · cases hexc
      · exact .inr ⟨hlost.1, exc, rfl⟩

/-- The version that is read under the lock is the version of the ledger. -/
theorem keeps_current {count : Option ℕ} :
    (migrating H start).KeepsRaising (fun r x =>
      (∃ n, n ≤ H.migrations.length ∧ (∀ m, count = some m → n = m) ∧
        r = some (θ.at (.within none (some n))) ∧ x = .ok (H.versionAt n)) ∨ Lost θ.conn r x)
      (Db.current θ.conn) (some (θ.at (.within none count))) := by
  unfold Db.current
  -- the ledger has been created, so it is found
  have hfound : (migrating H start).KeepsRaising (fun r x =>
      (r = some (θ.at (.within none count)) ∧ x = .ok true) ∨ Lost θ.conn r x)
      (Db.regclass θ.conn) (some (θ.at (.within none count))) := by
    refine keeps_ask (θ := θ.at _) none (fun s _ _ stmt hnone => by cases hnone)
      (fun s r s' hs hk hstep => ?_) fun name => .inr ⟨⟨θ.left, rfl, rfl⟩, _, rfl⟩
    cases r with
    | error name => exact .inr ⟨name, rfl, hstep⟩
    | ok found =>
      obtain ⟨hlive, rfl, rfl⟩ := hstep
      refine .inl ⟨s'.ledger, rfl, _, rfl, .refl, hs, hk, .inl ⟨rfl, ?_⟩⟩
      exact congrArg Except.ok ((hk.inside _ rfl hlive).ledger rfl)
  -- from now on the number of migrations is known
  have hversion : (migrating H start).KeepsRaising (fun r x =>
      (∃ n, n ≤ H.migrations.length ∧ (∀ m, count = some m → n = m) ∧
        r = some (θ.at (.within none (some n))) ∧ x = .ok (H.versionAt n)) ∨ Lost θ.conn r x)
      (Db.maxVersion θ.conn) (some (θ.at (.within none count))) := by
    refine keeps_ask (θ := θ.at _) none (fun s _ _ stmt hnone => by cases hnone)
      (fun s r s' hs hk hstep => ?_) fun name => .inr ⟨⟨θ.left, rfl, rfl⟩, _, rfl⟩
    cases r with
    | error name => exact .inr ⟨name, rfl, hstep⟩
    | ok version =>
      obtain ⟨hlive, rfl, rfl⟩ := hstep
      have hholds := hk.inside _ rfl hlive
      refine .inl ⟨_, rfl, θ.at (.within none (some s'.count)), rfl, .refl, hs, ?_,
        .inl ⟨s'.count, hs.count, fun m hm => hholds.count rfl m hm, rfl, ?_⟩⟩
      · refine Knows.at (θ := θ.at _) hk (c := θ.conn) .refl ?_
        exact ⟨hholds.txn, hholds.ledger, hholds.lock, fun _ n hn => Option.some.inj hn⟩
      · exact congrArg Except.ok hs.maxVersion
  refine hfound.bind (fun r found hr => ?_) fun r exc hr => ?_
  · rcases hr with ⟨rfl, hfound⟩ | ⟨-, exc, hexc⟩
    · obtain rfl := Except.ok.inj hfound
      exact hversion
    · cases hexc
  · rcases hr with ⟨-, hexc⟩ | hlost
    · cases hexc
    · exact .inr ⟨hlost.1, exc, rfl⟩

/-- **Under the lock**, a release that is not older than the database brings it to its own
number of migrations. -/
theorem keeps_migrateLocked {code : Release} (hcode : H.Includes code) (hdone : θ.done = []) :
    (migrating H start).KeepsRaising (fun r x =>
      (∃ θ' : Role, r = some (θ'.at (.within none (some code.migrations.length))) ∧
        θ'.conn = θ.conn ∧ x = .ok θ'.done) ∨ Lost θ.conn r x)
      (Db.migrateLocked code θ.conn) (some (θ.at .entered)) := by
  unfold Db.migrateLocked
  refine bind_brings keeps_createLedger ?_ fun r x h => .inr h
  -- `migrate` reads the version twice: for the check, and for what is pending
  refine keeps_current.bind (fun r v hr => ?_) fun r exc hr => ?_
  · rcases hr with ⟨n, hn, -, rfl, hv⟩ | ⟨-, exc, hexc⟩
    · obtain rfl := Except.ok.inj hv
      -- a database that is newer than the release is refused
      by_cases hnewer : code.latest < H.versionAt n
      · rw [if_pos hnewer]
        refine keeps_current.bind (fun r v hr => ?_) fun r exc hr => ?_
        · rcases hr with ⟨n', -, -, rfl, -⟩ | ⟨⟨θ', rfl, hconn⟩, -⟩
          · exact .inr ⟨⟨_, rfl, rfl⟩, _, rfl⟩
          · exact .inr ⟨⟨_, rfl, hconn⟩, _, rfl⟩
        · rcases hr with ⟨n', -, -, -, hexc⟩ | hlost
          · cases hexc
          · exact .inr ⟨hlost.1, exc, rfl⟩
      · rw [if_neg hnewer]
        have hle : n ≤ code.migrations.length :=
          Nat.le_of_not_lt fun h => hnewer ((hcode.latest_lt hn).mpr h)
        refine keeps_current.bind (fun r v hr => ?_) fun r exc hr => ?_
        · rcases hr with ⟨n', -, hsame, rfl, hv⟩ | ⟨-, exc, hexc⟩
          · obtain rfl := Except.ok.inj hv
            -- under the lock the second read finds what the first has found
            obtain rfl := hsame n rfl
            rw [hcode.pending]
            refine (keeps_applyAll (hcode.drop n')).mono fun r x hr => ?_
            rcases hr with ⟨θ', rfl, hconn, hversions, rfl⟩ | hlost
            · refine .inl ⟨θ', ?_, hconn, ?_⟩
              · rw [List.length_drop, Nat.add_sub_cancel' hle]
              · rw [hversions, hdone]
            · exact .inr hlost
          · cases hexc
        · rcases hr with ⟨n', -, -, -, hexc⟩ | hlost
          · cases hexc
          · exact .inr ⟨hlost.1, exc, rfl⟩
    · cases hexc
  · rcases hr with ⟨n, -, -, -, hexc⟩ | hlost
    · cases hexc
    · exact .inr ⟨hlost.1, exc, rfl⟩

/-! ### Connections -/

/-- The role of a process that has just connected. -/
def Role.fresh (c : ℕ) : Role := ⟨c, some .connected, [], 0⟩

theorem keeps_connect : (migrating H start).KeepsRaising
    (fun r x => (∃ c, r = some (.fresh c) ∧ x = .ok c) ∨ (r = none ∧ ∃ exc, x = .error exc))
    Db.connect none := by
  intro s r s' hinv _ hstep
  cases r with
  | error name =>
    obtain rfl := hstep
    exact ⟨none, ⟨hinv, (migrating H start).moves_refl _, (migrating H start).knows_outside _,
      fun θ₂ _ h => ⟨h, (migrating H start).apart_outside θ₂⟩⟩, .inr ⟨rfl, _, rfl⟩⟩
  | ok c =>
    obtain ⟨rfl, rfl⟩ := hstep
    have hsession : s.connected.sessions s.next = some ⟨.up, none⟩ := Function.update_self _ _ _
    have htxn : s.connected.txn s.next = none := by
      unfold Database.txn
      rw [hsession]
      rfl
    -- the connection is new: nobody has it, and nothing is in flight on it
    have hsound : Database.Sound H s.connected := by
      refine hinv.frame_of_commits Database.frame_connected rfl fun stmt hin => ?_
      exact absurd hin (Database.not_inFlight_of_live ⟨_, hsession, rfl⟩)
    refine ⟨some (.fresh s.next), ⟨hsound, ⟨rfl, List.prefix_refl _⟩, fun θ hθ => ?_,
      fun θ₂ _ hknows => ⟨fun b hb => ?_, fun a b ha hb => ?_⟩⟩, .inl ⟨s.next, rfl, rfl⟩⟩
    · obtain rfl := Option.some.inj hθ
      refine ⟨Nat.lt_succ_self _, fun v hv => ?_, Nat.zero_le _, fun x hx _ => ?_⟩
      · cases hv
      · obtain rfl := Option.some.inj hx
        refine ⟨htxn, fun h => ?_, fun h => ?_, fun h => ?_⟩ <;> cases h
    · exact (hknows b hb).frame Database.frame_connected (Nat.ne_of_lt (hknows b hb).conn)
    · obtain rfl := Option.some.inj ha
      exact (Nat.ne_of_lt (hknows b hb).conn).symm

theorem keeps_close : (migrating H start).KeepsRaising
    (fun r x => r = some θ.left ∧ x = .ok ()) (Db.close θ.conn) (some θ) := by
  intro s r s' hinv hknows hstep
  have hown := hknows θ rfl
  have hframe : Database.Frame θ.conn s s' ∧ Database.Sound H s' := by
    -- the session ends, or only its connection is lost
    rcases hstep with rfl | rfl
    · refine ⟨Database.frame_ended, hinv.frame_of_commits Database.frame_ended rfl fun st hin => ?_⟩
      exact absurd hin Database.not_inFlight_ended
    · refine ⟨Database.frame_lost, hinv.frame_of_commits Database.frame_lost rfl fun st hin => ?_⟩
      cases Database.inFlight_lost hin
  exact ⟨some θ.left, leaves_own hframe.1 hframe.2 rfl (hown.left hframe.1), rfl, rfl⟩

/-- What the server does to a session, it leaves to all processes what they know. -/
theorem leaves_server {c : ℕ} (hframe : Database.Frame c s s') (hinv : Database.Sound H s')
    (hdown : ¬ s'.Live c) : (migrating H start).Leaves none none s s' where
  inv := hinv
  moves := ⟨hframe.found, hframe.commits⟩
  own := (migrating H start).knows_outside _
  others θ₂ _ hknows := by
    refine ⟨fun b hb => ?_, (migrating H start).apart_outside θ₂⟩
    -- the process of the session can rely on nothing of it any more
    by_cases hconn : b.conn = c
    · exact (hknows b hb).down hframe (hconn ▸ hdown)
    · exact (hknows b hb).frame hframe hconn

theorem keeps_terminate {c : ℕ} : (migrating H start).Keeps (fun _ _ => True)
    (Prog.invoke (S := DbSig) (.terminate c)) none := by
  intro s r s' hinv _ hstep
  obtain rfl := hstep
  refine ⟨none, leaves_server Database.frame_ended (hinv.frame_of_commits Database.frame_ended rfl
    fun st hin => absurd hin Database.not_inFlight_ended) Database.not_live_ended, trivial⟩

theorem keeps_settle {c : ℕ} : (migrating H start).Keeps (fun _ _ => True)
    (Prog.invoke (S := DbSig) (.settle c)) none := by
  intro s r s' hinv _ hstep
  rcases hstep with rfl | ⟨txn, stmt, s₁, hsession, hperform, rfl⟩
  · exact ⟨none, ⟨hinv, (migrating H start).moves_refl _, (migrating H start).knows_outside _,
      fun θ₂ _ h => ⟨h, (migrating H start).apart_outside θ₂⟩⟩, trivial⟩
  · -- what was in flight does no harm
    obtain ⟨hframe, hsound⟩ := hinv.perform (hinv.inflight c stmt ⟨_, hsession, rfl⟩) hperform
    refine ⟨none, leaves_server (hframe.trans Database.frame_lost)
      (hsound _ Database.frame_lost rfl fun st hin => ?_) Database.not_live_lost, trivial⟩
    cases Database.inFlight_lost hin

/-- A program of a connection that only needs to have one. -/
def Reads {α : Type} (H : History) (start : Database) (c : ℕ) (p : Db α) : Prop :=
  ∀ θ : Role, θ.conn = c → (migrating H start).KeepsRaising
    (fun r _ => ∃ θ' : Role, r = some θ' ∧ θ'.conn = c) p (some θ)

theorem reads_ask {α : Type} {c : ℕ} {o : DbOp} {h : o.Res → Except String α}
    (hstep : ∀ s r s', (Database.world start).step s o r s' →
      (∃ a, h r = .ok a ∧ s' = s) ∨ ∃ name, h r = .error name ∧ s.Raised c none s') :
    Reads H start c (Db.ask o h) := by
  rintro θ rfl
  refine keeps_ask none (fun s _ _ stmt hnone => by cases hnone)
    (fun s r s' hs hk hworld => ?_) fun name => ⟨θ.left, rfl, rfl⟩
  rcases hstep s r s' hworld with ⟨a, ha, rfl⟩ | hraise
  · exact .inl ⟨a, ha, θ, rfl, .refl, hs, hk, θ, rfl, rfl⟩
  · exact .inr hraise

theorem Reads.bind {α β : Type} {c : ℕ} {p : Db α} {f : α → Db β} (hp : Reads H start c p)
    (hf : ∀ a, Reads H start c (f a)) : Reads H start c (p >>= f) := by
  intro θ hconn
  refine (hp θ hconn).bind (fun r a hr => ?_) fun r exc hr => hr
  obtain ⟨θ', rfl, hconn'⟩ := hr
  exact hf a θ' hconn'

theorem reads_current {c : ℕ} : Reads H start c (Db.current c) := by
  refine Reads.bind (reads_ask fun s r s' hstep => ?_) fun found => ?_
  · cases r with
    | error name => exact .inr ⟨name, rfl, hstep⟩
    | ok found => exact .inl ⟨found, rfl, hstep.2.2⟩
  · cases found with
    | false => exact fun θ hconn => ⟨θ, rfl, hconn⟩
    | true =>
      refine reads_ask fun s r s' hstep => ?_
      cases r with
      | error name => exact .inr ⟨name, rfl, hstep⟩
      | ok version => exact .inl ⟨version, rfl, hstep.2.2⟩

/-- A program with a connection of its own. -/
theorem keeps_withConnection {α : Type} {body : ℕ → Db α}
    {Q : Option Role → Except MigrateError α → Prop}
    (hbody : ∀ c, (migrating H start).KeepsRaising
      (fun r x => ∃ θ : Role, r = some θ ∧ θ.conn = c ∧ Q (some θ.left) x) (body c)
      (some (.fresh c))) (hnone : ∀ exc, Q none (.error exc)) :
    (migrating H start).KeepsRaising Q (Db.withConnection body) none := by
  unfold Db.withConnection
  refine keeps_connect.bind (fun r c hr => ?_) fun r exc hr => ?_
  · rcases hr with ⟨c', rfl, hc⟩ | ⟨-, exc, hexc⟩
    · obtain rfl := Except.ok.inj hc
      refine (hbody c).attempt_bind fun r x hr => ?_
      obtain ⟨θ, rfl, rfl, hQ⟩ := hr
      refine keeps_close.bind (fun r u hr => ?_) fun r exc hr => ?_
      · obtain ⟨rfl, -⟩ := hr
        exact hQ
      · cases hr.2
    · cases hexc
  · rcases hr with ⟨c', -, hexc⟩ | ⟨rfl, -⟩
    · cases hexc
    · exact hnone exc

/-- **`migrate`**: where it returns, the versions that it names are those it has committed, and
the database has at least its migrations. -/
theorem keeps_migrate {code : Release} (hcode : H.Includes code) :
    (migrating H start).KeepsRaising (fun r x => ∀ applied, x = .ok applied →
      ∃ θ, r = some θ ∧ θ.done = applied ∧ code.migrations.length ≤ θ.reached)
      (Db.migrate code) none := by
  -- the lock, the migrations, and the unlock in every case
  refine keeps_withConnection (fun c => ?_) fun exc applied h => by cases h
  refine bind_brings (θ := .fresh c) keeps_lock ?_ fun r x hlost => ?_
  · unfold Db.ensuring
    refine (keeps_migrateLocked (θ := .fresh c) hcode rfl).attempt_bind fun r x hr => ?_
    rcases hr with ⟨θ, rfl, hconn, rfl⟩ | ⟨⟨θ, rfl, hconn⟩, exc, rfl⟩
    · -- while the lock is held the number of migrations is exact, and it never falls
      obtain rfl : θ.conn = c := hconn
      have hunlock : (migrating H start).KeepsRaising _ (Db.execute θ.conn .unlock)
          (some (θ.at (.within none (some code.migrations.length)))) := keeps_execute
        (θ.at (.within none (some code.migrations.length)))
        { θ with inside := none, reached := code.migrations.length } rfl
        (fun _ _ _ _ => trivial) fun s s' _ hk hlive _ hframe => by
          have hcount := (hk.inside _ rfl hlive).count rfl _ rfl
          have hleft := hk.left hframe
          exact ⟨hleft.conn, hleft.done, hcount ▸ hframe.count_le, hleft.inside⟩
      refine hunlock.bind (fun r u hr => ?_) fun r exc hr => ?_
      · rcases hr with ⟨rfl, -⟩ | ⟨-, name, hname⟩
        · refine ⟨_, rfl, rfl, fun applied h => ?_⟩
          obtain rfl := Except.ok.inj h
          exact ⟨_, rfl, rfl, Nat.le_refl _⟩
        · cases hname
      · rcases hr with ⟨-, hexc⟩ | ⟨rfl, -⟩
        · cases hexc
        · exact ⟨_, rfl, rfl, fun applied h => by cases h⟩
    · obtain rfl : θ.conn = c := hconn
      refine (keeps_harmless .unlock fun _ => trivial).bind (fun r u hr => ?_)
        fun r exc' hr => ?_
      · exact ⟨_, hr, rfl, fun applied h => by cases h⟩
      · exact ⟨_, hr, rfl, fun applied h => by cases h⟩
  · obtain ⟨⟨θ, rfl, hconn⟩, exc, rfl⟩ := hlost
    exact ⟨θ, rfl, hconn, fun applied h => by cases h⟩

/-- A program that only reads the version. -/
theorem keeps_reads {α : Type} {body : ℕ → Db α} (hbody : ∀ c, Reads H start c (body c)) :
    (migrating H start).KeepsRaising (fun _ _ => True) (Db.withConnection body) none := by
  refine keeps_withConnection (fun c => ?_) fun _ => trivial
  refine (hbody c (.fresh c) rfl).mono fun r x hr => ?_
  obtain ⟨θ, rfl, hconn⟩ := hr
  exact ⟨θ, rfl, hconn, trivial⟩

theorem keeps_ping : (migrating H start).KeepsRaising (fun _ _ => True) Db.ping none := by
  refine keeps_reads fun c => Reads.bind (fun θ hconn => ?_) fun _ => reads_current
  subst hconn
  refine (keeps_harmless .selectOne fun _ => trivial).mono fun r x hr => ?_
  exact ⟨θ.left, hr, rfl⟩

theorem keeps_assertCurrent {code : Release} :
    (migrating H start).KeepsRaising (fun _ _ => True) (Db.assertCurrent code) none := by
  refine (keeps_reads fun c => reads_current).bind (fun r version _ => ?_) fun _ _ _ => trivial
  by_cases hbehind : version < code.latest
  · rw [if_pos hbehind]
    trivial
  · rw [if_neg hbehind]
    by_cases hahead : code.latest < version
    · rw [if_pos hahead]
      trivial
    · rw [if_neg hahead]
      trivial

end Keeps

/-! ### Every run -/

/-- What goes on at a database: processes of any release, and what the server does to sessions. -/
inductive DbCall (H : History) where
  | migrate (code : Release) (h : H.Includes code)
  | currentVersion
  | ping
  | assertCurrent (code : Release)
  | terminate (conn : ℕ)
  | settle (conn : ℕ)

/-- What each returns. -/
abbrev DbCall.Out {H : History} : DbCall H → Type
  | migrate _ _ => Except MigrateError (List ℤ)
  | currentVersion => Except MigrateError ℤ
  | ping => Except MigrateError ℤ
  | assertCurrent _ => Except MigrateError Unit
  | terminate _ => Unit
  | settle _ => Unit

/-- The processes of a deployment. -/
def processes (H : History) : Service DbSig where
  Call := DbCall H
  Out := DbCall.Out
  body
    | .migrate code _ => (Db.migrate code).run
    | .currentVersion => Db.currentVersion.run
    | .ping => Db.ping.run
    | .assertCurrent code => (Db.assertCurrent code).run
    | .terminate conn => .invoke (S := DbSig) (.terminate conn)
    | .settle conn => .invoke (S := DbSig) (.settle conn)

/-- What the processes keep, and what a migration returns. -/
def processesKeep {H : History} {start : Database} (hstart : Database.Sound H start) :
    (migrating H start).Cast (processes H) where
  returns
    | .migrate code _, r, x => ∀ applied, x = .ok applied →
        ∃ θ : Role, r = some θ ∧ θ.done = applied ∧ code.migrations.length ≤ θ.reached
    | _, _, _ => True
  start := hstart
  keeps
    | .migrate _ hcode => keeps_migrate hcode
    | .currentVersion => keeps_reads fun _ => reads_current
    | .ping => keeps_ping
    | .assertCurrent _ => keeps_assertCurrent
    | .terminate _ => keeps_terminate
    | .settle _ => keeps_settle

/-- A database with the first `n` migrations, before the first process. -/
def Database.initially (H : History) (n : ℕ) (ledger : Bool) : Database :=
  ⟨ledger, (H.migrations.take n).map Migration.version, [], none, fun _ => none, 0⟩

section Runs

variable {H : History} {n₀ : ℕ} {ledger : Bool}

theorem Database.initially_count (hn₀ : n₀ ≤ H.migrations.length) :
    (Database.initially H n₀ ledger).found.length = n₀ := by
  change ((H.migrations.take n₀).map Migration.version).length = n₀
  rw [List.length_map, List.length_take, Nat.min_eq_left hn₀]

theorem Database.sound_initially (hn₀ : n₀ ≤ H.migrations.length)
    (hledger : ledger = false → n₀ = 0) : Sound H (Database.initially H n₀ ledger) where
  found := by
    rw [initially_count hn₀]
    rfl
  count := by
    unfold count
    rw [initially_count hn₀]
    exact hn₀
  commits := by
    unfold count
    rw [initially_count hn₀]
    have hnone : (H.migrations.take n₀).drop n₀ = [] :=
      List.drop_eq_nil_of_le (List.length_take_le _ _)
    change List.Forall₂ _ ((H.migrations.take n₀).drop n₀) []
    rw [hnone]
    exact .nil
  ledger hnone := by
    obtain rfl := hledger hnone
    rfl
  inflight c stmt h := by
    obtain ⟨session, hsession, -⟩ := h
    cases hsession

/-- A version is committed by one session only. -/
theorem Database.Sound.committed_once {s : Database} (hs : Sound H s) {c c' : ℕ}
    {writes writes' : List Write} {v : ℤ} (h : (c, writes) ∈ s.commits)
    (h' : (c', writes') ∈ s.commits) (hv : v ∈ rowsOf writes) (hv' : v ∈ rowsOf writes') :
    c = c' := by
  obtain ⟨a, ha, hcommit⟩ := List.mem_iff_getElem.mp h
  obtain ⟨b, hb, hcommit'⟩ := List.mem_iff_getElem.mp h'
  -- the migration that a commit has written
  have hlength := hs.commits.length_eq
  rw [List.length_map] at hlength
  have hwritten : ∀ i (hi : i < s.commits.length)
      (hm : i < ((H.migrations.take s.count).drop s.found.length).length),
      ∀ v ∈ rowsOf s.commits[i].2,
      v = ((H.migrations.take s.count).drop s.found.length)[i].version := by
    intro i hi hm v hv
    have hone := hs.commits.get hm (by rw [List.length_map]; exact hi)
    rw [List.get_eq_getElem, List.get_eq_getElem, List.getElem_map] at hone
    rw [hone.rowsOf] at hv
    exact List.mem_singleton.mp hv
  have hincreasing : ((H.migrations.take s.count).drop s.found.length).Pairwise
      fun m m' => m.version < m'.version :=
    (H.increasing.sublist (List.take_sublist _ _)).sublist (List.drop_sublist _ _)
  have heq := (hwritten a ha (hlength ▸ ha) v (hcommit ▸ hv)).symm.trans
    (hwritten b hb (hlength ▸ hb) v (hcommit' ▸ hv'))
  -- two commits at different places have different versions, since the history increases
  rcases lt_trichotomy a b with hlt | rfl | hlt
  · exact absurd heq (ne_of_lt (List.pairwise_iff_getElem.mp hincreasing a b _ _ hlt))
  · exact congrArg Prod.fst (hcommit.symm.trans hcommit')
  · exact absurd heq.symm (ne_of_lt (List.pairwise_iff_getElem.mp hincreasing b a _ _ hlt))

/-- The row of a commit is one of the migrations that were not found. -/
theorem Database.Sound.committed_new {s : Database} (hs : Sound H s) {c : ℕ} {writes : List Write}
    {v : ℤ} (h : (c, writes) ∈ s.commits) (hv : v ∈ rowsOf writes) :
    v ∈ ((H.migrations.take s.count).drop s.found.length).map Migration.version := by
  rw [← rowsOf_commits hs.commits]
  exact List.mem_flatMap.mpr ⟨_, h, hv⟩

/-- **Concurrent migrations are serialized.** Whatever processes of whatever releases do at once,
and whichever connections are lost, the ledger has the first `n` migrations of the history; each of
those that were not found was committed once, its statements together with its row; nothing is ever
undone. Where `migrate` has returned, the database has all migrations of that release, and no two
calls have applied the same one. -/
theorem migrations_serialized (hn₀ : n₀ ≤ H.migrations.length) (hledger : ledger = false → n₀ = 0)
    {run : List ((processes H).Moment (Database.world (Database.initially H n₀ ledger)))}
    {s : Database} (h : Service.Exec (processes H) (Database.world _) run s) :
    (∃ n, n₀ ≤ n ∧ n ≤ H.migrations.length ∧
      s.versions = (H.migrations.take n).map Migration.version ∧
      List.Forall₂ Migration.Written ((H.migrations.take n).drop n₀) (s.commits.map Prod.snd) ∧
      ∀ (i : ℕ) code hcode applied, (Service.calls run)[i]? = some (.migrate code hcode) →
        Raises.Run (Db.migrate code) (Service.history i run) (.ok applied) →
        code.migrations.length ≤ n ∧
          ∀ v ∈ applied, v ∈ ((H.migrations.take n).drop n₀).map Migration.version) ∧
    (∀ (i j : ℕ) code hcode applied code' hcode' applied', i ≠ j →
      (Service.calls run)[i]? = some (.migrate code hcode) →
      Raises.Run (Db.migrate code) (Service.history i run) (.ok applied) →
      (Service.calls run)[j]? = some (.migrate code' hcode') →
      Raises.Run (Db.migrate code') (Service.history j run) (.ok applied') →
      applied.Disjoint applied') ∧
    (Service.states run s).Pairwise fun before after => before.versions <+: after.versions := by
  obtain ⟨hsound, ⟨role, hholds⟩, hstart, hmoves⟩ :=
    (processesKeep (Database.sound_initially hn₀ hledger)).sound h
  have hfound : s.found.length = n₀ := by
    rw [hstart.1]
    exact Database.initially_count hn₀
  -- a call that has returned knows what it has committed, and how far the database is
  have hreturned : ∀ (i : ℕ) code hcode applied,
      (Service.calls run)[i]? = some (.migrate code hcode) →
      Raises.Run (Db.migrate code) (Service.history i run) (.ok applied) →
      ∃ θ : Role, role i = some θ ∧ θ.done = applied ∧ code.migrations.length ≤ θ.reached ∧
        Knows θ s := by
    intro i code hcode applied hcall hret
    obtain ⟨hreturns, hknows⟩ := hholds.returned hcall hret
    obtain ⟨θ, hθ, hdone, hreached⟩ := hreturns applied rfl
    exact ⟨θ, hθ, hdone, hreached, hknows θ hθ⟩
  refine ⟨⟨s.count, hfound ▸ Nat.le_add_right _ _, hsound.count, hsound.versions,
    hfound ▸ hsound.commits, fun i code hcode applied hcall hret => ?_⟩,
    fun i j code hcode applied code' hcode' applied' hne hcall hret hcall' hret' v hv hv' => ?_,
    hmoves.imp fun {a b} hab => ?_⟩
  · obtain ⟨θ, -, rfl, hreached, hknows⟩ := hreturned i code hcode applied hcall hret
    refine ⟨Nat.le_trans hreached hknows.reached, fun v hv => ?_⟩
    obtain ⟨writes, hmem, hrow⟩ := hknows.done v hv
    exact hfound ▸ hsound.committed_new hmem hrow
  · -- two processes with one version would have one connection
    obtain ⟨θ, hθ, rfl, -, hknows⟩ := hreturned i code hcode applied hcall hret
    obtain ⟨θ', hθ', rfl, -, hknows'⟩ := hreturned j code' hcode' applied' hcall' hret'
    obtain ⟨writes, hmem, hrow⟩ := hknows.done v hv
    obtain ⟨writes', hmem', hrow'⟩ := hknows'.done v hv'
    have hi := (List.getElem?_eq_some_iff.mp hcall).1
    have hj := (List.getElem?_eq_some_iff.mp hcall').1
    exact hholds.apart i j hi hj hne θ θ' hθ hθ' (hsound.committed_once hmem hmem' hrow hrow')
  · obtain ⟨hsame, more, hmore⟩ := hab
    unfold Database.versions
    rw [hsame, ← hmore, List.flatMap_append, ← List.append_assoc]
    exact List.prefix_append _ _

end Runs

/-! ### A deployment -/

namespace Database

instance decidableLive (s : Database) (c : ℕ) : Decidable (s.Live c) :=
  match h : s.sessions c with
  | none => isFalse fun ⟨_, hs, _⟩ => by rw [h] at hs; cases hs
  | some session => decidable_of_iff (session.link = .up)
      ⟨fun hup => ⟨session, h, hup⟩, fun ⟨_, hs, hup⟩ => by rw [h] at hs; cases hs; exact hup⟩

/-- A database that answers every session that is live, and in which a statement waits until it
can be carried out. -/
def driver (start : Database) : Service.Driver (world start) where
  answer (s : Database)
    | .connect => .ok s.next
    | .execute c _ => if s.Live c then .ok () else .error "OperationalError"
    | .regclass c => if s.Live c then .ok s.ledger else .error "OperationalError"
    | .maxVersion c => if s.Live c then .ok (s.versions.max?.getD 0) else .error "OperationalError"
    | .now => 0
    | .close _ => ()
    | .terminate _ => ()
    | .settle _ => ()
  after (s : Database)
    | .connect => some s.connected
    | .execute c stmt => if s.Live c then s.perform c stmt else some s
    | .close c => some (s.ended c)
    | .terminate c => some (s.ended c)
    | _ => some s
  sound := by
    intro (s : Database) o (s' : Database) h
    cases o with
    | connect => exact ⟨rfl, (Option.some.inj h).symm⟩
    | execute c stmt =>
      change (if s.Live c then s.perform c stmt else some s) = some s' at h
      by_cases hlive : s.Live c
      · rw [if_pos hlive] at h
        simp only [if_pos hlive]
        exact ⟨hlive, h⟩
      · rw [if_neg hlive] at h
        simp only [if_neg hlive]
        exact .inl (Option.some.inj h).symm
    | regclass c =>
      by_cases hlive : s.Live c
      · simp only [if_pos hlive]
        exact ⟨hlive, rfl, (Option.some.inj h).symm⟩
      · simp only [if_neg hlive]
        exact .inl (Option.some.inj h).symm
    | maxVersion c =>
      by_cases hlive : s.Live c
      · simp only [if_pos hlive]
        exact ⟨hlive, rfl, (Option.some.inj h).symm⟩
      · simp only [if_neg hlive]
        exact .inl (Option.some.inj h).symm
    | now => exact (Option.some.inj h).symm
    | close c => exact .inl (Option.some.inj h).symm
    | terminate c => exact (Option.some.inj h).symm
    | settle c => exact .inl (Option.some.inj h).symm

end Database

/-- `MIGRATIONS`, with the names of the schemas in the place of their texts. -/
def MIGRATIONS : List Migration :=
  [⟨1, "baseline", "AUDIT_SCHEMA\nREVOCATIONS_SCHEMA\nAPPROVALS_SCHEMA\nMANDATES_SCHEMA\n" ++
      "LEDGER_SCHEMA\nCONNECTOR_STATE_SCHEMA"⟩,
    ⟨2, "memory_content", "MEMORY_CONTENT_SCHEMA"⟩,
    ⟨3, "audit_truncate_guard", "AUDIT_TRUNCATE_GUARD_SCHEMA"⟩]

/-- The history so far. -/
def History.soFar : History := ⟨MIGRATIONS, by decide, by decide⟩

/-- The release whose newest migration is the `n`th. -/
def Release.upTo (n : ℕ) (h : MIGRATIONS.take n ≠ []) : Release := ⟨MIGRATIONS.take n, h⟩

/-- Two processes of the newest release and one of the release before it start on a new database.
The session of the first is ended after its first migration, the second applies one, and the third
the rest. -/
def deployment : List (Service.Move (processes .soFar)) :=
  [.spawn (.migrate (.upTo 3 (by decide)) (List.take_prefix _ _)),
    .spawn (.migrate (.upTo 2 (by decide)) (List.take_prefix _ _)), .next 1, .next 0] ++
  List.replicate 11 (.next 0) ++ [.spawn (.terminate 1), .next 2] ++ List.replicate 6 (.next 0) ++
  List.replicate 13 (.next 1) ++
  [.spawn (.migrate (.upTo 3 (by decide)) (List.take_prefix _ _))] ++ List.replicate 15 (.next 3)

/-- The deployment ends with all three migrations, and never takes one back. -/
theorem migrations_serialized_deployment :
    ∃ run, ∃ s : Database,
      Service.Exec (processes .soFar) (Database.world (.initially .soFar 0 false)) run s ∧
        s.versions = [1, 2, 3] ∧ (Service.states run s).Pairwise fun before after : Database =>
          before.versions <+: after.versions := by
  have hplay : ((Database.driver (.initially .soFar 0 false)).play (.start _ _) deployment).any
      (fun p => (Database.versions p.state) == [1, 2, 3]) = true := by decide +kernel
  obtain ⟨p, hp, htest⟩ := (Option.any_eq_true _ _).mp hplay
  have hsound := Service.Driver.sound_play Service.Pool.sound_start hp
  exact ⟨p.run, p.state, hsound.exec, eq_of_beq htest,
    (migrations_serialized (by decide) (fun _ => rfl) hsound.exec).2.2⟩

end HeadOfContext
