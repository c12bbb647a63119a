import Mathlib.Data.List.Nodup
import Mathlib.Tactic.Common

/-!
# Dictionaries in insertion order

`Dict κ ν` is a finite map kept as the list of its entries, one for each key, in the order in
which the keys were first set: iterating over it is iterating over the list.
-/

/-- A finite map, kept as the list of its entries in insertion order. -/
structure Dict (κ ν : Type) where
  entries : List (κ × ν)
  nodup : (entries.map Prod.fst).Nodup

namespace Dict

variable {κ ν : Type} [DecidableEq κ] {d : Dict κ ν} {k k' : κ} {v : ν}

/-- `{}`. -/
def empty : Dict κ ν := ⟨[], .nil⟩

/-- `d.get(k)`. -/
def get (d : Dict κ ν) (k : κ) : Option ν := (d.entries.find? fun e => e.1 = k).map Prod.snd

/-- The keys, in order. -/
def keys (d : Dict κ ν) : List κ := d.entries.map Prod.fst

/-- The values, in order. -/
def values (d : Dict κ ν) : List ν := d.entries.map Prod.snd

/-- The entries after `d[k] = v`. -/
def setEntry (k : κ) (v : ν) : List (κ × ν) → List (κ × ν)
  | [] => [(k, v)]
  | e :: rest => if e.1 = k then (k, v) :: rest else e :: setEntry k v rest

theorem fst_setEntry {l : List (κ × ν)} :
    (setEntry k v l).map Prod.fst =
      if k ∈ l.map Prod.fst then l.map Prod.fst else l.map Prod.fst ++ [k] := by
  induction l with
  | nil => rfl
  | cons e rest ih =>
    rw [setEntry]
    by_cases he : e.1 = k
    · rw [if_pos he, List.map_cons, List.map_cons, if_pos (he ▸ List.mem_cons_self), he]
    · have hne : ¬ k = e.1 := fun h => he h.symm
      rw [if_neg he, List.map_cons, List.map_cons, ih]
      by_cases hk : k ∈ rest.map Prod.fst
      · rw [if_pos hk, if_pos (List.mem_cons_of_mem _ hk)]
      · have hk' : k ∉ e.1 :: rest.map Prod.fst := fun h =>
          hk ((List.mem_cons.mp h).resolve_left hne)
        rw [if_neg hk, if_neg hk', List.cons_append]

/-- `d[k] = v`. -/
def set (d : Dict κ ν) (k : κ) (v : ν) : Dict κ ν where
  entries := setEntry k v d.entries
  nodup := by
    rw [fst_setEntry]
    by_cases hk : k ∈ d.entries.map Prod.fst
    · rw [if_pos hk]
      exact d.nodup
    · rw [if_neg hk]
      exact List.nodup_append.mpr ⟨d.nodup, List.nodup_singleton k, fun a ha b hb => by
        obtain rfl := List.mem_singleton.mp hb
        exact fun h => hk (h ▸ ha)⟩

/-- `d[k] = v` for each entry of the list, in order. -/
def setAll (d : Dict κ ν) (entries : List (κ × ν)) : Dict κ ν :=
  entries.foldl (fun d e => d.set e.1 e.2) d

/-- `dict.fromkeys(keys, v)`. -/
def fromKeys (keys : List κ) (v : ν) : Dict κ ν := empty.setAll (keys.map fun k => (k, v))

/-- `d.update(d')`. -/
def update (d d' : Dict κ ν) : Dict κ ν := d.setAll d'.entries

/-- `d.setdefault(k, v)`. -/
def setdefault (d : Dict κ ν) (k : κ) (v : ν) : Dict κ ν :=
  if (d.get k).isSome then d else d.set k v

/-- `d.pop(k, None)`. -/
def pop (d : Dict κ ν) (k : κ) : Dict κ ν where
  entries := d.entries.filter fun e => e.1 ≠ k
  nodup := d.nodup.sublist (List.filter_sublist.map _)

/-- `del d[k]` for each key of the list, in order. -/
def popAll (d : Dict κ ν) (keys : List κ) : Dict κ ν := keys.foldl pop d

@[simp] theorem get_empty : (empty : Dict κ ν).get k = none := rfl

@[simp] theorem get_set : (d.set k v).get k' = if k' = k then some v else d.get k' := by
  have hentry : ∀ l : List (κ × ν), ((setEntry k v l).find? fun e => e.1 = k').map Prod.snd =
      if k' = k then some v else (l.find? fun e => e.1 = k').map Prod.snd := by
    intro l
    induction l with
    | nil =>
      by_cases hk : k' = k
      · simp [setEntry, hk]
      · have hne : ¬ k = k' := fun h => hk h.symm
        simp [setEntry, hk, hne]
    | cons e rest ih =>
      by_cases he : e.1 = k
      · by_cases hk : k' = k
        · simp [setEntry, he, hk]
        · have hne : ¬ k = k' := fun h => hk h.symm
          simp [setEntry, he, hk, hne]
      · rw [setEntry, if_neg he, List.find?_cons, List.find?_cons]
        by_cases he' : e.1 = k'
        · have hk : ¬ k' = k := fun h => he (he'.trans h)
          simp [he', hk]
        · simpa [he'] using ih
  exact hentry d.entries

theorem get_setdefault :
    (d.setdefault k v).get k' = if k' = k then some ((d.get k).getD v) else d.get k' := by
  unfold setdefault
  match hget : d.get k with
  | some v₀ =>
    by_cases hk : k' = k
    · subst hk
      simp [hget]
    · simp [hk]
  | none => simp

theorem get_pop : (d.pop k).get k' = if k' = k then none else d.get k' := by
  rw [get, get, pop, List.find?_filter]
  by_cases hk : k' = k
  · subst hk
    rw [if_pos rfl, List.find?_eq_none.mpr fun e _ => by simp]
    rfl
  · rw [if_neg hk]
    congr 2
    funext e
    by_cases he : e.1 = k'
    · have hne : ¬ e.1 = k := fun h => hk (he.symm.trans h)
      simp [he, hk]
    · simp [he]

theorem get_popAll {keys : List κ} :
    (d.popAll keys).get k = if k ∈ keys then none else d.get k := by
  induction keys generalizing d with
  | nil => exact (if_neg List.not_mem_nil).symm
  | cons key keys ih =>
    change ((d.pop key).popAll keys).get k = _
    rw [ih, get_pop]
    by_cases hkeys : k ∈ keys
    · rw [if_pos hkeys, if_pos (List.mem_cons_of_mem _ hkeys)]
    · by_cases hkey : k = key
      · rw [if_neg hkeys, if_pos hkey, if_pos (hkey ▸ List.mem_cons_self)]
      · have hcons : k ∉ key :: keys := fun h => (List.mem_cons.mp h).elim hkey hkeys
        rw [if_neg hkeys, if_neg hkey, if_neg hcons]

theorem entries_popAll {keys : List κ} :
    (d.popAll keys).entries = d.entries.filter fun e => decide (e.1 ∉ keys) := by
  induction keys generalizing d with
  | nil => exact (List.filter_eq_self.mpr fun e _ => decide_eq_true List.not_mem_nil).symm
  | cons key keys ih =>
    change ((d.pop key).popAll keys).entries = _
    rw [ih, pop, List.filter_filter]
    congr 1
    funext e
    rw [← Bool.decide_and]
    refine decide_eq_decide.mpr ⟨fun h => ?_, fun h => ?_⟩
    · exact fun hmem => (List.mem_cons.mp hmem).elim h.2 h.1
    · exact ⟨fun hmem => h (List.mem_cons_of_mem _ hmem), fun he => h (he ▸ List.mem_cons_self)⟩

theorem ne_of_get_eq_none (h : d.get k = none) : ∀ e ∈ d.entries, e.1 ≠ k := by
  intro e he hk
  exact List.find?_eq_none.mp (Option.map_eq_none_iff.mp h) e he (decide_eq_true hk)

/-- Removing a key that is not there changes nothing. -/
theorem pop_of_get_eq_none (h : d.get k = none) : d.pop k = d := by
  have hentries : d.entries.filter (fun e => decide (e.1 ≠ k)) = d.entries :=
    List.filter_eq_self.mpr fun e he => decide_eq_true (ne_of_get_eq_none h e he)
  obtain ⟨entries, nodup⟩ := d
  unfold pop
  congr

/-- A key that is set anew and removed again leaves the dictionary as it was. -/
theorem pop_set (h : d.get k = none) : (d.set k v).pop k = d := by
  have hset : ∀ l : List (κ × ν), (∀ e ∈ l, e.1 ≠ k) →
      (setEntry k v l).filter (fun e => decide (e.1 ≠ k)) = l := by
    intro l hl
    induction l with
    | nil => simp [setEntry]
    | cons e rest ih =>
      have he : e.1 ≠ k := hl e List.mem_cons_self
      rw [setEntry, if_neg he, List.filter_cons, if_pos (decide_eq_true he),
        ih fun e' he' => hl e' (List.mem_cons_of_mem _ he')]
  have hentries := hset d.entries (ne_of_get_eq_none h)
  obtain ⟨entries, nodup⟩ := d
  unfold pop set
  congr

/-- The keys are what is mapped to a value. -/
theorem mem_keys : k ∈ d.keys ↔ ∃ v, d.get k = some v := by
  rw [keys, List.mem_map]
  constructor
  · rintro ⟨e, hmem, rfl⟩
    obtain ⟨e', he'⟩ : ∃ e', (d.entries.find? fun x => x.1 = e.1) = some e' :=
      Option.isSome_iff_exists.mp (List.find?_isSome.mpr ⟨e, hmem, by simp⟩)
    exact ⟨e'.2, by rw [get, he', Option.map_some]⟩
  · rintro ⟨v, hget⟩
    obtain ⟨e, he, -⟩ := Option.map_eq_some_iff.mp hget
    exact ⟨e, List.mem_of_find?_eq_some he, by simpa using List.find?_some he⟩

/-- The values are what the keys are mapped to. -/
theorem mem_values : v ∈ d.values ↔ ∃ k, d.get k = some v := by
  rw [values, List.mem_map]
  constructor
  · rintro ⟨⟨k, v⟩, hmem, rfl⟩
    refine ⟨k, Option.map_eq_some_iff.mpr ⟨(k, v), ?_, rfl⟩⟩
    -- the first entry of the key is its only entry
    obtain ⟨e, he⟩ : ∃ e, (d.entries.find? fun e => e.1 = k) = some e :=
      Option.isSome_iff_exists.mp (List.find?_isSome.mpr ⟨_, hmem, by simp⟩)
    have hkey : e.1 = k := by simpa using List.find?_some he
    rw [he, Option.some.injEq]
    exact List.inj_on_of_nodup_map d.nodup (List.mem_of_find?_eq_some he) hmem hkey
  · rintro ⟨k, hget⟩
    obtain ⟨e, he, rfl⟩ := Option.map_eq_some_iff.mp hget
    exact ⟨e, List.mem_of_find?_eq_some he, rfl⟩

theorem mem_keys_set : k' ∈ (d.set k v).keys ↔ k' = k ∨ k' ∈ d.keys := by
  rw [mem_keys, mem_keys, get_set]
  by_cases hk : k' = k
  · exact iff_of_true ⟨v, if_pos hk⟩ (.inl hk)
  · rw [if_neg hk, or_iff_right hk]

theorem mem_keys_setdefault : k' ∈ (d.setdefault k v).keys ↔ k' = k ∨ k' ∈ d.keys := by
  rw [mem_keys, mem_keys, get_setdefault]
  by_cases hk : k' = k
  · exact iff_of_true ⟨_, if_pos hk⟩ (.inl hk)
  · rw [if_neg hk, or_iff_right hk]

/-- The entries are what the keys are mapped to. -/
theorem mem_entries : (k, v) ∈ d.entries ↔ d.get k = some v := by
  constructor
  · intro hmem
    obtain ⟨e, he⟩ : ∃ e, (d.entries.find? fun e => e.1 = k) = some e :=
      Option.isSome_iff_exists.mp (List.find?_isSome.mpr ⟨_, hmem, by simp⟩)
    have hkey : e.1 = k := by simpa using List.find?_some he
    obtain rfl : e = (k, v) :=
      List.inj_on_of_nodup_map d.nodup (List.mem_of_find?_eq_some he) hmem hkey
    rw [get, he, Option.map_some]
  · intro hget
    obtain ⟨⟨k', v'⟩, he, rfl⟩ := Option.map_eq_some_iff.mp hget
    obtain rfl : k' = k := by simpa using List.find?_some he
    exact List.mem_of_find?_eq_some he

/-! ### Where a key is set -/

/-- A new key is set at the end. -/
theorem entries_set_of_notMem (hk : k ∉ d.keys) :
    (d.set k v).entries = d.entries ++ [(k, v)] := by
  have hset : ∀ l : List (κ × ν), k ∉ l.map Prod.fst →
      setEntry k v l = l ++ [(k, v)] := by
    intro l
    induction l with
    | nil =>
      intro _
      rfl
    | cons e l ih =>
      intro hl
      rw [List.map_cons, List.mem_cons, not_or] at hl
      rw [setEntry, if_neg fun h => hl.1 h.symm, ih hl.2, List.cons_append]
  exact hset d.entries hk

/-- A key that is there is set in its place. -/
theorem entries_set_of_mem (hk : k ∈ d.keys) :
    (d.set k v).entries = d.entries.map fun e => if e.1 = k then (k, v) else e := by
  have hkeep : ∀ l : List (κ × ν), k ∉ l.map Prod.fst →
      (l.map fun e => if e.1 = k then (k, v) else e) = l := by
    intro l hl
    refine (List.map_congr_left fun e he => if_neg fun h => hl ?_).trans (List.map_id l)
    exact h ▸ List.mem_map_of_mem he
  have hset : ∀ l : List (κ × ν), (l.map Prod.fst).Nodup → k ∈ l.map Prod.fst →
      setEntry k v l = l.map fun e => if e.1 = k then (k, v) else e := by
    intro l
    induction l with
    | nil =>
      intro _ hmem
      exact absurd hmem List.not_mem_nil
    | cons e l ih =>
      intro hnodup hmem
      obtain ⟨hnew, hrest⟩ := List.nodup_cons.mp hnodup
      rw [setEntry, List.map_cons]
      by_cases he : e.1 = k
      · -- the key stands here, so it does not stand further on
        rw [if_pos he, if_pos he, hkeep l (he ▸ hnew)]
      · have htail : k ∈ l.map Prod.fst := (List.mem_cons.mp hmem).resolve_left fun h => he h.symm
        rw [if_neg he, if_neg he, ih hrest htail]
  exact hset d.entries d.nodup hk

/-! ### Setting many keys -/

theorem keys_set : (d.set k v).keys = if k ∈ d.keys then d.keys else d.keys ++ [k] := fst_setEntry

theorem get_setAll_map {l : List κ} {f : κ → ν} :
    (d.setAll (l.map fun x => (x, f x))).get k = if k ∈ l then some (f k) else d.get k := by
  induction l generalizing d with
  | nil => exact (if_neg List.not_mem_nil).symm
  | cons x l ih =>
    change ((d.set x (f x)).setAll _).get k = _
    rw [ih, get_set]
    by_cases hl : k ∈ l
    · rw [if_pos hl, if_pos (List.mem_cons_of_mem _ hl)]
    · by_cases hx : k = x
      · subst hx
        rw [if_neg hl, if_pos rfl, if_pos List.mem_cons_self]
      · have hcons : k ∉ x :: l := fun h => (List.mem_cons.mp h).elim hx hl
        rw [if_neg hl, if_neg hx, if_neg hcons]

theorem get_setAll {l : List (κ × ν)} (h : (l.map Prod.fst).Nodup) :
    (d.setAll l).get k = ((l.find? fun e => e.1 = k).map Prod.snd).or (d.get k) := by
  induction l generalizing d with
  | nil => rfl
  | cons e l ih =>
    obtain ⟨hnew, hrest⟩ := List.nodup_cons.mp h
    change ((d.set e.1 e.2).setAll l).get k = _
    rw [ih hrest, get_set, List.find?_cons]
    by_cases hk : e.1 = k
    · subst hk
      have hnone : (l.find? fun x => x.1 = e.1) = none := by
        refine List.find?_eq_none.mpr fun x hx heq => hnew ?_
        rw [← of_decide_eq_true heq]
        exact List.mem_map_of_mem hx
      simp [hnone]
    · have hne : ¬ k = e.1 := fun h => hk h.symm
      simp [hk, hne]

theorem get_update {d' : Dict κ ν} : (d.update d').get k = (d'.get k).or (d.get k) :=
  get_setAll d'.nodup

theorem get_fromKeys {l : List κ} : (fromKeys l v).get k = if k ∈ l then some v else none := by
  rw [fromKeys, get_setAll_map (f := fun _ => v), get_empty]

/-- Setting keys that are there keeps the order. -/
theorem keys_setAll_of_subset {l : List (κ × ν)} (h : ∀ e ∈ l, e.1 ∈ d.keys) :
    (d.setAll l).keys = d.keys := by
  induction l generalizing d with
  | nil => rfl
  | cons e l ih =>
    obtain ⟨hhead, htail⟩ := List.forall_mem_cons.mp h
    have hset : (d.set e.1 e.2).keys = d.keys := by rw [keys_set, if_pos hhead]
    change ((d.set e.1 e.2).setAll l).keys = _
    rw [ih (by rw [hset]; exact htail), hset]

/-- Setting new keys puts them at the end. -/
theorem keys_setAll_of_nodup {l : List (κ × ν)} (h : (d.keys ++ l.map Prod.fst).Nodup) :
    (d.setAll l).keys = d.keys ++ l.map Prod.fst := by
  induction l generalizing d with
  | nil => exact (List.append_nil _).symm
  | cons e l ih =>
    rw [List.map_cons, List.append_cons] at h
    have hnew : e.1 ∉ d.keys := by
      have hpair := (List.nodup_append.mp (List.nodup_append.mp h).1).2.2
      exact fun hmem => hpair e.1 hmem e.1 (List.mem_singleton_self _) rfl
    have hset : (d.set e.1 e.2).keys = d.keys ++ [e.1] := by rw [keys_set, if_neg hnew]
    change ((d.set e.1 e.2).setAll l).keys = _
    rw [ih (by rw [hset]; exact h), hset, List.map_cons, ← List.append_cons]

theorem keys_fromKeys {l : List κ} (h : l.Nodup) : (fromKeys l v).keys = l := by
  have hmap : (l.map fun k => (k, v)).map Prod.fst = l := by
    rw [List.map_map]
    exact List.map_id l
  have hkeys := keys_setAll_of_nodup (d := empty) (l := l.map fun k => (k, v)) (by
    rw [hmap]
    exact h)
  rw [hmap] at hkeys
  exact hkeys

/-- The entries are the keys with what they are mapped to. -/
theorem map_some_entries (d : Dict κ ν) :
    d.entries.map some = d.keys.map fun k => (d.get k).map fun v => (k, v) := by
  rw [keys, List.map_map]
  refine List.map_congr_left fun e he => ?_
  obtain ⟨v, hv⟩ := mem_keys.mp (List.mem_map_of_mem he : e.1 ∈ d.keys)
  obtain ⟨e', he', hvalue⟩ := Option.map_eq_some_iff.mp hv
  -- the entry found for a key is its only one
  have hkey : e'.1 = e.1 := by simpa using List.find?_some he'
  have heq : e' = e := List.inj_on_of_nodup_map d.nodup (List.mem_of_find?_eq_some he') he hkey
  rw [Function.comp_apply, hv, ← hvalue, heq]
  rfl

/-- **Extensionality**: the keys in order, and what they are mapped to. -/
theorem ext_of_keys {d' : Dict κ ν} (hkeys : d.keys = d'.keys) (hget : ∀ k, d.get k = d'.get k) :
    d = d' := by
  have hentries : d.entries.map some = d'.entries.map some := by
    rw [map_some_entries, map_some_entries, hkeys]
    exact List.map_congr_left fun k _ => by rw [hget k]
  obtain ⟨entries, nodup⟩ := d
  obtain ⟨entries', nodup'⟩ := d'
  obtain rfl : entries = entries' :=
    List.map_injective_iff.mpr (fun _ _ h => Option.some.inj h) hentries
  rfl

end Dict
