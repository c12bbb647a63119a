import HeadOfContext.Framework.JsonPrint
import Mathlib.Data.List.Sort

/-!
# Objects in any order

The object of a program lists its members in the order in which they were set, and two
objects are equal as JSON values when they have the same keys with equal values, whatever
the order (`Same`). `sortKeys` is what `sort_keys=True` does at every level. On values that
name each key of an object once, two values have one sorted form exactly when they are the
same (`sortKeys_eq_iff`), and the sorted form is well-formed (`IsValue.wf_sortKeys`), so the
canonical text of the sorted form identifies the value.
-/

namespace Json

/-- The order of the items of a dictionary: by key. -/
def KeyLe (a b : PyStr × Json) : Prop := a.1 ≤ b.1

instance : DecidableRel KeyLe := fun a b => inferInstanceAs (Decidable (a.1 ≤ b.1))

instance : Std.Total KeyLe := ⟨fun a b => le_total a.1 b.1⟩

instance : IsTrans (PyStr × Json) KeyLe := ⟨fun _ _ _ hab hbc => le_trans (α := PyStr) hab hbc⟩

/-- `sorted(d.items())`, the keys being different. -/
def sortItems (ms : List (PyStr × Json)) : List (PyStr × Json) := ms.insertionSort KeyLe

mutual

/-- A value with the members of every object sorted by their keys. -/
def sortKeys : Json → Json
  | null => .null
  | bool b => .bool b
  | int n => .int n
  | float x => .float x
  | str s => .str s
  | arr xs => .arr (sortKeysItems xs)
  | obj ms => .obj (sortItems (sortKeysMembers ms))

/-- The items of an array, sorted inside. -/
def sortKeysItems : List Json → List Json
  | [] => []
  | x :: xs => sortKeys x :: sortKeysItems xs

/-- The members of an object, sorted inside. -/
def sortKeysMembers : List (PyStr × Json) → List (PyStr × Json)
  | [] => []
  | (k, v) :: ms => (k, sortKeys v) :: sortKeysMembers ms

end

/-- A JSON value, the members of its objects in any order, one for each key. -/
inductive IsValue : Json → Prop
  | null : IsValue .null
  | bool (b : Bool) : IsValue (.bool b)
  | int {n : ℤ} (digits : n.natAbs < 10 ^ maxDigits) : IsValue (.int n)
  | float (x : PyFloat) : IsValue (.float x)
  | str {s : PyStr} (joined : Joined s) : IsValue (.str s)
  | arr {xs : List Json} (items : ∀ x ∈ xs, IsValue x) : IsValue (.arr xs)
  | obj {ms : List (PyStr × Json)} (distinct : (ms.map Prod.fst).Nodup)
      (keys : ∀ m ∈ ms, Joined m.1) (values : ∀ m ∈ ms, IsValue m.2) : IsValue (.obj ms)

/-- Equality of JSON values: the order of the members does not count. -/
inductive Same : Json → Json → Prop
  | null : Same .null .null
  | bool (b : Bool) : Same (.bool b) (.bool b)
  | int (n : ℤ) : Same (.int n) (.int n)
  | float (x : PyFloat) : Same (.float x) (.float x)
  | str (s : PyStr) : Same (.str s) (.str s)
  | arr {xs ys : List Json} (length : xs.length = ys.length)
      (items : ∀ (i : ℕ) (x y : Json), xs[i]? = some x → ys[i]? = some y → Same x y) :
      Same (.arr xs) (.arr ys)
  | obj {ms ns : List (PyStr × Json)} (keys : ∀ k, k ∈ ms.map Prod.fst ↔ k ∈ ns.map Prod.fst)
      (values : ∀ k v w, (k, v) ∈ ms → (k, w) ∈ ns → Same v w) : Same (.obj ms) (.obj ns)

theorem sortKeysItems_eq (xs : List Json) : sortKeysItems xs = xs.map sortKeys := by
  induction xs with
  | nil => rfl
  | cons x xs ih => rw [sortKeysItems, ih, List.map_cons]

theorem sortKeysMembers_eq (ms : List (PyStr × Json)) :
    sortKeysMembers ms = ms.map fun m => (m.1, sortKeys m.2) := by
  induction ms with
  | nil => rfl
  | cons m ms ih => rw [sortKeysMembers, ih, List.map_cons]

@[simp] theorem mem_sortItems {ms : List (PyStr × Json)} {m : PyStr × Json} :
    m ∈ sortItems ms ↔ m ∈ ms := List.mem_insertionSort KeyLe

/-- Sorting puts different keys in increasing order. -/
theorem sorted_sortItems {ms : List (PyStr × Json)} (h : (ms.map Prod.fst).Nodup) :
    (sortItems ms).Pairwise fun a b => a.1 < b.1 := by
  have hle : (sortItems ms).Pairwise KeyLe := List.pairwise_insertionSort KeyLe ms
  have hne : (sortItems ms).Pairwise fun a b => a.1 ≠ b.1 := by
    have hperm := (List.perm_insertionSort KeyLe ms).map Prod.fst
    exact List.pairwise_map.mp (hperm.nodup_iff.mpr h)
  exact hle.imp₂ (fun _ _ hab hab' => lt_of_le_of_ne hab hab') hne

/-- Two lists of members in key order are equal when they have the same members. -/
theorem eq_of_sorted {ms ns : List (PyStr × Json)} (hms : ms.Pairwise fun a b => a.1 < b.1)
    (hns : ns.Pairwise fun a b => a.1 < b.1) (h : ∀ m, m ∈ ms ↔ m ∈ ns) : ms = ns := by
  have hirrefl : Std.Irrefl fun a b : PyStr × Json => a.1 < b.1 := ⟨fun a => lt_irrefl a.1⟩
  have hantisymm : Std.Antisymm fun a b : PyStr × Json => a.1 < b.1 :=
    ⟨fun a b hab hba => absurd (hab.trans hba) (lt_irrefl a.1)⟩
  exact hms.eq_of_mem_iff hns h

theorem nodup_keys {ms : List (PyStr × Json)} (h : ms.Pairwise fun a b => a.1 < b.1) :
    (ms.map Prod.fst).Nodup :=
  List.pairwise_map.mpr (h.imp fun hab => ne_of_lt (α := PyStr) hab)

theorem keys_sortKeysMembers (ms : List (PyStr × Json)) :
    (sortKeysMembers ms).map Prod.fst = ms.map Prod.fst := by
  rw [sortKeysMembers_eq, List.map_map]
  rfl

/-- The keys of an object are unchanged. -/
theorem mem_keys_sortKeys {ms : List (PyStr × Json)} {k : PyStr} :
    (∃ v, (k, v) ∈ sortItems (sortKeysMembers ms)) ↔ k ∈ ms.map Prod.fst := by
  have hkeys : k ∈ (sortKeysMembers ms).map Prod.fst ↔ ∃ v, (k, v) ∈ sortKeysMembers ms := by
    simp
  rw [← keys_sortKeysMembers, hkeys]
  exact exists_congr fun v => mem_sortItems

/-- With each key once, a key has one value. -/
theorem value_unique {ms : List (PyStr × Json)} (h : (ms.map Prod.fst).Nodup) {k : PyStr}
    {v w : Json} (hv : (k, v) ∈ ms) (hw : (k, w) ∈ ms) : v = w :=
  congrArg Prod.snd (List.inj_on_of_nodup_map h hv hw rfl)

/-- **A sorted value is well-formed.** -/
theorem IsValue.wf_sortKeys {v : Json} (h : IsValue v) : Wf Joined (sortKeys v) := by
  -- only an object is reordered, after its values
  induction h with
  | null => exact .null
  | bool b => exact .bool b
  | int digits => exact .int digits
  | float x => exact .float x
  | str joined => exact .str joined
  | arr items ih =>
    rw [sortKeys, sortKeysItems_eq]
    refine .arr fun x hx => ?_
    obtain ⟨y, hy, rfl⟩ := List.mem_map.mp hx
    exact ih y hy
  | @obj ms distinct keys values ih =>
    rw [sortKeys]
    have hmem : ∀ m ∈ sortItems (sortKeysMembers ms), ∃ m' ∈ ms, m = (m'.1, sortKeys m'.2) := by
      intro m hm
      rw [mem_sortItems, sortKeysMembers_eq] at hm
      obtain ⟨m', hm', rfl⟩ := List.mem_map.mp hm
      exact ⟨m', hm', rfl⟩
    refine .obj (sorted_sortItems (by rwa [keys_sortKeysMembers])) (fun m hm => ?_) fun m hm => ?_
    · obtain ⟨m', hm', rfl⟩ := hmem m hm
      exact keys m' hm'
    · obtain ⟨m', hm', rfl⟩ := hmem m hm
      exact ih m' hm'

/-- Equal sorted forms come from the same value. -/
theorem same_of_sortKeys {a b : Json} (ha : IsValue a) (hb : IsValue b)
    (h : sortKeys a = sortKeys b) : Same a b := by
  induction ha generalizing b with
  | null | bool | int | float | str =>
    -- a value that is no container is its own sorted form
    cases hb <;> simp only [sortKeys, reduceCtorEq] at h
    cases h
    constructor
  | @arr xs items ih =>
    cases hb with
    | @arr ys items' =>
      have hmap : xs.map sortKeys = ys.map sortKeys := by
        simpa [sortKeys, sortKeysItems_eq] using h
      refine .arr (by simpa using congrArg List.length hmap) fun i x y hx hy => ?_
      have hitem : (xs.map sortKeys)[i]? = (ys.map sortKeys)[i]? := by rw [hmap]
      rw [List.getElem?_map, List.getElem?_map, hx, hy] at hitem
      exact ih x (List.mem_of_getElem? hx) (items' y (List.mem_of_getElem? hy))
        (Option.some.inj hitem)
    | _ => exact absurd h (by simp [sortKeys])
  | @obj ms distinct keys values ih =>
    cases hb with
    | @obj ns distinct' keys' values' =>
      have hsorted : sortItems (sortKeysMembers ms) = sortItems (sortKeysMembers ns) := by
        simpa [sortKeys] using h
      refine .obj (fun k => ?_) fun k v w hv hw => ?_
      · rw [← mem_keys_sortKeys, ← mem_keys_sortKeys, hsorted]
      · -- the value under the key is, sorted, among the members of the other object
        have hmem : (k, sortKeys v) ∈ sortKeysMembers ns := by
          rw [← mem_sortItems, ← hsorted, mem_sortItems, sortKeysMembers_eq]
          exact List.mem_map_of_mem hv
        rw [sortKeysMembers_eq] at hmem
        obtain ⟨⟨k', w'⟩, hw', heq⟩ := List.mem_map.mp hmem
        obtain ⟨rfl, hsame⟩ := Prod.mk.inj heq
        obtain rfl := value_unique distinct' hw hw'
        exact ih (k', v) hv (values' (k', w) hw) hsame.symm
    | _ => exact absurd h (by simp [sortKeys])

/-- The same value has one sorted form. -/
theorem sortKeys_eq_of_same {a b : Json} (ha : IsValue a) (hb : IsValue b) (h : Same a b) :
    sortKeys a = sortKeys b := by
  -- the induction is on the sameness; the atoms are equal
  induction h with
  | null | bool | int | float | str => rfl
  | @arr xs ys length _ ih =>
    cases ha with
    | arr items =>
      cases hb with
      | arr items' =>
        rw [sortKeys, sortKeys, sortKeysItems_eq, sortKeysItems_eq]
        congr 1
        apply List.ext_getElem (by simpa using length)
        intro i hi hi'
        rw [List.length_map] at hi hi'
        rw [List.getElem_map, List.getElem_map]
        exact ih i xs[i] ys[i] (List.getElem?_eq_getElem hi) (List.getElem?_eq_getElem hi')
          (items _ (List.getElem_mem hi)) (items' _ (List.getElem_mem hi'))
  | @obj ms ns hkeys _ ih =>
    cases ha with
    | obj distinct _ values =>
      cases hb with
      | obj distinct' _ values' =>
        have hmem : ∀ k v w, (k, v) ∈ ms → (k, w) ∈ ns → sortKeys v = sortKeys w :=
          fun k v w hv hw => ih k v w hv hw (values _ hv) (values' _ hw)
        -- the sorted members are the same set, and the order by distinct keys is the only one
        have hitems : ∀ m, m ∈ sortItems (sortKeysMembers ms) ↔
            m ∈ sortItems (sortKeysMembers ns) := by
          intro m
          simp only [mem_sortItems, sortKeysMembers_eq, List.mem_map]
          constructor
          · rintro ⟨⟨k, v⟩, hv, rfl⟩
            obtain ⟨⟨k', w⟩, hw, rfl⟩ := List.mem_map.mp ((hkeys k).mp (List.mem_map_of_mem hv))
            exact ⟨(k', w), hw, by rw [hmem k' v w hv hw]⟩
          · rintro ⟨⟨k, w⟩, hw, rfl⟩
            obtain ⟨⟨k', v⟩, hv, rfl⟩ := List.mem_map.mp ((hkeys k).mpr (List.mem_map_of_mem hw))
            exact ⟨(k', v), hv, by rw [hmem k' v w hv hw]⟩
        have hsorted : (sortItems (sortKeysMembers ms)).Pairwise fun a b => a.1 < b.1 :=
          sorted_sortItems (by rwa [keys_sortKeysMembers])
        have hsorted' : (sortItems (sortKeysMembers ns)).Pairwise fun a b => a.1 < b.1 :=
          sorted_sortItems (by rwa [keys_sortKeysMembers])
        rw [sortKeys, sortKeys, eq_of_sorted hsorted hsorted' hitems]

/-- **Two values have one sorted form exactly when they are the same value.** -/
theorem sortKeys_eq_iff {a b : Json} (ha : IsValue a) (hb : IsValue b) :
    sortKeys a = sortKeys b ↔ Same a b :=
  ⟨same_of_sortKeys ha hb, sortKeys_eq_of_same ha hb⟩

/-- **Two values have one canonical text exactly when they are the same value.** -/
theorem dumps_sortKeys_iff {ft : FloatText} {a b : Json} (ha : IsValue a) (hb : IsValue b) :
    dumps ft (sortKeys a) = dumps ft (sortKeys b) ↔ Same a b := by
  rw [← sortKeys_eq_iff ha hb]
  constructor
  · intro h
    exact dumps_injective ha.wf_sortKeys hb.wf_sortKeys h
  · intro h
    rw [h]

end Json
