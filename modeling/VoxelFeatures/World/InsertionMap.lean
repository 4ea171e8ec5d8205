import Std.Data.TreeMap

/-!
# Maps in insertion order

The entries of such a map keep the order in which their keys came first. A new
value for a key that is already there goes to the place of the old one. Beside
the entries stands an index, which knows the place of each key.
-/

namespace VoxelFeatures

structure InsertionMap (α β : Type) [Ord α] [Std.TransOrd α] where
  entries : Array (α × β)
  index : Std.TreeMap α Nat
  /-- The index has the place of every key, so that no key has two places. -/
  index_eq_some_iff : ∀ (k : α) (i : Nat),
    index[k]? = some i ↔ entries[i]?.map Prod.fst = some k

namespace InsertionMap

variable {α β : Type}

theorem lt_size_of_getElem? {entries : Array (α × β)} {k : α} {i : Nat}
    (h : entries[i]?.map Prod.fst = some k) : i < entries.size := by
  obtain ⟨e, he, -⟩ := Option.map_eq_some_iff.1 h
  exact (Array.getElem?_eq_some_iff.1 he).1

variable [Ord α]

theorem index_eq_some_iff_set {entries : Array (α × β)} {index : Std.TreeMap α Nat}
    (h : ∀ (k : α) (i : Nat), index[k]? = some i ↔ entries[i]?.map Prod.fst = some k) {k : α}
    {i : Nat} (hk : index[k]? = some i) (v : β) (k' : α) (j : Nat) :
    index[k']? = some j ↔ (entries.setIfInBounds i (k, v))[j]?.map Prod.fst = some k' := by
  have hi := (h k i).1 hk
  rw [h, Array.getElem?_setIfInBounds]
  split
  · rename_i hij
    rw [if_pos (lt_size_of_getElem? hi), ← hij, hi]
    rfl
  · rfl

variable [Std.TransOrd α]

/-- A map without entries. -/
def empty : InsertionMap α β := ⟨#[], ∅, by simp⟩

def size (m : InsertionMap α β) : Nat := m.entries.size

/-- The entries, in the order in which their keys came first. -/
def toList (m : InsertionMap α β) : List (α × β) := m.entries.toList

/-- The keys, in the order in which they came first. -/
def keys (m : InsertionMap α β) : List α := m.toList.map Prod.fst

theorem getElem?_toList_map_fst (m : InsertionMap α β) {k : α} {i : Nat} :
    m.toList[i]?.map Prod.fst = some k ↔ m.index[k]? = some i := by
  rw [m.index_eq_some_iff, toList, Array.getElem?_toList]

theorem lt_length_of_index (m : InsertionMap α β) {k : α} {i : Nat} (h : m.index[k]? = some i) :
    i < m.toList.length :=
  lt_size_of_getElem? ((m.index_eq_some_iff k i).1 h)

theorem mem_keys (m : InsertionMap α β) {k : α} : k ∈ m.keys ↔ ∃ i, m.index[k]? = some i := by
  simp only [keys, List.mem_iff_getElem?, List.getElem?_map, getElem?_toList_map_fst]

@[simp] theorem toList_empty : (empty : InsertionMap α β).toList = [] := rfl

variable [Std.LawfulEqOrd α]

theorem index_eq_some_iff_push {entries : Array (α × β)} {index : Std.TreeMap α Nat}
    (h : ∀ (k : α) (i : Nat), index[k]? = some i ↔ entries[i]?.map Prod.fst = some k) {k : α}
    (hk : index[k]? = none) (v : β) (k' : α) (j : Nat) :
    (index.insert k entries.size)[k']? = some j ↔
      (entries.push (k, v))[j]?.map Prod.fst = some k' := by
  have hnew := h k' entries.size
  rw [Std.TreeMap.getElem?_insert, Array.getElem?_push]
  by_cases hkk : k = k' <;> by_cases hj : j = entries.size
  · simp [hkk, hj]
  · subst hkk
    simp [hj, Ne.symm hj, ← h, hk]
  · simp_all
  · simp [hkk, hj, h]

/-- Puts a value under a key: in the place of the key, if it is there, and after
all the entries otherwise. -/
def insert (m : InsertionMap α β) (k : α) (v : β) : InsertionMap α β :=
  match m with
  | ⟨entries, index, h⟩ =>
      match hk : index[k]? with
      | some i => ⟨entries.setIfInBounds i (k, v), index, index_eq_some_iff_set h hk v⟩
      | none => ⟨entries.push (k, v), index.insert k entries.size, index_eq_some_iff_push h hk v⟩

theorem toList_insert_of_some (m : InsertionMap α β) {k : α} {i : Nat}
    (hk : m.index[k]? = some i) (v : β) : (m.insert k v).toList = m.toList.set i (k, v) := by
  obtain ⟨entries, index, h⟩ := m
  rw [insert]
  split
  · rename_i i' hi'
    obtain rfl : i = i' := Option.some.inj (hk.symm.trans hi')
    exact Array.toList_setIfInBounds
  · rename_i hnone
    cases hk.symm.trans hnone

theorem toList_insert_of_none (m : InsertionMap α β) {k : α} (hk : m.index[k]? = none) (v : β) :
    (m.insert k v).toList = m.toList ++ [(k, v)] := by
  obtain ⟨entries, index, h⟩ := m
  rw [insert]
  split
  · rename_i i hi
    cases hk.symm.trans hi
  · exact Array.toList_push

/-- A key that is there keeps its place, and a new one comes last. -/
theorem keys_insert [DecidableEq α] (m : InsertionMap α β) (k : α) (v : β) :
    (m.insert k v).keys = if k ∈ m.keys then m.keys else m.keys ++ [k] := by
  cases hk : m.index[k]? with
  | some i =>
      have hi := m.getElem?_toList_map_fst.2 hk
      rw [if_pos (m.mem_keys.2 ⟨i, hk⟩), keys, m.toList_insert_of_some hk, List.map_set]
      refine List.ext_getElem? fun j => ?_
      rw [List.getElem?_set, keys]
      split
      · rename_i hij
        rw [if_pos (List.length_map Prod.fst ▸ m.lt_length_of_index hk), List.getElem?_map, ← hij,
          hi]
      · rfl
  | none =>
      have hnew : k ∉ m.keys := fun h => by
        obtain ⟨i, hi⟩ := m.mem_keys.1 h
        cases hk.symm.trans hi
      rw [if_neg hnew, keys, m.toList_insert_of_none hk, List.map_append]
      rfl

/-- An insertion leaves the entries of the other keys as they are. -/
theorem mem_toList_insert (m : InsertionMap α β) (k : α) (v : β) (e : α × β) :
    e ∈ (m.insert k v).toList ↔ e = (k, v) ∨ e.1 ≠ k ∧ e ∈ m.toList := by
  cases hk : m.index[k]? with
  | some i =>
      have hi := m.getElem?_toList_map_fst.2 hk
      -- the entry with the key `k` stands at its place and nowhere else
      have hplace {j : Nat} (hj : m.toList[j]? = some e) : e.1 = k ↔ i = j := by
        constructor
        · intro hek
          have hindex := m.getElem?_toList_map_fst.1 (congrArg (Option.map Prod.fst) hj)
          rw [hek, hk] at hindex
          exact Option.some.inj hindex
        · rintro rfl
          rw [hj] at hi
          exact Option.some.inj hi
      rw [m.toList_insert_of_some hk, List.mem_iff_getElem?]
      constructor
      · rintro ⟨j, hj⟩
        rw [List.getElem?_set] at hj
        split at hj
        · rw [if_pos (m.lt_length_of_index hk)] at hj
          exact .inl (Option.some.inj hj).symm
        · rename_i hij
          exact .inr ⟨mt (hplace hj).1 hij, List.mem_of_getElem? hj⟩
      · rintro (rfl | ⟨hek, he⟩)
        · exact ⟨i, List.getElem?_set_self (m.lt_length_of_index hk)⟩
        · obtain ⟨j, hj⟩ := List.mem_iff_getElem?.1 he
          exact ⟨j, (List.getElem?_set_ne (mt (hplace hj).2 hek)).trans hj⟩
  | none =>
      have hnew : e ∈ m.toList → e.1 ≠ k := fun he hek => by
        obtain ⟨i, hi⟩ := m.mem_keys.1 (List.mem_map_of_mem he)
        rw [hek, hk] at hi
        cases hi
      rw [m.toList_insert_of_none hk, List.mem_append, List.mem_singleton, or_comm]
      exact or_congr_right ⟨fun he => ⟨hnew he, he⟩, And.right⟩

end InsertionMap

end VoxelFeatures
