import VoxelFeatures.Block.Set

/-!
# Sets and their members

A set of ids is nothing but its members. Every bit of its four words is the bit of one id, so
sets with the same members have the same words (`ext`), and the equality that compares words
is the equality of sets. The list of the members, in increasing order, therefore stands for the
set: taken in again, in whatever way, it gives the same set back.
-/

namespace VoxelFeatures

namespace BlockSet

/-- Every place of every word belongs to an id. -/
theorem exists_wordOf_place (i : Fin 4) {k : Nat} (hk : k < 64) :
    ∃ b, wordOf b = i ∧ (place b).toNat = k := by
  have hcode : (UInt8.ofNat (64 * i + k)).toNat = 64 * i + k :=
    UInt8.toNat_ofNat_of_lt' (by simp only [UInt8.size]; omega)
  refine ⟨⟨.ofNat (64 * i + k)⟩, Fin.ext ?_, ?_⟩
  · rw [val_wordOf, hcode]
    omega
  · rw [toNat_place, hcode]
    omega

/-- Sets with the same members are equal. -/
theorem ext {s t : BlockSet} (h : ∀ b, s.contains b = t.contains b) : s = t := by
  have hword (i : Fin 4) : s.words[i] = t.words[i] := by
    refine UInt64.toBitVec_inj.1 (BitVec.eq_of_getLsbD_eq fun k hk => ?_)
    obtain ⟨b, rfl, rfl⟩ := exists_wordOf_place i hk
    rw [← contains_eq_getLsbD, ← contains_eq_getLsbD]
    exact h b
  cases s
  cases t
  exact congrArg mk (Vector.ext fun i hi => hword ⟨i, hi⟩)

theorem isEmpty_iff (s : BlockSet) : s.isEmpty = true ↔ ∀ b, s.contains b = false := by
  rw [isEmpty, decide_eq_true_eq]
  constructor
  · intro h b
    have hempty : s = empty := congrArg mk h
    rw [hempty, contains_empty]
  · intro h
    have hempty : s = empty := ext fun b => by rw [h, contains_empty]
    exact congrArg words hempty

theorem mem_allIds (b : BlockId) : b ∈ allIds := by
  refine List.mem_map.2 ⟨b.code.toNat, List.mem_range.2 b.code.toNat_lt, ?_⟩
  rw [Nat.toUInt8_eq, UInt8.ofNat_toNat]

theorem pairwise_allIds : allIds.Pairwise fun a b => a.code < b.code := by
  rw [allIds, List.pairwise_map]
  refine List.pairwise_lt_range.imp_of_mem fun {m n} hm hn hlt => ?_
  have hm' : m.toUInt8.toNat = m := UInt8.toNat_ofNat_of_lt' (List.mem_range.1 hm)
  have hn' : n.toUInt8.toNat = n := UInt8.toNat_ofNat_of_lt' (List.mem_range.1 hn)
  rw [UInt8.lt_iff_toNat_lt, hm', hn']
  exact hlt

theorem mem_toList {s : BlockSet} {b : BlockId} : b ∈ s.toList ↔ s.contains b = true := by
  rw [toList, List.mem_filter, and_iff_right (mem_allIds b)]

theorem pairwise_toList (s : BlockSet) : s.toList.Pairwise fun a b => a.code < b.code :=
  pairwise_allIds.filter _

theorem ofList_toList (s : BlockSet) : ofList s.toList = s :=
  ext fun b => by rw [contains_ofList, Bool.eq_iff_iff, decide_eq_true_eq, mem_toList]

/-- A set of ids is the finite set of its members. A list makes the set of the ids that occur in
it, whether its bits are set in one pass or its ids are taken in one by one, and an insertion
adds one id. The members are listed once each, in increasing order, and their list makes the set
again. Sets are equal exactly if they have the same members, and empty if they have none. -/
theorem set_is_its_members :
    (∀ (ids : List BlockId) (b : BlockId), (ofList ids).contains b = true ↔ b ∈ ids) ∧
      (∀ ids : List BlockId, collect ids = ofList ids) ∧
      (∀ (s : BlockSet) (a b : BlockId),
        (s.insert a).contains b = true ↔ b = a ∨ s.contains b = true) ∧
      (∀ s : BlockSet, (s.toList.Pairwise fun a b => a.code < b.code) ∧
        (∀ b, b ∈ s.toList ↔ s.contains b = true) ∧ collect s.toList = s) ∧
      (∀ s t : BlockSet, s = t ↔ ∀ b, s.contains b = t.contains b) ∧
      ∀ s : BlockSet, s.isEmpty = true ↔ ∀ b, s.contains b = false := by
  refine ⟨fun ids b => ?_, collect_eq_ofList, fun s a b => ?_, fun s => ?_, fun s t => ?_,
    isEmpty_iff⟩
  · rw [contains_ofList, decide_eq_true_eq]
  · rw [contains_insert, Bool.or_eq_true, decide_eq_true_eq, or_comm, eq_comm]
  · exact ⟨s.pairwise_toList, fun b => mem_toList, by rw [collect_eq_ofList, ofList_toList]⟩
  · exact ⟨fun h b => congrArg (·.contains b) h, ext⟩

end BlockSet

end VoxelFeatures
