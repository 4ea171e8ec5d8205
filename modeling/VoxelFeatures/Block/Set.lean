import VoxelFeatures.Block.Id

/-!
# Sets of block ids

A set of ids is kept as one bit per id, in four words: the two high bits of an
id choose its word and the six low bits its place there. An insertion sets one
bit and leaves the others alone, so two sets with the same members are equal
whatever was inserted when. `toList` gives the members in id order.
-/

namespace VoxelFeatures

structure BlockSet where
  words : Vector UInt64 4
deriving DecidableEq, Repr, Inhabited

namespace BlockSet

/-- The place of an id in its word. -/
def place (b : BlockId) : UInt8 := b.code &&& 63

theorem toNat_shiftRight_six (n : UInt8) : (n >>> 6).toNat = n.toNat / 64 := by
  rw [UInt8.toNat_shiftRight, Nat.shiftRight_eq_div_pow]
  rfl

/-- The word of an id. -/
def wordOf (b : BlockId) : Fin 4 :=
  ⟨(b.code >>> 6).toNat, by
    have hcode := b.code.toNat_lt
    rw [toNat_shiftRight_six]
    omega⟩

/-- The bit of an id in its word. -/
def mask (b : BlockId) : UInt64 := 1 <<< (place b).toUInt64

/-- Sets the bit of an id. -/
def setBit (words : Vector UInt64 4) (b : BlockId) : Vector UInt64 4 :=
  words.set (wordOf b) (words[wordOf b] ||| mask b)

def empty : BlockSet := ⟨.replicate 4 0⟩

def contains (s : BlockSet) (b : BlockId) : Bool := s.words[wordOf b] &&& mask b != 0

def insert (s : BlockSet) (b : BlockId) : BlockSet := ⟨setBit s.words b⟩

/-- The set of the ids of a list, whose bits are set in one pass over it. -/
def ofList (ids : List BlockId) : BlockSet := ⟨ids.foldl setBit (.replicate 4 0)⟩

/-- The set that takes in a sequence of ids one by one. -/
def collect (ids : List BlockId) : BlockSet := ids.foldl insert empty

def isEmpty (s : BlockSet) : Bool := s.words = .replicate 4 0

/-- Every id, in increasing order. -/
def allIds : List BlockId := (List.range 256).map fun n => ⟨n.toUInt8⟩

/-- The members, in increasing order. -/
def toList (s : BlockSet) : List BlockId := allIds.filter s.contains

/-- The quoted names of the members in id order, between braces. -/
instance : ToString BlockSet :=
  ⟨fun s => "\x7b" ++ ", ".intercalate (s.toList.map fun b => "\"" ++ b.name ++ "\"") ++ "\x7d"⟩

theorem val_wordOf (b : BlockId) : (wordOf b).val = b.code.toNat / 64 :=
  toNat_shiftRight_six b.code

theorem toNat_place (b : BlockId) : (place b).toNat = b.code.toNat % 64 := by
  rw [place, UInt8.toNat_and]
  exact Nat.and_two_pow_sub_one_eq_mod _ 6

theorem toNat_place_lt (b : BlockId) : (place b).toNat < 64 := by
  rw [toNat_place]
  exact Nat.mod_lt _ (by decide)

/-- An id is known by its word and its place there. -/
theorem eq_iff_wordOf_place {a b : BlockId} :
    a = b ↔ wordOf a = wordOf b ∧ (place a).toNat = (place b).toNat := by
  constructor
  · rintro rfl
    exact ⟨rfl, rfl⟩
  · rintro ⟨hword, hplace⟩
    rw [← Fin.val_inj, val_wordOf, val_wordOf] at hword
    rw [toNat_place, toNat_place] at hplace
    have hcode : a.code = b.code := UInt8.toNat_inj.1 (by omega)
    cases a
    cases b
    exact congrArg BlockId.mk hcode

/-- The mask of an id has the one bit at its place. -/
theorem toBitVec_mask (b : BlockId) : (mask b).toBitVec = .twoPow 64 (place b).toNat := by
  have hshift : (place b).toUInt64.toNat % 64 = (place b).toNat := by
    rw [UInt8.toNat_toUInt64, Nat.mod_eq_of_lt (toNat_place_lt b)]
  refine BitVec.eq_of_toNat_eq ?_
  rw [UInt64.toNat_toBitVec, mask, UInt64.toNat_shiftLeft, hshift, BitVec.toNat_twoPow,
    Nat.shiftLeft_eq]
  exact congrArg (· % 2 ^ 64) (Nat.one_mul _)

/-- An id is a member if the bit at its place is set. -/
theorem contains_eq_getLsbD (s : BlockSet) (b : BlockId) :
    s.contains b = s.words[wordOf b].toBitVec.getLsbD (place b).toNat := by
  have hmask : BitVec.twoPow 64 (place b).toNat ≠ 0 := by
    intro hzero
    have hbit := congrArg (BitVec.getLsbD · (place b).toNat) hzero
    simp [toNat_place_lt] at hbit
  rw [contains, Bool.eq_iff_iff, bne_iff_ne, ne_eq, ← UInt64.toBitVec_inj, UInt64.toBitVec_and,
    toBitVec_mask, BitVec.and_twoPow]
  cases s.words[wordOf b].toBitVec.getLsbD (place b).toNat with
  | false => simp
  | true => simpa using hmask

/-- Setting the bit of an id sets the one at its place, and no other one of any word. -/
theorem getLsbD_setBit (words : Vector UInt64 4) (a : BlockId) (i : Fin 4) (k : Nat) :
    (setBit words a)[i].toBitVec.getLsbD k =
      (words[i].toBitVec.getLsbD k || decide (wordOf a = i ∧ (place a).toNat = k)) := by
  rw [setBit]
  by_cases hword : wordOf a = i
  · subst hword
    rw [Fin.getElem_fin, Vector.getElem_set_self, UInt64.toBitVec_or, BitVec.getLsbD_or,
      toBitVec_mask, BitVec.getLsbD_twoPow]
    simp [toNat_place_lt]
  · have hne : (wordOf a).val ≠ i.val := fun h => hword (Fin.ext h)
    rw [Fin.getElem_fin, Vector.getElem_set_ne _ _ hne]
    simp [hword]

@[simp] theorem contains_empty (b : BlockId) : empty.contains b = false := by
  rw [contains_eq_getLsbD]
  simp [empty]

theorem contains_insert (s : BlockSet) (a b : BlockId) :
    (s.insert a).contains b = (s.contains b || decide (a = b)) := by
  rw [contains_eq_getLsbD, contains_eq_getLsbD, insert, getLsbD_setBit]
  simp only [eq_iff_wordOf_place]

/-- Taking in ids one by one sets the bits that one pass over them sets. -/
theorem foldl_insert (ids : List BlockId) (s : BlockSet) :
    ids.foldl insert s = ⟨ids.foldl setBit s.words⟩ := by
  induction ids generalizing s with
  | nil => rfl
  | cons a ids ih => rw [List.foldl_cons, ih, List.foldl_cons, insert]

theorem collect_eq_ofList (ids : List BlockId) : collect ids = ofList ids :=
  foldl_insert ids empty

@[simp] theorem contains_ofList (ids : List BlockId) (b : BlockId) :
    (ofList ids).contains b = decide (b ∈ ids) := by
  have step (s : BlockSet) :
      (ids.foldl insert s).contains b = (s.contains b || decide (b ∈ ids)) := by
    induction ids generalizing s with
    | nil => simp
    | cons a ids ih => simp [ih, contains_insert, eq_comm, Bool.or_assoc]
  rw [← collect_eq_ofList, collect, step, contains_empty, Bool.false_or]

end BlockSet

end VoxelFeatures
