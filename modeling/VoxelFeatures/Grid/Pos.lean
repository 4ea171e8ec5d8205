/-!
# Positions

A position has three 32-bit coordinates, and all arithmetic on them wraps. `y`
points up; north is towards smaller `z` and west towards smaller `x`. The world
is 256 layers high, and a position whose layer lies outside is never stored.
-/

namespace VoxelFeatures

/-- Whether `y` is one of the 256 layers of the world. -/
def isLayer (y : Int32) : Bool := 0 ≤ y && y < 256

/-- A cell of the voxel grid, or an offset between two cells. -/
structure Pos where
  x : Int32
  y : Int32
  z : Int32
deriving DecidableEq, Repr, Inhabited

namespace Pos

/-- Positions are ordered by `x`, then `y`, then `z`. -/
instance : Ord Pos := ⟨compareLex (compareOn x) (compareLex (compareOn y) (compareOn z))⟩

instance : Std.TransOrd Pos :=
  inferInstanceAs (Std.TransCmp (compareLex (compareOn x) (compareLex (compareOn y) (compareOn z))))

instance : Std.LawfulEqOrd Pos where
  eq_of_compare {p q} h := by
    change compareLex (compareOn x) (compareLex (compareOn y) (compareOn z)) p q = .eq at h
    obtain ⟨hx, hy, hz⟩ : compare p.x q.x = .eq ∧ compare p.y q.y = .eq ∧
        compare p.z q.z = .eq := by
      simpa only [compareLex, compareOn, Ordering.then_eq_eq] using h
    cases p; cases q
    simp_all

instance : Add Pos := ⟨fun p q => ⟨p.x + q.x, p.y + q.y, p.z + q.z⟩⟩

instance : Sub Pos := ⟨fun p q => ⟨p.x - q.x, p.y - q.y, p.z - q.z⟩⟩

/-- A position is written as its three coordinates in brackets. -/
instance : ToString Pos := ⟨fun p => s!"[{p.x}, {p.y}, {p.z}]"⟩

/-- Scales an offset. -/
def scale (n : Int32) (p : Pos) : Pos := ⟨p.x * n, p.y * n, p.z * n⟩

/-- Moves by whole cells along the three axes. -/
def shift (p : Pos) (dx dy dz : Int32) : Pos := ⟨p.x + dx, p.y + dy, p.z + dz⟩

def up (p : Pos) (n : Int32) : Pos := ⟨p.x, p.y + n, p.z⟩

def down (p : Pos) (n : Int32) : Pos := ⟨p.x, p.y - n, p.z⟩

def north (p : Pos) (n : Int32) : Pos := ⟨p.x, p.y, p.z - n⟩

def south (p : Pos) (n : Int32) : Pos := ⟨p.x, p.y, p.z + n⟩

def west (p : Pos) (n : Int32) : Pos := ⟨p.x - n, p.y, p.z⟩

def east (p : Pos) (n : Int32) : Pos := ⟨p.x + n, p.y, p.z⟩

/-- Whether the layer of a position is one of the layers of the world. -/
def inHeight (p : Pos) : Bool := isLayer p.y

@[simp] theorem add_x (p q : Pos) : (p + q).x = p.x + q.x := rfl

@[simp] theorem add_y (p q : Pos) : (p + q).y = p.y + q.y := rfl

@[simp] theorem add_z (p q : Pos) : (p + q).z = p.z + q.z := rfl

@[simp] theorem sub_x (p q : Pos) : (p - q).x = p.x - q.x := rfl

@[simp] theorem sub_y (p q : Pos) : (p - q).y = p.y - q.y := rfl

@[simp] theorem sub_z (p q : Pos) : (p - q).z = p.z - q.z := rfl

theorem up_up (p : Pos) (m n : Int32) : (p.up m).up n = p.up (m + n) := by
  simp only [up, Int32.add_assoc]

theorem down_up (p : Pos) (n : Int32) : (p.up n).down n = p := by
  rw [up, down, Int32.add_sub_cancel]

theorem up_down (p : Pos) (n : Int32) : (p.down n).up n = p := by
  rw [up, down, Int32.sub_add_cancel]

theorem inHeight_iff {p : Pos} : p.inHeight = true ↔ 0 ≤ p.y ∧ p.y < 256 := by
  simp [inHeight, isLayer]

theorem inHeight_iff_le {p : Pos} : p.inHeight = true ↔ 0 ≤ p.y ∧ p.y ≤ 255 := by
  have hlayers : (256 : Int32).toInt = 256 := by decide
  have htop : (255 : Int32).toInt = 255 := by decide
  rw [inHeight_iff, Int32.lt_iff_toInt_lt, @Int32.le_iff_toInt_le p.y 255, hlayers, htop]
  exact and_congr_right fun _ => by omega

end Pos

end VoxelFeatures
