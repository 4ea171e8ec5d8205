import VoxelFeatures.World.Basic

/-!
# The layers of untouched ground

A world is given its untouched ground as a list of layers, each a block and a
thickness, from the bottom up. `layerAt` reads a block straight off that list,
counting down through the thicknesses, and is air above the last layer. The
profile that a world keeps holds exactly these blocks, however thick the
layers are and however far they reach above the world.
-/

namespace VoxelFeatures

namespace Profile

/-- The block in layer `y` of a list of layers, and air above them. -/
def layerAt : List (Block × Nat) → Nat → Block
  | [], _ => .air
  | (b, thickness) :: layers, y =>
      if y < thickness then b.stored else layerAt layers (y - thickness)

@[simp] theorem layerAt_nil (y : Nat) : layerAt [] y = .air := rfl

theorem layerAt_cons (b : Block) (thickness : Nat) (layers : List (Block × Nat)) (y : Nat) :
    layerAt ((b, thickness) :: layers) y =
      if y < thickness then b.stored else layerAt layers (y - thickness) := rfl

/-- Laying blocks from layer `y` on leaves the layers below `y` alone and the
layers above the blocks as well. -/
theorem getElem_layFrom (p : Profile) (y : Nat) (bs : List Block) (i : Nat) (hi : i < 256) :
    (layFrom p y bs)[i] =
      if i < y then p[i] else (bs[i - y]?.map Block.stored).getD p[i] := by
  induction bs generalizing p y with
  | nil => simp [layFrom]
  | cons b bs ih =>
      by_cases hy : y < 256
      · rw [layFrom, dif_pos hy, ih]
        rcases Nat.lt_trichotomy i y with h | h | h
        · rw [if_pos (by omega), if_pos h, Vector.getElem_set_ne _ _ (by omega)]
        · subst h
          rw [if_pos (Nat.lt_succ_self i), if_neg (Nat.lt_irrefl i), Vector.getElem_set_self]
          simp
        · have hstep : i - y = i - (y + 1) + 1 := by omega
          rw [if_neg (by omega), if_neg (by omega), Vector.getElem_set_ne _ _ (by omega), hstep,
            List.getElem?_cons_succ]
      · rw [layFrom, dif_neg hy, if_pos (by omega)]

/-- The blocks of a list of layers, read as far as the world is high. -/
theorem getElem?_stack (layers : List (Block × Nat)) {y : Nat} (hy : y < 256) :
    ((stack layers)[y]?.map Block.stored).getD .air = layerAt layers y := by
  induction layers generalizing y with
  | nil => simp [stack]
  | cons l layers ih =>
      obtain ⟨b, thickness⟩ := l
      have hstack : stack ((b, thickness) :: layers) =
          List.replicate (min thickness 256) b ++ stack layers := rfl
      rw [hstack, layerAt_cons, List.getElem?_append, List.length_replicate]
      by_cases h : y < thickness
      · have hmin : y < min thickness 256 := by omega
        rw [if_pos h, if_pos hmin, List.getElem?_replicate, if_pos hmin]
        rfl
      · -- the layer ends below the top of the world, so its thickness is not cut off
        have hmin : min thickness 256 = thickness := by omega
        rw [if_neg h, hmin, if_neg h, ih (by omega)]

/-- The profile of a list of layers holds their blocks, and air above them. -/
theorem getElem_ofLayers (layers : List (Block × Nat)) {y : Nat} (hy : y < 256) :
    (ofLayers layers)[y] = layerAt layers y := by
  rw [ofLayers, getElem_layFrom, if_neg (Nat.not_lt_zero y), Nat.sub_zero]
  have hair : (air : Profile)[y] = Block.air := by simp [air]
  rw [hair]
  exact getElem?_stack layers hy

end Profile

namespace Pos

theorem inHeight_iff_toInt {p : Pos} : p.inHeight ↔ 0 ≤ p.y.toInt ∧ p.y.toInt < 256 := by
  have h0 : (0 : Int32).toInt = 0 := Int32.toInt_zero
  have h256 : (256 : Int32).toInt = 256 := by decide
  rw [inHeight_iff, Int32.le_iff_toInt_le, Int32.lt_iff_toInt_lt, h0, h256]

/-- The layer of a stored position is its height. -/
theorem layer_val {p : Pos} (h : p.inHeight) : p.layer.val = p.y.toInt.toNat := by
  rw [inHeight_iff_toInt] at h
  simp only [layer]
  omega

end Pos

end VoxelFeatures
