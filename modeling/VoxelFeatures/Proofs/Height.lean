import Mathlib.Order.Bounds.Basic
import VoxelFeatures.Proofs.Layers

/-!
# The height of a column

The height over a point is one above the highest cell there that is not air.
It is looked up in two ways, in the chunk if the column has one of its own and
in the profile otherwise; both are the height of the one column that stands over the
point, `columnOver`, whose cells are also what the world reads there.
-/

namespace VoxelFeatures

namespace Column

/-- Above its height a column is air, and below the height lies a cell that is not. -/
theorem heightBelow_spec (c : Column) (n : Nat) (hn : n ≤ 256) :
    (c.heightBelow n hn = 0 ∨
      ∃ (k : Nat) (hk : k < n), c.heightBelow n hn = k + 1 ∧ c.ids[k] ≠ .air) ∧
    ∀ (k : Nat) (hk : k < n), c.heightBelow n hn ≤ k → c.ids[k] = .air := by
  induction n with
  | zero => exact ⟨.inl rfl, fun k hk => absurd hk (Nat.not_lt_zero k)⟩
  | succ n ih =>
      obtain ⟨hcell, hair⟩ := ih (by omega)
      by_cases h : c.ids[n] = .air
      · rw [heightBelow, if_pos h]
        refine ⟨?_, fun k hk hle => ?_⟩
        · rcases hcell with h0 | ⟨k, hk, heq, hne⟩
          · exact .inl h0
          · exact .inr ⟨k, by omega, heq, hne⟩
        · rcases Nat.lt_succ_iff_lt_or_eq.1 hk with hlt | rfl
          · exact hair k hlt hle
          · exact h
      · rw [heightBelow, if_neg h]
        exact ⟨.inr ⟨n, Nat.lt_succ_self n, rfl, h⟩, fun k hk hle => by omega⟩

end Column

namespace Profile

/-- Untouched ground is as high as the column that it stands for. -/
theorem heightBelow_column (p : Profile) (n : Nat) (hn : n ≤ 256) :
    p.column.heightBelow n hn = p.heightBelow n hn := by
  induction n with
  | zero => rfl
  | succ n ih =>
      have hid : p.column.ids[n] = p[n].id := idAt_column p ⟨n, hn⟩
      rw [Column.heightBelow, heightBelow, hid, ih]

theorem height_column (p : Profile) : p.column.height = p.height :=
  heightBelow_column p 256 _

end Profile

namespace World

/-- The column that stands over a point of the ground. -/
def columnOver (w : World) (x z : Int32) : Column :=
  match w.chunks[(⟨x, 0, z⟩ : Pos).chunk]? with
  | some c => c.columns.get (⟨x, 0, z⟩ : Pos).column
  | none => w.profile.column

theorem height_columnOver (w : World) (x z : Int32) : w.height x z = (w.columnOver x z).height := by
  cases h : w.chunks[(⟨x, 0, z⟩ : Pos).chunk]? with
  | some c =>
      simp only [height, columnOver, h]
      rfl
  | none =>
      simp only [height, columnOver, h]
      exact (Profile.height_column w.profile).symm

/-- The cells of the column over a point are what the world reads there. -/
theorem idAt_columnOver (w : World) {p : Pos} (h : p.inHeight) :
    w.idAt p = (w.columnOver p.x p.z).idAt p.layer := by
  have hchunk : (⟨p.x, 0, p.z⟩ : Pos).chunk = p.chunk := rfl
  cases hc : w.chunks[p.chunk]? with
  | some c =>
      simp only [idAt, columnOver, h, hchunk, hc, if_true]
      rfl
  | none =>
      simp only [idAt, columnOver, h, hchunk, hc, if_true]
      exact (Profile.idAt_column w.profile p.layer).symm

/-- The position over a point in a stored layer. -/
theorem stored_layer (x z : Int32) {k : Nat} (hk : k < 256) :
    (⟨x, .ofNat k, z⟩ : Pos).inHeight ∧ (⟨x, .ofNat k, z⟩ : Pos).layer = ⟨k, hk⟩ ∧
      (Int32.ofNat k).toInt = k := by
  have hint : (Int32.ofNat k).toInt = k := Int32.toInt_ofNat_of_lt (by omega)
  have hin : (⟨x, .ofNat k, z⟩ : Pos).inHeight := by
    rw [Pos.inHeight_iff_toInt, hint]
    omega
  refine ⟨hin, Fin.ext ?_, hint⟩
  rw [Pos.layer_val hin, hint]
  rfl

/-- The height of the column over a point is one above the greatest `y` whose cell there is not
air, and zero over a column of air. -/
theorem column_height_isGreatest (c : Column) (x z : Int32) :
    (c.height = 0 ∧ ∀ y, (⟨x, y, z⟩ : Pos).inHeight → c.idAt (⟨x, y, z⟩ : Pos).layer = .air) ∨
      ∃ y, IsGreatest {y | (⟨x, y, z⟩ : Pos).inHeight ∧
          c.idAt (⟨x, y, z⟩ : Pos).layer ≠ .air} y ∧ (c.height : Int) = y.toInt + 1 := by
  rcases c.heightBelow_spec 256 (Nat.le_refl _) with ⟨hcell, hair⟩
  rw [← Column.height] at hcell hair
  have habove (y : Int32) (hin : (⟨x, y, z⟩ : Pos).inHeight) (hy : (c.height : Int) ≤ y.toInt) :
      c.idAt (⟨x, y, z⟩ : Pos).layer = .air := by
    have hlayer : (⟨x, y, z⟩ : Pos).layer.val = y.toInt.toNat := Pos.layer_val hin
    exact hair _ (Fin.is_lt _) (by omega)
  rcases hcell with h0 | ⟨k, hk, heq, hne⟩
  · left
    exact ⟨h0, fun y hin => habove y hin (h0 ▸ (Pos.inHeight_iff_toInt.1 hin).1)⟩
  · right
    rcases stored_layer x z hk with ⟨hin, hlayer, hint⟩
    refine ⟨.ofNat k, ⟨⟨hin, ?_⟩, fun y hy => ?_⟩, by rw [heq, hint, Int.natCast_add]; rfl⟩
    · rw [hlayer]
      exact hne
    · rw [Int32.le_iff_toInt_le]
      by_contra hlt
      exact hy.2 (habove y hy.1 (by omega))

/-- The height over a point is one above the greatest `y` whose cell there is
not air, and zero over a column of air. -/
theorem height_isGreatest (w : World) (x z : Int32) :
    (w.height x z = 0 ∧ ∀ y, w.idAt ⟨x, y, z⟩ = .air) ∨
      ∃ y, IsGreatest {y | w.idAt ⟨x, y, z⟩ ≠ .air} y ∧ (w.height x z : Int) = y.toInt + 1 := by
  have hid (y : Int32) : w.idAt ⟨x, y, z⟩ ≠ .air ↔ (⟨x, y, z⟩ : Pos).inHeight ∧
      (w.columnOver x z).idAt (⟨x, y, z⟩ : Pos).layer ≠ .air := by
    by_cases hin : (⟨x, y, z⟩ : Pos).inHeight
    · rw [idAt_columnOver w hin, and_iff_right hin]
    · simp [idAt, hin]
  rw [height_columnOver]
  simp only [hid]
  rcases column_height_isGreatest (w.columnOver x z) x z with ⟨h0, hair⟩ | hgreatest
  · left
    refine ⟨h0, fun y => ?_⟩
    by_contra hne
    rw [← ne_eq, hid] at hne
    exact hne.2 (hair y hne.1)
  · right
    exact hgreatest

end World

end VoxelFeatures
