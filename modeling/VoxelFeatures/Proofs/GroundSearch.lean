import VoxelFeatures.Proofs.Overgrowth
import VoxelFeatures.Proofs.Words

/-!
# The search for the ground

Some trees look for their ground from the origin downwards. `IsGround` says which layer that is:
the one right above a soil, if only air, tall grass and leaves stand from it up to the origin, and
no soil among them. The search ends at the ground, and without a result if there is none. It looks
for soils first, so a soil ends it even if it could be passed.

The search is followed layer by layer. Either the block below a layer is a soil, and then this
layer is the ground; or the block is passed, and the ground is that of the next layer
(`isGround_succ_iff`).
-/

namespace VoxelFeatures

namespace Ground

/-- In a column of ids, the layer `g` is the ground below the layer `top`: a soil lies right
below it, and from it up to below `top` stand air, tall grass and leaves that are no soils. -/
structure IsGround (soils : BlockSet) (ids : Int32 → BlockId) (top g : Int32) : Prop where
  one_le : 1 ≤ g
  le_top : g ≤ top
  soil : soils.contains (ids (g - 1)) = true
  passed : ∀ y, g ≤ y → y < top →
    (ids y = .air ∨ ids y = .tallGrass ∨ ids y = .leaves) ∧ soils.contains (ids y) = false

variable {soils : BlockSet} {ids : Int32 → BlockId} {top g x z : Int32}

theorem contains_passable_iff {b : BlockId} :
    passable.contains b = true ↔ b = .air ∨ b = .tallGrass ∨ b = .leaves := by
  simp [passable]

theorem not_isGround (htop : top ≤ 0) : ¬ IsGround soils ids top g := fun h =>
  absurd (Int32.le_trans h.one_le (Int32.le_trans h.le_top htop)) (by decide)

/-- The ground below a layer is that layer if a soil lies right below it. Otherwise it is the
ground below the next layer, if the block between them can be passed. -/
theorem isGround_succ_iff {n : Nat} (hn : n + 1 < 2147483648) :
    IsGround soils ids (.ofNat (n + 1)) g ↔
      if soils.contains (ids (.ofNat n)) then g = .ofNat (n + 1)
      else passable.contains (ids (.ofNat n)) ∧ IsGround soils ids (.ofNat n) g := by
  have hlt : Int32.ofNat n < .ofNat (n + 1) := (lt_ofNat_succ_iff hn).2 (Int32.le_refl _)
  cases hsoil : soils.contains (ids (.ofNat n)) with
  | true =>
      rw [if_pos rfl]
      constructor
      · intro h
        -- ground further down would have to be reached through the soil
        rcases Int32.lt_or_eq_of_le h.le_top with hlow | heq
        · have hfree := (h.passed _ ((lt_ofNat_succ_iff hn).1 hlow) hlt).2
          rw [hsoil] at hfree
          cases hfree
        · exact heq
      · rintro rfl
        refine ⟨one_le_ofNat_succ hn, Int32.le_refl _, ?_, fun y hg hy => ?_⟩
        · rw [ofNat_succ_sub_one]
          exact hsoil
        · exact absurd hy (Int32.not_lt.2 hg)
  | false =>
      rw [if_neg Bool.false_ne_true]
      constructor
      · intro h
        rcases Int32.lt_or_eq_of_le h.le_top with hlow | rfl
        · rw [lt_ofNat_succ_iff hn] at hlow
          refine ⟨contains_passable_iff.2 (h.passed _ hlow hlt).1, h.one_le, hlow, h.soil, ?_⟩
          exact fun y hg hy => h.passed y hg (Int32.lt_trans hy hlt)
        · have hfound := h.soil
          rw [ofNat_succ_sub_one, hsoil] at hfound
          cases hfound
      · rintro ⟨hpass, h⟩
        refine ⟨h.one_le, Int32.le_trans h.le_top (Int32.le_of_lt hlt), h.soil,
          fun y hg hy => ?_⟩
        rcases Int32.lt_or_eq_of_le ((lt_ofNat_succ_iff hn).1 hy) with hlow | rfl
        · exact h.passed y hg hlow
        · exact ⟨contains_passable_iff.1 hpass, hsoil⟩

theorem looks_find (n : Nat) : (find soils x z n).Only Act.Looks := by
  induction n with
  | zero => exact .done none
  | succ n ih => simp [find, ih]

/-- The search down from a layer ends at the ground below it. -/
theorem run_find_eq_some_iff {s : Site} {n : Nat} (hn : n < 2147483648) :
    ((find soils x z n).run s).1 = some g ↔
      IsGround soils (fun y => s.journal.idAt ⟨x, y, z⟩) (.ofNat n) g := by
  induction n with
  | zero =>
      rw [find, Build.run_done]
      exact iff_of_false (Option.some_ne_none g).symm (not_isGround (Int32.le_refl 0))
  | succ n ih =>
      rw [isGround_succ_iff hn, ← ih (Nat.lt_of_succ_lt hn), find, Build.run_bind, Build.run_look,
        ofNat_succ_sub_one]
      split
      · rw [Build.pure_eq, Build.run_done, Option.some_inj, eq_comm]
      · split
        · rename_i hpass
          rw [and_iff_right hpass]
        · rename_i hpass
          rw [Build.pure_eq, Build.run_done]
          exact iff_of_false (Option.some_ne_none g).symm fun h => hpass h.1

theorem run_below_eq_some_iff {p : Pos} {s : Site} :
    ((below soils p).run s).1 = some g ↔
      IsGround soils (fun y => s.journal.idAt ⟨p.x, y, p.z⟩) p.y g := by
  have hrange := toInt_range p.y
  have hzero : (0 : Int32).toInt = 0 := Int32.toInt_zero
  by_cases htop : p.y ≤ 0
  · have hbottom : p.y.toInt.toNat = 0 :=
      Int.toNat_of_nonpos (hzero ▸ Int32.le_iff_toInt_le.1 htop)
    rw [below, hbottom, find, Build.run_done]
    exact iff_of_false (Option.some_ne_none g).symm (not_isGround htop)
  · have hword : Int32.ofNat p.y.toInt.toNat = p.y := by
      rw [Int32.le_iff_toInt_le, hzero] at htop
      rw [← Int32.toInt_inj, Int32.toInt_ofNat_of_lt (by omega)]
      omega
    rw [below, run_find_eq_some_iff (by omega), hword]

/-- The search for the ground finds the highest layer that can be reached and stands on a soil.
It ends at `g` exactly if `g` is the ground below the origin, and without a result exactly if
there is no ground. It only looks. -/
theorem search_finds_reachable_ground (soils : BlockSet) (p : Pos) (s : Site) :
    let ids := fun y => s.journal.idAt ⟨p.x, y, p.z⟩
    (∀ g, ((below soils p).run s).1 = some g ↔ IsGround soils ids p.y g) ∧
      (((below soils p).run s).1 = none ↔ ¬ ∃ g, IsGround soils ids p.y g) ∧
      ((below soils p).run s).2 = s := by
  intro ids
  refine ⟨fun g => run_below_eq_some_iff, ?_, (looks_find _).run_looks s⟩
  rw [Option.eq_none_iff_forall_ne_some, not_exists]
  exact forall_congr' fun g => not_congr run_below_eq_some_iff

end Ground

end VoxelFeatures
