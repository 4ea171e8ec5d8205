import VoxelFeatures.Proofs.Agreement
import VoxelFeatures.Proofs.Distance

/-!
# Acts near a cell

`m.Only (Act.In (p.Near r))` says that the program `m` looks at and writes to
columns within `r` of the column of `p` alone. A program that stays near a cell
of its own stays near whatever that cell is near, with the sum of the distances
(`Only.near_trans`). So each procedure is first bounded around the cell that it
is laid around, and then moved to the origin of its feature.
-/

namespace VoxelFeatures

theorem Act.In.imp₂ {C D E : Pos → Prop} (h : ∀ q, C q → D q → E q) {a : Act} (hC : a.In C)
    (hD : a.In D) : a.In E := by
  cases a with
  | draw d => trivial
  | look p => exact h p hC hD
  | place p b notify => exact h p hC hD
  | report n => trivial

theorem Act.In.mono {C D : Pos → Prop} (hCD : ∀ q, C q → D q) {a : Act} (h : a.In C) : a.In D :=
  h.imp₂ (fun q hq _ => hCD q hq) h

namespace Build

variable {α β : Type} {C : Pos → Prop} {p c : Pos} {r k : Nat}

/-- A draw below a positive bound, and what goes on with it. -/
theorem Only.draw {bound : Int32} {f : Int32 → Build β} (hb : 0 < bound)
    (hf : ∀ u, 0 ≤ u ∧ u < bound → (f u).Only (Act.In C)) :
    (bounded bound >>= f).Only (Act.In C) :=
  .bind_of ⟨by simp, fun u hu => ((returns_bounded bound u).1 hu).1 hb⟩ hf

@[simp] theorem only_replace_in (s : BlockSet) (p : Pos) (b : Block) :
    (replace s p b).Only (Act.In C) ↔ C p := by
  simp only [replace, only_bind, only_isIn, only_ite, only_place, Act.in_look, Act.in_place]
  exact ⟨fun h => h.1, fun h => ⟨h, fun _ _ => ⟨fun _ => h, fun _ => .done ()⟩⟩⟩

/-- Acts near a cell are near what that cell is near. -/
theorem Only.near_trans {m : Build α} (hc : p.Near r c) (h : m.Only (Act.In (c.Near k))) :
    m.Only (Act.In (p.Near (r + k))) :=
  h.mono fun _ ha => ha.mono fun _ hq => hc.trans hq

theorem Only.near_mono {m : Build α} (h : m.Only (Act.In (p.Near r))) (hr : r ≤ k) :
    m.Only (Act.In (p.Near k)) :=
  h.mono fun _ ha => ha.mono fun _ hq => hq.mono hr

theorem near_sink (p : Pos) (n : Nat) :
    (sink p n).Only (Act.In (p.Near 0)) ∧ ∀ q, (sink p n).Returns q → q.x = p.x ∧ q.z = p.z := by
  induction n generalizing p with
  | zero =>
      refine ⟨.done p, fun q hq => ?_⟩
      cases hq
      exact ⟨rfl, rfl⟩
  | succ n ih =>
      obtain ⟨honly, hreturns⟩ := ih (p.down 1)
      rw [Pos.down_near] at honly
      constructor
      · simp [sink, honly]
      · intro q hq
        simp only [sink, returns_bind] at hq
        obtain ⟨air, -, hq⟩ := hq
        cases air with
        | true => exact hreturns q hq
        | false =>
            cases hq
            exact ⟨rfl, rfl⟩

end Build

end VoxelFeatures
