import VoxelFeatures.Proofs.Additions
import VoxelFeatures.Proofs.Agreement
import VoxelFeatures.Proofs.Journals

/-!
# Blocks that a run leaves alone

A write can change cells beside its own one: the first write into a chunk clears the
metadata of the air there. Blocks other than air are safe from that. Such a block stays
as it is, metadata included, until a write at its own cell, and that write records its
id as the one that it replaced. So the records of a run tell which blocks it has left
alone: `Site.Grows` says that every block other than air is kept, unless some write
at its cell says that it replaced this very id.
-/

namespace VoxelFeatures

/-- Metadata of four bits is kept. -/
theorem Block.stored_of_lt {b : Block} (hb : b.data < 16) : b.stored = b := by
  obtain ⟨id, data⟩ := b
  refine congrArg (Block.mk id) (UInt8.toNat_inj.1 ?_)
  rw [UInt8.toNat_and]
  exact (Nat.and_two_pow_sub_one_eq_mod data.toNat 4).trans
    (Nat.mod_eq_of_lt (UInt8.lt_iff_toNat_lt.1 hb))

namespace World

/-- The world was made from layers, and edited since. -/
def Made (w : World) : Prop :=
  ∃ (seed : Int64) (layers : List (Block × Nat)) (es : List Edit),
    w = (ofLayers seed layers).edit es

/-- The ground has metadata of four bits. -/
def Packed (w : World) : Prop :=
  ∀ (y : Nat) (hy : y < 256), w.profile[y].stored = w.profile[y]

theorem profile_set (w : World) (p : Pos) (b : Block) : (w.set p b).profile = w.profile := by
  cases hp : p.inHeight
  · rw [set_of_not_inHeight w hp]
  · rw [set_eq_alter w hp]

variable {w : World} {p q : Pos}

theorem Made.packed (h : w.Made) : w.Packed := by
  obtain ⟨seed, layers, es, rfl⟩ := h
  intro y hy
  have hprofile : ((ofLayers seed layers).edit es).profile = .ofLayers layers :=
    profile_edit (ofLayers seed layers) es
  have hlayer : (Profile.ofLayers layers)[y] = Profile.layerAt layers y :=
    Profile.getElem_ofLayers layers hy
  rw [hprofile, hlayer, Profile.stored_layerAt]

theorem Packed.set (h : w.Packed) (p : Pos) (b : Block) : (w.set p b).Packed := by
  intro y hy
  simp only [profile_set]
  exact h y hy

/-- A write leaves every other cell alone, unless it is air. -/
theorem Packed.get_set (h : w.Packed) (hne : q ≠ p) (hq : w.idAt q ≠ .air) (b : Block) :
    (w.set p b).get q = w.get q := by
  cases hp : p.inHeight
  · rw [set_of_not_inHeight w hp]
  · rw [World.get_set w hp, if_neg hne]
    split
    · rename_i hfresh
      obtain ⟨hheight, hchunk, hmem⟩ := hfresh
      have hnone : w.chunks[q.chunk]? = none := Std.TreeMap.getElem?_eq_none (hchunk ▸ hmem)
      have hread : w.get q = w.profile[q.layer] := by simp only [get, hheight, if_true, hnone]
      have hid : w.profile[q.layer].id ≠ .air := by rwa [← hread, ← idAt_eq]
      have hstored : w.profile[q.layer].stored = w.profile[q.layer] := h q.layer q.layer.isLt
      rw [ground, Chunk.get_uniform, Profile.column, Column.get_ofBlocks, if_neg hid, hstored,
        hread]
    · rfl

end World

namespace Site

variable {s t u : Site} {ws vs : List Write}

/-- A placed block is read back, less the metadata that does not fit. -/
theorem get_place_self (s : Site) {p : Pos} (hp : p.inHeight) (b : Block) (notify : Bool) :
    (s.place p b notify).journal.get p = b.stored := by
  rw [s.journal_place hp, Journal.get_set, World.get_set _ hp, if_pos rfl]

/-- From `s` to `t` the writes `ws` were added, and each block other than air was kept
unless a write at its cell replaced its id. An id that changed is that of a write. -/
structure Grows (s t : Site) (ws : List Write) : Prop where
  writes : t.journal.writes.toList = s.journal.writes.toList ++ ws
  packed : t.journal.world.Packed
  kept : ∀ q, s.journal.idAt q ≠ .air →
    (∀ w ∈ ws, w.pos = q → w.before.id ≠ s.journal.idAt q) → t.journal.get q = s.journal.get q
  idAt : ∀ q, t.journal.idAt q = s.journal.idAt q ∨
    ∃ w ∈ ws, w.pos = q ∧ w.block.id = t.journal.idAt q

theorem Grows.nil (hs : s.journal.world.Packed) (h : t.journal = s.journal) : s.Grows t [] :=
  ⟨by simp [h], h ▸ hs, fun _ _ _ => by rw [h], fun _ => .inl (by rw [h])⟩

theorem Grows.trans (h : s.Grows t ws) (h' : t.Grows u vs) : s.Grows u (ws ++ vs) := by
  refine ⟨by rw [h'.writes, h.writes, List.append_assoc], h'.packed, fun q hq hkept => ?_,
    fun q => ?_⟩
  · rw [List.forall_mem_append] at hkept
    have hget : t.journal.get q = s.journal.get q := h.kept q hq hkept.1
    have hid : t.journal.idAt q = s.journal.idAt q := by
      rw [t.journal.idAt_eq, s.journal.idAt_eq, hget]
    rw [← hid] at hq hkept
    rw [h'.kept q hq hkept.2, hget]
  · rcases h'.idAt q with hlast | ⟨w, hw, hwrite⟩
    · rw [hlast]
      exact (h.idAt q).imp_right fun ⟨w, hw, hwrite⟩ => ⟨w, List.mem_append_left vs hw, hwrite⟩
    · exact .inr ⟨w, List.mem_append_right ws hw, hwrite⟩

theorem grows_place (hs : s.journal.world.Packed) (p : Pos) (b : Block) (notify : Bool) :
    ∃ ws, s.Grows (s.place p b notify) ws := by
  cases hp : p.inHeight
  · exact ⟨[], .nil hs (by rw [s.place_of_not_inHeight hp])⟩
  · have hjournal := s.journal_place hp b notify
    refine ⟨[⟨p, b, notify, s.journal.get p⟩], s.writes_place hp b notify, ?_,
      fun q hq hkept => ?_, fun q => ?_⟩
    · rw [hjournal, Journal.world_set]
      exact hs.set p b
    · have hne : q ≠ p := by
        rintro rfl
        exact hkept _ (List.mem_singleton_self _) rfl (s.journal.idAt_eq q).symm
      rw [hjournal, Journal.get_set]
      exact hs.get_set hne hq b
    · rw [idAt_place]
      by_cases hq : q = p
      · simp [hq, hp]
      · simp [hq]

end Site

/-- Every run grows the journal in this way. -/
theorem Build.grows {α : Type} (m : Build α) {s : Site} (hs : s.journal.world.Packed) :
    ∃ ws, s.Grows (m.run s).2 ws := by
  induction m generalizing s with
  | done a => exact ⟨[], .nil hs rfl⟩
  | act a next ih =>
      have hact : ∃ ws, s.Grows (a.perform s).2 ws := by
        cases a with
        | draw d => exact ⟨[], .nil hs rfl⟩
        | look p => exact ⟨[], .nil hs rfl⟩
        | place p b notify => exact s.grows_place hs p b notify
        | report n => exact ⟨[], .nil hs rfl⟩
      obtain ⟨ws, hws⟩ := hact
      obtain ⟨vs, hvs⟩ := ih (a.perform s).1 hws.packed
      exact ⟨ws ++ vs, hws.trans hvs⟩

/-- What holds of the added writes, with the blocks that these leave alone. -/
theorem Build.grows_of_adds {α : Type} {P : Write → Prop} {m : Build α} {s : Site}
    (h : s.Adds P (m.run s).2) (hs : s.journal.world.Packed) :
    ∃ ws, s.Grows (m.run s).2 ws ∧ ∀ w ∈ ws, P w := by
  obtain ⟨ws, hwrites, hws⟩ := h
  obtain ⟨vs, hvs⟩ := m.grows hs
  have hsame : vs = ws := List.append_cancel_left (hvs.writes.symm.trans hwrites)
  exact ⟨ws, hsame ▸ hvs, hws⟩

end VoxelFeatures
