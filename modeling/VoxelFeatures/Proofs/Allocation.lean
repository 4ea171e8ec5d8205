import VoxelFeatures.Proofs.Edits

/-!
# Allocation of a chunk by its first write

The first write into a chunk copies the ground of all its columns into a chunk
of its own. The copy leaves out layers of air, so a layer of air that was given
with metadata reads with it before the copy and without it afterwards;
everything else is copied as it was. A write is therefore seen at its own
position alone exactly if its chunk was there before, or if no layer of the
ground is air with metadata.
-/

namespace VoxelFeatures

theorem Block.stored_stored (b : Block) : b.stored.stored = b.stored := by
  simp [Block.stored, UInt8.and_assoc]

namespace Profile

theorem stored_layerAt (layers : List (Block × Nat)) (y : Nat) :
    (layerAt layers y).stored = layerAt layers y := by
  induction layers generalizing y with
  | nil => simp [Block.air, Block.plain, Block.stored]
  | cons l layers ih =>
      rw [layerAt_cons]
      split
      · exact Block.stored_stored l.1
      · exact ih _

/-- The column of a profile holds a layer as it is, unless it is air with metadata. -/
theorem get_column_eq_iff (layers : List (Block × Nat)) (y : Fin 256) :
    (ofLayers layers).column.get y = layerAt layers y ↔
      ((layerAt layers y).id = .air → (layerAt layers y).data = 0) := by
  have hlayer : (ofLayers layers)[y] = layerAt layers y := getElem_ofLayers layers y.isLt
  rw [column, Column.get_ofBlocks, hlayer]
  by_cases hair : (layerAt layers y).id = .air
  · rw [if_pos hair]
    constructor
    · intro h _
      exact h ▸ rfl
    · intro h
      have hlayerAir : layerAt layers y = Block.air := by
        rw [Block.air, Block.plain, ← hair, ← h hair]
      rw [hlayerAir]
      rfl
  · rw [if_neg hair, stored_layerAt]
    exact iff_of_true rfl fun h => absurd h hair

end Profile

namespace World

/-- A write puts its block at its own position, and the copy of the ground into
the rest of a chunk that was not there. -/
theorem get_set (w : World) {p : Pos} (hp : p.inHeight) (b : Block) (q : Pos) :
    (w.set p b).get q =
      if q = p then b.stored
      else if q.inHeight ∧ q.chunk = p.chunk ∧ p.chunk ∉ w.chunks then w.ground.get q
      else w.get q := by
  by_cases hq : q.inHeight
  · by_cases hc : q.chunk = p.chunk
    · have hcell : (q.column = p.column ∧ q.layer = p.layer) ↔ q = p :=
        ⟨fun h => Pos.eq_of_cell_eq hq hp hc h.1 h.2, fun h => by simp [h]⟩
      rw [set_eq_alter w hp]
      by_cases hmem : p.chunk ∈ w.chunks
      · simp [get, hq, hc, hmem, Chunk.get_set, hcell]
      · simp [get, hq, hc, hmem, Chunk.get_set, hcell]
    · have hne : q ≠ p := fun e => hc (by rw [e])
      have hcompare : compare p.chunk q.chunk ≠ .eq :=
        fun e => hc (Std.LawfulEqCmp.eq_of_compare e).symm
      rw [set_eq_alter w hp]
      simp [get, hq, hc, hne, Std.TreeMap.getElem?_alter, hcompare]
  · have hne : q ≠ p := fun e => hq (by rw [e]; exact hp)
    simp [get, hq, hne]

/-- Edits leave the ground under the chunks alone. -/
theorem profile_edit (w : World) (es : List Edit) : (w.edit es).profile = w.profile := by
  have hset (w : World) (p : Pos) (b : Block) : (w.set p b).profile = w.profile := by
    cases h : p.inHeight
    · rw [set_of_not_inHeight w h]
    · rw [set_eq_alter w h]
  induction es generalizing w with
  | nil => rfl
  | cons e es ih =>
      rw [edit_cons, ih]
      cases e with
      | write p b notify => rw [Edit.apply, write_snd, hset]
      | place p b notify => rw [Edit.apply, place_eq_write, write_snd, hset]
      | setChunk k c => rfl

theorem mem_chunks_edit (seed : Int64) (layers : List (Block × Nat)) (es : List Edit)
    (k : ChunkPos) : k ∈ ((ofLayers seed layers).edit es).chunks ↔ k ∈ touchedBy es := by
  have hw := (hasChunks_ofLayers seed layers).edit es
  rw [Finset.union_empty] at hw
  exact hw.2 k

end World

/-- Every layer of a chunk has a position other than a given one. -/
theorem Pos.exists_ne_in_chunk (p : Pos) (y : Int32) :
    ∃ q : Pos, q ≠ p ∧ q.chunk = p.chunk ∧ q.y = y := by
  -- a neighbour along `x` on the side that the chunk goes on to
  obtain ⟨x, hdiv, hne⟩ : ∃ x : Int, x / 16 = p.x.toInt / 16 ∧ x ≠ p.x.toInt := by
    by_cases h : p.x.toInt % 16 = 0
    · exact ⟨p.x.toInt + 1, by omega, by omega⟩
    · exact ⟨p.x.toInt - 1, by omega, by omega⟩
  have hlow := p.x.le_toInt
  have hhigh := p.x.toInt_lt
  have hx : (Int32.ofInt x).toInt = x := Int32.toInt_ofInt_of_le (by omega) (by omega)
  refine ⟨⟨.ofInt x, y, p.z⟩, fun h => ?_, ?_, rfl⟩
  · have hpx : (Int32.ofInt x).toInt = p.x.toInt := congrArg (·.x.toInt) h
    exact hne (hx.symm.trans hpx)
  · have hshift : Int32.ofInt x >>> 4 = p.x >>> 4 := by
      rw [← Int32.toInt_inj, toInt_shiftRight_four, toInt_shiftRight_four, hx, hdiv]
    simp [Pos.chunk, hshift]

namespace World

/-- What the ground under a stored position reads as before and after it is copied. -/
theorem get_ground_eq_iff (seed : Int64) (layers : List (Block × Nat)) (es : List Edit) {q : Pos}
    (hq : q.inHeight) (hnew : q.chunk ∉ touchedBy es) :
    ((ofLayers seed layers).edit es).ground.get q = ((ofLayers seed layers).edit es).get q ↔
      ((Profile.layerAt layers q.y.toInt.toNat).id = .air →
        (Profile.layerAt layers q.y.toInt.toNat).data = 0) := by
  have hmem : q.chunk ∉ ((ofLayers seed layers).edit es).chunks :=
    fun h => hnew ((mem_chunks_edit seed layers es q.chunk).1 h)
  have hprofile : ((ofLayers seed layers).edit es).profile = .ofLayers layers :=
    profile_edit (ofLayers seed layers) es
  have hlayer : (Profile.ofLayers layers)[q.layer] = Profile.layerAt layers q.layer.val :=
    Profile.getElem_ofLayers layers q.layer.isLt
  have hread : ((ofLayers seed layers).edit es).get q = Profile.layerAt layers q.layer.val := by
    simp only [get, hq, if_true, Std.TreeMap.getElem?_eq_none hmem, hprofile, hlayer]
  rw [hread, ground, hprofile, Chunk.get_uniform, Profile.get_column_eq_iff, Pos.layer_val hq]

/-- A write within the height changes another position exactly if that position
lies in the same chunk, no edit touched the chunk before, and its layer is air
with metadata. -/
theorem get_set_eq_iff (seed : Int64) (layers : List (Block × Nat)) (es : List Edit) {p q : Pos}
    (hp : p.inHeight) (hne : q ≠ p) (b : Block) :
    (((ofLayers seed layers).edit es).set p b).get q = ((ofLayers seed layers).edit es).get q ↔
      (q.inHeight → q.chunk = p.chunk → p.chunk ∉ touchedBy es →
        (Profile.layerAt layers q.y.toInt.toNat).id = .air →
        (Profile.layerAt layers q.y.toInt.toNat).data = 0) := by
  rw [get_set _ hp, if_neg hne]
  by_cases h : q.inHeight ∧ q.chunk = p.chunk ∧ p.chunk ∉ touchedBy es
  · obtain ⟨hq, hc, hnew⟩ := h
    have hmem : p.chunk ∉ ((ofLayers seed layers).edit es).chunks :=
      fun h => hnew ((mem_chunks_edit seed layers es p.chunk).1 h)
    rw [if_pos ⟨hq, hc, hmem⟩, get_ground_eq_iff seed layers es hq (by rw [hc]; exact hnew)]
    exact ⟨fun h _ _ _ => h, fun h => h hq hc hnew⟩
  · rw [if_neg fun hm => h ⟨hm.1, hm.2.1, fun ht =>
      hm.2.2 ((mem_chunks_edit seed layers es p.chunk).2 ht)⟩]
    exact iff_of_true rfl fun hq hc hnew => absurd ⟨hq, hc, hnew⟩ h

/-- A write within the height is answered by `true`, is read back with the low
four bits of its metadata, and changes the id of no other position. It changes
the metadata of no other position exactly if an edit touched its chunk before or
no layer of the ground is air with metadata. -/
theorem write_frame_iff (seed : Int64) (layers : List (Block × Nat)) (es : List Edit) (p : Pos)
    (hp : p.inHeight) (b : Block) (notify : Bool) :
    let w := (ofLayers seed layers).edit es
    (w.write p b notify).1 = true ∧ (w.write p b notify).2.get p = ⟨b.id, b.data &&& 0x0F⟩ ∧
    (∀ q, q ≠ p → ((w.write p b notify).2.get q).id = (w.get q).id) ∧
    ((∀ q, q ≠ p → (w.write p b notify).2.get q = w.get q) ↔
      p.chunk ∈ touchedBy es ∨
        ∀ y < 256, (Profile.layerAt layers y).id = .air → (Profile.layerAt layers y).data = 0) := by
  intro w
  rw [write_of_inHeight w hp]
  refine ⟨rfl, ?_, fun q hne => ?_, fun h => ?_, fun h q hne => ?_⟩
  · rw [get_set w hp, if_pos rfl]
    rfl
  · rw [← idAt_eq, ← idAt_eq, idAt_set, if_neg fun h => hne h.2]
  · by_cases ht : p.chunk ∈ touchedBy es
    · exact .inl ht
    · refine .inr fun y hy => ?_
      obtain ⟨q, hne, hc, hqy⟩ := p.exists_ne_in_chunk (.ofNat y)
      have hint : q.y.toInt = y := by rw [hqy, Int32.toInt_ofNat_of_lt (by omega)]
      have hq : q.inHeight := by
        rw [Pos.inHeight_iff_toInt]
        omega
      have hlayer := (get_set_eq_iff seed layers es hp hne b).1 (h q hne) hq hc ht
      rwa [hint] at hlayer
  · rw [get_set_eq_iff seed layers es hp hne b]
    intro hq _ hnew
    rcases h with ht | hground
    · exact absurd ht hnew
    · rw [Pos.inHeight_iff_toInt] at hq
      exact hground _ (by omega)

/-- Above ground with metadata in its air a second write into a chunk is local. -/
theorem second_write_frame :
    (⟨1, 2, 0⟩ : Pos).inHeight ∧
      ((((ofLayers 0 [(⟨.air, 5⟩, 1), (.plain .stone, 3)]).edit
        [.write ⟨15, 1, 3⟩ (.plain .dirt) false]).write ⟨1, 2, 0⟩ ⟨.log, 18⟩ false).2.get ⟨0, 0, 0⟩ =
        ((ofLayers 0 [(⟨.air, 5⟩, 1), (.plain .stone, 3)]).edit
          [.write ⟨15, 1, 3⟩ (.plain .dirt) false]).get ⟨0, 0, 0⟩) :=
  ⟨by decide, (write_frame_iff 0 [(⟨.air, 5⟩, 1), (.plain .stone, 3)]
    [.write ⟨15, 1, 3⟩ (.plain .dirt) false] ⟨1, 2, 0⟩ (by decide) ⟨.log, 18⟩ false).2.2.2.2
    (.inl (by decide)) ⟨0, 0, 0⟩ (by decide)⟩

/-- The first write into a chunk clears the metadata of its air. -/
theorem first_write_clears_air :
    ¬ ∀ q : Pos, q ≠ ⟨1, 0, 0⟩ →
      ((ofLayers 0 [(⟨.air, 5⟩, 1)]).write ⟨1, 0, 0⟩ (.plain .stone) false).2.get q =
        (ofLayers 0 [(⟨.air, 5⟩, 1)]).get q := by
  intro h
  exact absurd (h ⟨0, 0, 0⟩ (by decide)) (by decide +kernel)

end World

end VoxelFeatures
