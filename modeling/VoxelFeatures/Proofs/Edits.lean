import Mathlib.Data.Finset.Dedup
import Mathlib.Data.Finset.Card
import Mathlib.Data.Finset.Option
import VoxelFeatures.Proofs.Height

/-!
# Worlds after a history of edits

Seen from outside a world is a plain map from positions to block ids. An edit
says something about the ids of some positions: a write about its own one, a
new chunk about all of its cells. What a stored position reads as is what the
newest edit said that says anything about it, and the layer of the ground if
none does (`idAfter`). Neither the chunks nor the moment at which the ground
under a write was copied into one can be told from the ids.

The chunks show in their number only: there is one for each chunk that an edit
touched, which is the invariant `HasChunks`.
-/

namespace VoxelFeatures

/-- A change that is made to a world from outside. -/
inductive Edit where
  /-- A raw write. -/
  | write (p : Pos) (b : Block) (notify : Bool)
  /-- A placement, with or without notice to the neighbours. -/
  | place (p : Pos) (b : Block) (notify : Bool)
  | setChunk (k : ChunkPos) (c : Chunk)

namespace Edit

/-- The world after an edit. -/
def apply (w : World) : Edit → World
  | write p b notify => (w.write p b notify).2
  | place p b notify => (w.place p b notify).2
  | setChunk k c => w.setChunk k c

/-- The id that an edit gives to a stored position, if it says anything about it. -/
def idAt? (p : Pos) : Edit → Option BlockId
  | write q b _ | place q b _ => if q = p then some b.id else none
  | setChunk k c => if p.chunk = k then some (c.idAt p) else none

/-- The chunk that an edit touches, if it changes the world at all. -/
def chunk? : Edit → Option ChunkPos
  | write p _ _ | place p _ _ => p.chunk?
  | setChunk k _ => some k

end Edit

/-- The id at a stored position after a history of edits, the oldest first: what
the newest edit gave to the position, or the id of its layer. -/
def idAfter (layers : List (Block × Nat)) (es : List Edit) (p : Pos) : BlockId :=
  (es.reverse.findSome? (Edit.idAt? p)).getD (Profile.layerAt layers p.y.toInt.toNat).id

/-- The chunks that a history of edits touches. -/
def touchedBy (es : List Edit) : Finset ChunkPos := (es.filterMap Edit.chunk?).toFinset

namespace World

/-- The world after a history of edits. -/
def edit (w : World) (es : List Edit) : World := es.foldl Edit.apply w

@[simp] theorem edit_nil (w : World) : w.edit [] = w := rfl

theorem edit_cons (w : World) (e : Edit) (es : List Edit) :
    w.edit (e :: es) = (e.apply w).edit es := rfl

/-- A write within the height puts its chunk there, a copy of the ground if there was none. -/
theorem set_eq_alter (w : World) {p : Pos} (h : p.inHeight) (b : Block) :
    w.set p b =
      ⟨w.seed, w.profile, w.chunks.alter p.chunk fun c => some ((c.getD w.ground).set p b)⟩ := by
  obtain ⟨seed, profile, chunks⟩ := w
  rw [set, if_pos h]
  refine congrArg (fun f => World.mk seed profile (chunks.alter p.chunk f)) (funext fun c => ?_)
  cases c <;> rfl

theorem idAt_setChunk (w : World) (k : ChunkPos) (c : Chunk) {p : Pos} (h : p.inHeight) :
    (w.setChunk k c).idAt p = if p.chunk = k then c.idAt p else w.idAt p := by
  by_cases hc : p.chunk = k
  · subst hc
    simp [idAt, setChunk, h]
  · have hne : compare k p.chunk ≠ .eq :=
      fun e => hc (Std.LawfulEqCmp.eq_of_compare e).symm
    simp [idAt, setChunk, h, hc, Std.TreeMap.getElem?_insert, hne]

/-- An edit changes the id at a stored position to what it says about it. -/
theorem idAt_apply (w : World) (e : Edit) {p : Pos} (h : p.inHeight) :
    (e.apply w).idAt p = (e.idAt? p).getD (w.idAt p) := by
  have hset (q : Pos) (b : Block) :
      (w.set q b).idAt p = (if q = p then some b.id else none).getD (w.idAt p) := by
    rw [idAt_set]
    by_cases hq : q = p
    · subst hq
      simp [h]
    · rw [if_neg fun hp => hq hp.2.symm, if_neg hq]
      rfl
  cases e with
  | write q b notify => rw [Edit.apply, write_snd, hset, Edit.idAt?]
  | place q b notify => rw [Edit.apply, place_eq_write, write_snd, hset, Edit.idAt?]
  | setChunk k c =>
      rw [Edit.apply, idAt_setChunk w k c h, Edit.idAt?]
      split <;> rfl

/-- A history of edits changes the id at a stored position to what the newest
edit says that says anything about it. -/
theorem idAt_edit (w : World) (es : List Edit) {p : Pos} (h : p.inHeight) :
    (w.edit es).idAt p = (es.reverse.findSome? (Edit.idAt? p)).getD (w.idAt p) := by
  induction es generalizing w with
  | nil => rfl
  | cons e es ih =>
      rw [edit_cons, ih, idAt_apply w e h, List.reverse_cons, List.findSome?_append]
      cases es.reverse.findSome? (Edit.idAt? p) with
      | some id => rfl
      | none =>
          rw [List.findSome?_singleton]
          rfl

/-- Untouched ground reads as its layers. -/
theorem idAt_ofLayers (seed : Int64) (layers : List (Block × Nat)) {p : Pos} (h : p.inHeight) :
    (ofLayers seed layers).idAt p = (Profile.layerAt layers p.y.toInt.toNat).id := by
  have hget : (Profile.ofLayers layers)[p.layer] = Profile.layerAt layers p.layer.val :=
    Profile.getElem_ofLayers layers p.layer.isLt
  simp only [idAt, ofLayers, ofProfile, h, if_true, Std.TreeMap.getElem?_emptyc]
  rw [hget, Pos.layer_val h]

/-- A world has written the chunks of a set and no others, each of them once. -/
def HasChunks (w : World) (ks : Finset ChunkPos) : Prop :=
  w.chunkCount = ks.card ∧ ∀ k, k ∈ w.chunks ↔ k ∈ ks

theorem hasChunks_ofLayers (seed : Int64) (layers : List (Block × Nat)) :
    (ofLayers seed layers).HasChunks ∅ := by
  refine ⟨Std.TreeMap.size_emptyc, fun k => ?_⟩
  simp [ofLayers, ofProfile]

/-- Writing the chunk `k` puts it into the set of chunks that a world has written. -/
theorem HasChunks.grow {w w' : World} {ks : Finset ChunkPos} (hw : w.HasChunks ks) {k : ChunkPos}
    (hmem : ∀ j, j ∈ w'.chunks ↔ j = k ∨ j ∈ w.chunks)
    (hsize : w'.chunkCount = if k ∈ w.chunks then w.chunkCount else w.chunkCount + 1) :
    w'.HasChunks (insert k ks) := by
  refine ⟨?_, fun j => ?_⟩
  · rw [hsize, Finset.card_insert_eq_ite, hw.1]
    simp only [hw.2]
  · rw [hmem, Finset.mem_insert, hw.2]

theorem HasChunks.setChunk {w : World} {ks : Finset ChunkPos} (hw : w.HasChunks ks) (k : ChunkPos)
    (c : Chunk) : (w.setChunk k c).HasChunks (insert k ks) := by
  refine hw.grow (fun j => ?_) ?_
  · simp only [World.setChunk, Std.TreeMap.mem_insert, Std.LawfulEqCmp.compare_eq_iff_eq]
    rw [eq_comm]
  · simp only [chunkCount, World.setChunk, Std.TreeMap.size_insert, Std.TreeMap.contains_iff_mem]

theorem HasChunks.set {w : World} {ks : Finset ChunkPos} (hw : w.HasChunks ks) {p : Pos}
    (h : p.inHeight) (b : Block) : (w.set p b).HasChunks (insert p.chunk ks) := by
  rw [set_eq_alter w h]
  refine hw.grow (fun j => ?_) ?_
  · simp only [Std.TreeMap.mem_alter, Std.LawfulEqCmp.compare_eq_iff_eq]
    by_cases hj : p.chunk = j
    · simp [hj]
    · simp [hj, Ne.symm hj]
  · rw [chunkCount, Std.TreeMap.size_alter]
    by_cases hk : p.chunk ∈ w.chunks
    · simp [hk, chunkCount]
    · simp [hk, chunkCount]

theorem HasChunks.apply {w : World} {ks : Finset ChunkPos} (hw : w.HasChunks ks) (e : Edit) :
    (e.apply w).HasChunks (e.chunk?.toFinset ∪ ks) := by
  have hset (p : Pos) (b : Block) : (w.set p b).HasChunks (p.chunk?.toFinset ∪ ks) := by
    cases h : p.inHeight
    · rw [set_of_not_inHeight w h]
      simpa [Pos.chunk?, h] using hw
    · simpa [Pos.chunk?, h] using hw.set h b
  cases e with
  | write p b notify =>
      rw [Edit.apply, write_snd]
      exact hset p b
  | place p b notify =>
      rw [Edit.apply, place_eq_write, write_snd]
      exact hset p b
  | setChunk k c => exact hw.setChunk k c

/-- A history of edits leaves the chunks that were there and those it touched. -/
theorem HasChunks.edit {w : World} {ks : Finset ChunkPos} (hw : w.HasChunks ks) (es : List Edit) :
    (w.edit es).HasChunks (touchedBy es ∪ ks) := by
  induction es generalizing w ks with
  | nil => simpa [touchedBy] using hw
  | cons e es ih =>
      have hstep : touchedBy (e :: es) ∪ ks = touchedBy es ∪ (e.chunk?.toFinset ∪ ks) := by
        ext k
        cases h : e.chunk? <;> simp [touchedBy, h]
      rw [edit_cons, hstep]
      exact ih (hw.apply e)

/-- A world refines a plain map from positions to block ids: what a stored
position reads as is what the newest edit gave to it, and its layer before any
edit. Positions outside the height read as air and refuse every write. Heights
and the number of chunks are those of the map and of the touched chunks. -/
theorem edited_world_refines_map (seed : Int64) (layers : List (Block × Nat)) (es : List Edit) :
    let w := (ofLayers seed layers).edit es
    (∀ p, p.inHeight → w.idAt p = idAfter layers es p) ∧
    (∀ p, p.inHeight = false → w.get p = .air ∧ w.idAt p = .air ∧
      ∀ b notify, w.write p b notify = (false, w) ∧ w.place p b notify = (false, w)) ∧
    (∀ x z, (w.height x z = 0 ∧ ∀ y, w.idAt ⟨x, y, z⟩ = .air) ∨
      ∃ y, IsGreatest {y | w.idAt ⟨x, y, z⟩ ≠ .air} y ∧ (w.height x z : Int) = y.toInt + 1) ∧
    w.chunkCount = (touchedBy es).card := by
  intro w
  refine ⟨fun p hp => ?_, fun p hp => ⟨get_of_not_inHeight w hp, ?_, fun b notify => ?_⟩,
    w.height_isGreatest, ?_⟩
  · rw [idAt_edit _ es hp, idAt_ofLayers seed layers hp, idAfter]
  · rw [idAt_eq, get_of_not_inHeight w hp]
    rfl
  · rw [place_eq_write]
    exact ⟨write_of_not_inHeight w hp b notify, write_of_not_inHeight w hp b notify⟩
  · have hw := (hasChunks_ofLayers seed layers).edit es
    rw [Finset.union_empty] at hw
    exact hw.1

/-- A chest placed before its chunk was replaced is gone from the map. -/
theorem refined_map_of_replaced_chunk :
    (⟨-1, 3, -17⟩ : Pos).inHeight ∧
      ((ofLayers 7 [(.plain .stone, 60), (.plain .grass, 1)]).edit
        [.place ⟨-1, 3, -17⟩ (.plain .chest) true, .setChunk ⟨-1, -2⟩ .empty,
          .write ⟨-1, 4, -17⟩ ⟨.log, 2⟩ false]).idAt ⟨-1, 3, -17⟩ = .air :=
  ⟨by decide, ((edited_world_refines_map _ _ _).1 _ (by decide)).trans (by decide +kernel)⟩

end World

end VoxelFeatures
