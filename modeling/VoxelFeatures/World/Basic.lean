import Std.Data.TreeMap
import VoxelFeatures.World.Chunk

/-!
# The world

A world has a ground profile and the chunks that were written so far. A chunk
that was never written reads as the profile, layer by layer. The first write
into it makes it a chunk of its own, sixteen by sixteen copies of the column
that the profile stands for. That column has the layers of the profile that are
not air; a layer of air has no metadata in it, whatever the profile says.

Outside the height of the world every read is air, and a write changes nothing.
-/

namespace VoxelFeatures

structure World where
  seed : Int64
  profile : Profile
  chunks : Std.TreeMap ChunkPos Chunk

namespace World

/-- A world of untouched ground. -/
def ofProfile (seed : Int64) (profile : Profile) : World := ⟨seed, profile, ∅⟩

/-- A world of untouched ground, given by its layers from the bottom up. -/
def ofLayers (seed : Int64) (layers : List (Block × Nat)) : World :=
  ofProfile seed (.ofLayers layers)

/-- A world of air. -/
def empty (seed : Int64) : World := ofProfile seed .air

/-- The block at a position. -/
def get (w : World) (p : Pos) : Block :=
  if p.inHeight then
    match w.chunks[p.chunk]? with
    | some c => c.get p
    | none => w.profile[p.layer]
  else .air

/-- The block id at a position. -/
def idAt (w : World) (p : Pos) : BlockId :=
  if p.inHeight then
    match w.chunks[p.chunk]? with
    | some c => c.idAt p
    | none => w.profile[p.layer].id
  else .air

/-- The chunk that the first write into untouched ground makes. Filling the layers into a new
chunk one by one comes to the same (see the module on chunks of untouched ground). -/
def ground (w : World) : Chunk := .uniform w.profile.column

/-- Writes a block, if its position is within the height of the world. -/
def set (w : World) (p : Pos) (b : Block) : World :=
  if p.inHeight then
    match w with
    | ⟨seed, profile, chunks⟩ =>
        ⟨seed, profile, chunks.alter p.chunk fun
          | some c => some (c.set p b)
          | none => some ((Chunk.uniform profile.column).set p b)⟩
  else w

/-- A raw write, and whether its position could be written. A world has no
neighbours to tell of the change. -/
def write (w : World) (p : Pos) (b : Block) (_notify : Bool) : Bool × World :=
  match p.chunk? with
  | some _ => (true, w.set p b)
  | none => (false, w)

/-- A placement, which is a write where the layer is one of the world's. -/
def place (w : World) (p : Pos) (b : Block) (notify : Bool) : Bool × World :=
  if p.inHeight then w.write p b notify else (false, w)

/-- The chunk at a place, once it has been written. -/
def chunk? (w : World) (c : ChunkPos) : Option Chunk := w.chunks[c]?

/-- Replaces a whole chunk. -/
def setChunk (w : World) (place : ChunkPos) (c : Chunk) : World :=
  { w with chunks := w.chunks.insert place c }

/-- The number of chunks that have been written. -/
def chunkCount (w : World) : Nat := w.chunks.size

/-- One above the highest cell of a column that is not air. -/
def height (w : World) (x z : Int32) : Nat :=
  let p : Pos := ⟨x, 0, z⟩
  match w.chunks[p.chunk]? with
  | some c => c.height p
  | none => w.profile.height

theorem idAt_eq (w : World) (p : Pos) : w.idAt p = (w.get p).id := by
  unfold idAt get
  split
  · split <;> rfl
  · rfl

/-- A write within the height of the world changes the id at its own position
and no other, whether it made a chunk or not. -/
theorem idAt_set (w : World) (p q : Pos) (b : Block) :
    (w.set p b).idAt q = if p.inHeight ∧ q = p then b.id else w.idAt q := by
  by_cases hp : p.inHeight
  · by_cases hq : q.inHeight
    · by_cases hc : p.chunk = q.chunk
      · have hcell : (q.column = p.column ∧ q.layer = p.layer) ↔ q = p :=
          ⟨fun h => Pos.eq_of_cell_eq hq hp hc.symm h.1 h.2, fun h => by simp [h]⟩
        cases h : w.chunks[q.chunk]? with
        | some c =>
            simp only [idAt, set, hp, hq, Std.TreeMap.getElem?_alter, hc, Std.compare_self, h,
              Chunk.idAt_eq, Chunk.get_set, hcell, if_true]
            split <;> simp_all
        | none =>
            simp only [idAt, set, hp, hq, Std.TreeMap.getElem?_alter, hc, Std.compare_self, h,
              Chunk.idAt_eq, Chunk.get_set, Chunk.get_uniform, hcell, if_true]
            split <;> simp_all [Profile.idAt_column]
      · have hne : q ≠ p := fun e => hc (by rw [e])
        have : compare p.chunk q.chunk ≠ .eq := fun e => hc (Std.LawfulEqCmp.eq_of_compare e)
        simp [idAt, set, hp, hq, Std.TreeMap.getElem?_alter, this, hne]
    · have hne : q ≠ p := fun e => hq (by rw [e]; exact hp)
      simp [idAt, hq, hne]
  · simp [set, hp]

@[simp] theorem get_of_not_inHeight (w : World) {p : Pos} (h : p.inHeight = false) :
    w.get p = .air := by
  simp [get, h]

theorem write_of_inHeight (w : World) {p : Pos} (h : p.inHeight) (b : Block) (notify : Bool) :
    w.write p b notify = (true, w.set p b) := by
  simp [write, Pos.chunk?, h]

@[simp] theorem set_of_not_inHeight (w : World) {p : Pos} (h : p.inHeight = false) (b : Block) :
    w.set p b = w := by
  simp [set, h]

theorem write_of_not_inHeight (w : World) {p : Pos} (h : p.inHeight = false) (b : Block)
    (notify : Bool) : w.write p b notify = (false, w) := by
  simp [write, Pos.chunk?, h]

/-- The positions that can be written are those within the height of the world. -/
theorem write_fst (w : World) (p : Pos) (b : Block) (notify : Bool) :
    (w.write p b notify).1 = p.inHeight := by
  cases h : p.inHeight
  · rw [write_of_not_inHeight w h]
  · rw [write_of_inHeight w h]

/-- Both ways of writing change the world alike, within its height or not. -/
theorem write_snd (w : World) (p : Pos) (b : Block) (notify : Bool) :
    (w.write p b notify).2 = w.set p b := by
  cases h : p.inHeight
  · rw [write_of_not_inHeight w h, set_of_not_inHeight w h]
  · rw [write_of_inHeight w h]

theorem place_eq_write (w : World) (p : Pos) (b : Block) (notify : Bool) :
    w.place p b notify = w.write p b notify := by
  cases h : p.inHeight
  · rw [write_of_not_inHeight w h]
    simp [place, h]
  · simp [place, h]

end World

end VoxelFeatures
