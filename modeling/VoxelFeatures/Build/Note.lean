import VoxelFeatures.Grid.Pos
import VoxelFeatures.Block.Id

/-!
# Notes

A feature reports what it does as notes: one for every block that it places,
and one at a few turning points of its own. A note has a level and a text.
-/

namespace VoxelFeatures

inductive Note where
  /-- A block is about to be placed. -/
  | placed (p : Pos) (b : Block)
  /-- A lake was given up because a fluid touches its upper part. -/
  | lakeOpens (lake fluid : Pos)
  /-- A dungeon was given up for its number of openings. -/
  | dungeonRejected (p : Pos) (openings : Nat)
  | dungeonPlaced (p : Pos) (sizeX sizeZ : Int32)
  /-- An ice spike was lifted into a tall pillar. -/
  | spikeLifted (p : Pos)
  /-- A boulder is complete, its last sphere stepping off to a position. -/
  | boulderEnds (id : BlockId) (p : Pos)
  /-- All veins of one ore layer of a chunk are done. -/
  | veinsDone (veins : Int32) (ore : BlockId)
deriving DecidableEq, Repr

namespace Note

def level : Note → String
  | veinsDone .. => "DEBUG"
  | _ => "TRACE"

def text : Note → String
  | placed p b => s!"place {b.id.name} ({b.id.code}:{b.data}) at {p}"
  | lakeOpens lake fluid => s!"lake at {lake} opens on fluid at {fluid}"
  | dungeonRejected p openings => s!"dungeon at {p} rejected with {openings} openings"
  | dungeonPlaced p sizeX sizeZ => s!"dungeon at {p} placed, size {sizeX}x{sizeZ}"
  | spikeLifted p => s!"tall ice spike at {p}"
  | boulderEnds id p => s!"blob of {id.name} ending at {p}"
  | veinsDone veins ore => s!"generated {veins} veins of {ore.name}"

/-- A note is written as its level and its text. -/
instance : ToString Note := ⟨fun n => n.level ++ " " ++ n.text⟩

end Note

end VoxelFeatures
