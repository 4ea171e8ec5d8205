import VoxelFeatures.Block.Set

/-!
# Tree species

A species has a trunk block, a leaf block and the set of blocks that it grows
over.
-/

namespace VoxelFeatures

structure Species where
  trunk : Block
  leaf : Block
  overridable : BlockSet
deriving DecidableEq, Repr

namespace Species

/-- What a tree grows over unless its species says otherwise. -/
def treeOverridable : BlockSet :=
  .ofList [.air, .sapling, .log, .leaves, .snowLayer, .leaves2, .wood2]

/-- A species with one metadata value for trunk and leaves. -/
def ofBlocks (trunk leaf : BlockId) (data : UInt8) : Species :=
  ⟨⟨trunk, data⟩, ⟨leaf, data⟩, treeOverridable⟩

def oak : Species := ofBlocks .log .leaves 0
def spruce : Species := ofBlocks .log .leaves 1
def birch : Species := ofBlocks .log .leaves 2
def jungle : Species := ofBlocks .log .leaves 3
def acacia : Species := ofBlocks .wood2 .leaves2 0
def darkOak : Species := ofBlocks .wood2 .leaves2 1

end Species

end VoxelFeatures
