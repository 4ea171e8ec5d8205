/-!
# Refused configurations

A feature whose parameters would leave a draw without a meaning is not built.
Each cause of refusal has one text.
-/

namespace VoxelFeatures

inductive ConfigError where
  /-- A vein of no blocks. -/
  | emptyVein
  /-- Metadata of more than four bits. -/
  | metadataOutOfRange (data : UInt8)
  | radiusTooSmall (least got : Int32)
  /-- A triangular distribution without width. -/
  | emptySpread (spread : Int32)
  /-- An ore layer without veins. -/
  | noVeins (veins : Int32)
deriving DecidableEq, Repr

namespace ConfigError

def message : ConfigError → String
  | emptyVein => "vein block count must be positive"
  | metadataOutOfRange data => s!"metadata {data} does not fit in 4 bits"
  | radiusTooSmall least got => s!"radius {got} is too small, minimum is {least}"
  | emptySpread spread => s!"distribution spread must be positive, got {spread}"
  | noVeins veins => s!"vein count per chunk must be positive, got {veins}"

end ConfigError

end VoxelFeatures
