import VoxelFeatures.Stream
import VoxelFeatures.SineTable
import VoxelFeatures.Grid.Pos
import VoxelFeatures.Grid.Face
import VoxelFeatures.Grid.Span
import VoxelFeatures.Grid.Line
import VoxelFeatures.Block.Id
import VoxelFeatures.Block.Set
import VoxelFeatures.Block.Plant
import VoxelFeatures.World.HalfByte
import VoxelFeatures.World.Column
import VoxelFeatures.World.Chunk
import VoxelFeatures.World.Basic
import VoxelFeatures.World.InsertionMap
import VoxelFeatures.World.Journal
import VoxelFeatures.Build.Note
import VoxelFeatures.Build.Basic
import VoxelFeatures.Build.Run
import VoxelFeatures.Build.Walk
import VoxelFeatures.Feature.ConfigError
import VoxelFeatures.Feature.Vein
import VoxelFeatures.Feature.OreLayer
import VoxelFeatures.Feature.LakeBasin
import VoxelFeatures.Feature.Spring
import VoxelFeatures.Feature.Dungeon
import VoxelFeatures.Feature.HugeMushroom
import VoxelFeatures.Feature.PackedIce
import VoxelFeatures.Feature.Disc
import VoxelFeatures.Feature.Boulder
import VoxelFeatures.Plant.Scatter
import VoxelFeatures.Plant.Stalk
import VoxelFeatures.Plant.Vines
import VoxelFeatures.Plant.TallPlant
import VoxelFeatures.Tree.Species
import VoxelFeatures.Tree.Ground
import VoxelFeatures.Tree.Small
import VoxelFeatures.Tree.DarkOak
import VoxelFeatures.Tree.Conifer
import VoxelFeatures.Tree.Acacia
import VoxelFeatures.Tree.SwampOak
import VoxelFeatures.Tree.Jungle
import VoxelFeatures.Tree.GiantJungle
import VoxelFeatures.Tree.GiantPine
import VoxelFeatures.Tree.LargeOak
import VoxelFeatures.Feature.Basic
import VoxelFeatures.Proofs.Members
import VoxelFeatures.Proofs.Layers
import VoxelFeatures.Proofs.Height
import VoxelFeatures.Proofs.Cells
import VoxelFeatures.Proofs.Edits
import VoxelFeatures.Proofs.Allocation
import VoxelFeatures.Proofs.Draw
import VoxelFeatures.Proofs.Acts
import VoxelFeatures.Proofs.Walks
import VoxelFeatures.Proofs.Words
import VoxelFeatures.Proofs.Inspection
import VoxelFeatures.Proofs.Refusal
import VoxelFeatures.Proofs.Trace
import VoxelFeatures.Proofs.LegalWrites
import VoxelFeatures.Proofs.Period
import VoxelFeatures.Proofs.Fairness
import VoxelFeatures.Proofs.Agreement
import VoxelFeatures.Proofs.Additions
import VoxelFeatures.Proofs.Journals
import VoxelFeatures.Proofs.Ores
import VoxelFeatures.Proofs.Distance
import VoxelFeatures.Proofs.NearActs
import VoxelFeatures.Proofs.NearTrees
import VoxelFeatures.Proofs.NearFeatures
import VoxelFeatures.Proofs.Locality
import VoxelFeatures.Proofs.Room
import VoxelFeatures.Proofs.Alignment
import VoxelFeatures.Proofs.AlignedTrees
import VoxelFeatures.Proofs.AlignedFeatures
import VoxelFeatures.Proofs.Moves
import VoxelFeatures.Proofs.MovedTrees
import VoxelFeatures.Proofs.MovedFeatures
import VoxelFeatures.Proofs.Translation
import VoxelFeatures.Proofs.TranslatedFeatures
import VoxelFeatures.Proofs.Overgrowth
import VoxelFeatures.Proofs.GroundSearch
import VoxelFeatures.Proofs.Retention
import VoxelFeatures.Proofs.GuardedTrees
import VoxelFeatures.Proofs.Scattered
import VoxelFeatures.Proofs.Sweep
import VoxelFeatures.Proofs.Carving
import VoxelFeatures.Proofs.Basins
import VoxelFeatures.Proofs.Stalks
import VoxelFeatures.Proofs.TreeVines
import VoxelFeatures.Proofs.OakLimbs
import VoxelFeatures.Proofs.Mushrooms
import VoxelFeatures.Proofs.Seeds
import VoxelFeatures.Proofs.Ranges
import VoxelFeatures.Proofs.Lasting
import VoxelFeatures.Proofs.IceDiscs
import VoxelFeatures.Proofs.Standing
import VoxelFeatures.Proofs.AcaciaWood
import VoxelFeatures.Proofs.Fills
import VoxelFeatures.Proofs.GroundChunk
import VoxelFeatures.Proofs.VeinOrigins
import VoxelFeatures.Proofs.Clearance
