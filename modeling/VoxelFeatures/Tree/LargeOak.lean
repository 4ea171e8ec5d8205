import VoxelFeatures.SineTable
import VoxelFeatures.Grid.Line
import VoxelFeatures.Tree.Ground

/-!
# Large oaks

A large oak has a tall trunk and limbs that lead from the trunk to clusters of
foliage. It takes one draw from the stream, which forks off a stream of its
own; all its choices come from there. First the clusters are chosen, each where
its own column and the limb to it are free. Then foliage, trunk and limbs are
placed, in this order and over each other.
-/

namespace VoxelFeatures

/-- The shape of a large oak. -/
structure LargeOak where
  /-- The part of the height that the trunk takes. -/
  heightAttenuation : Float
  /-- How far a limb falls per cell from the cluster to the trunk. -/
  branchSlope : Float
  scaleWidth : Float
  leafDensity : Float
  /-- The width of the trunk, one or two cells. -/
  trunkSize : Int32
  /-- The exclusive bound of the height drawn above five. -/
  heightBound : Int32
  /-- The height of a foliage cluster. -/
  clusterHeight : Int32

namespace LargeOak

/-- The usual shape. -/
def usual : LargeOak := ⟨0.618, 0.381, 1.0, 1.0, 1, 12, 4⟩

/-- What a limb passes through. -/
def passable : BlockSet := .ofList [.air, .leaves, .sapling, .vine, .log]

def leafReplaceable : BlockSet := .ofList [.air, .leaves]

/-- The index of the first cell of a line that a limb cannot pass. -/
def blockedAt (a b : Pos) : Build (Option Nat) :=
  (Line.between a b).findIndexM? fun p => return !(← Build.isIn passable p)

/-- A foliage cluster: the middle of its lowest layer, and the layer in which
its limb leaves the trunk. -/
structure Cluster where
  base : Pos
  limbY : Int32
deriving DecidableEq, Repr

/-- A tree that found its place: its origin and the height it may reach. -/
structure Stand where
  origin : Pos
  limit : Int32

namespace Stand

/-- The height of the trunk. -/
def height (s : Stand) (t : LargeOak) : Int32 :=
  min (s.limit.toFloat * t.heightAttenuation).toInt32 (s.limit - 1)

/-- The number of clusters tried per layer. -/
def tries (s : Stand) (t : LargeOak) : Int32 :=
  let fill := t.leafDensity * s.limit.toFloat / 13.0
  max (1.382 + fill * fill).toInt32 1

/-- The highest layer from which a limb leaves the trunk. -/
def topLimbY (s : Stand) (t : LargeOak) : Int32 := s.origin.y + s.height t

/-- The layer of the top cluster, counted from the origin. -/
def topLayer (s : Stand) (t : LargeOak) : Int32 := s.limit - t.clusterHeight

/-- Half the width of the crown in a layer: that of a circle around half the
height, and negative below the crown. -/
def layerSize (s : Stand) (layer : Int32) : Float32 :=
  if layer.toFloat32 < s.limit.toFloat32 * 0.3 then -1.0
  else
    let half := s.limit.toFloat32 / 2.0
    let offset := half - layer.toFloat32
    if offset == 0.0 then half * 0.5
    else if offset.abs ≥ half then 0.0
    else (half * half - offset * offset).toFloat.sqrt.toFloat32 * 0.5

/-- Where a cluster is tried in a layer of some size, with its drawn distance
and direction. -/
def candidate (s : Stand) (t : LargeOak) (layer : Int32) (size distance turn : Float32) : Pos :=
  let d := t.scaleWidth * size.toFloat * (distance.toFloat + 0.328)
  let angle := turn.toFloat * 2.0 * pi
  ⟨(s.origin.x.toFloat + d * angle.sin + 0.5).floor.toInt32, s.origin.y + layer - 1,
    (s.origin.z.toFloat + d * angle.cos + 0.5).floor.toInt32⟩

/-- The layer in which the limb to a cluster leaves the trunk: the lower the
farther the cluster is off, and no higher than the top of the trunk. -/
def limbY (s : Stand) (t : LargeOak) (cluster : Pos) : Int32 :=
  let dx := s.origin.x - cluster.x
  let dz := s.origin.z - cluster.z
  let y := cluster.y.toFloat - (dx * dx + dz * dz).toFloat.sqrt * t.branchSlope
  if y > (s.topLimbY t).toFloat then s.topLimbY t else y.toInt32

/-- The cell of the trunk where the limb to a cluster starts. -/
def limbStart (s : Stand) (c : Cluster) : Pos := ⟨s.origin.x, c.limbY, s.origin.z⟩

/-- Keeps a candidate whose column and limb are free. -/
def admit? (s : Stand) (t : LargeOak) (p : Pos) : Build (Option Cluster) := do
  if (← blockedAt p (p.up t.clusterHeight)).isSome then return none
  else
    let c : Cluster := ⟨p, s.limbY t p⟩
    if (← blockedAt (s.limbStart c) p).isSome then return none else return some c

/-- Clusters chosen so far, and the stream that the choice goes on with. -/
structure Choice where
  clusters : Array Cluster
  stream : Stream

/-- Tries one cluster in a layer. -/
def tryCluster (s : Stand) (t : LargeOak) (layer : Int32) (size : Float32) (c : Choice) :
    Build Choice := do
  let (distance, stream) := c.stream.single
  let (turn, stream) := stream.single
  match ← s.admit? t (s.candidate t layer size distance turn) with
  | some cluster => return ⟨c.clusters.push cluster, stream⟩
  | none => return ⟨c.clusters, stream⟩

/-- Tries the clusters of a layer, if the crown reaches it. -/
def tryLayer (s : Stand) (t : LargeOak) (layer : Int32) (c : Choice) : Build Choice := do
  let size := s.layerSize layer
  if size ≥ 0.0 then
    (Span.halfOpen 0 (s.tries t)).foldM (fun c _ => s.tryCluster t layer size c) c
  else return c

/-- Chooses the clusters of a tree, from the top layer down. The top cluster is
always there. -/
def clusters (s : Stand) (t : LargeOak) (stream : Stream) : Build (List Cluster) := do
  let top : Cluster := ⟨s.origin.up (s.topLayer t), s.topLimbY t⟩
  let c ← (Span.closed 0 (s.topLayer t)).reverse.foldM (fun c layer => s.tryLayer t layer c)
    ⟨#[top], stream⟩
  return c.clusters.toList

end Stand

/-- Whether a leaf disc of some radius has a cell, measured to its outer edge. -/
def inDisc (radius : Float32) (dx dz : Int32) : Bool :=
  let x := dx.abs.toFloat + 0.5
  let z := dz.abs.toFloat + 0.5
  x * x + z * z ≤ (radius * radius).toFloat

/-- Places a leaf disc. -/
def leafDisc (c : Pos) (radius : Float32) : Build Unit :=
  Build.forOffsets (radius.toFloat + 0.618).toInt32 fun dx dz => do
    if inDisc radius dx dz then
      Build.replace leafReplaceable (c.shift dx 0 dz) (.plain .leaves)

/-- Places the foliage of a cluster, narrower in its lowest and highest layer. -/
def foliage (t : LargeOak) (c : Cluster) : Build Unit :=
  (Span.halfOpen 0 t.clusterHeight).forM fun dy =>
    leafDisc (c.base.up dy) (if dy ≠ 0 ∧ dy ≠ t.clusterHeight - 1 then 3.0 else 2.0)

/-- The metadata of a log by the axis along which it is farther from the start
of its limb: upright, along `x`, or along `z`. -/
def logData (start p : Pos) : UInt8 :=
  let dx := (p.x - start.x).abs
  let dz := (p.z - start.z).abs
  if max dx dz = 0 then 0 else if dx = max dx dz then 4 else 8

/-- Places a line of logs. -/
def limb (a b : Pos) : Build Unit :=
  (Line.between a b).forM fun p => Build.place p ⟨.log, logData a p⟩

/-- Places the trunk, four lines of logs for a wide one. -/
def trunk (t : LargeOak) (s : Stand) : Build Unit := do
  let a := s.origin
  let b := a.up (s.height t)
  limb a b
  if t.trunkSize = 2 then
    limb (a.east 1) (b.east 1)
    limb ((a.east 1).south 1) ((b.east 1).south 1)
    limb (a.south 1) (b.south 1)

/-- Places the limb to a cluster, unless it starts in the lowest fifth of the
tree or right at the cluster. -/
def limbTo (s : Stand) (c : Cluster) : Build Unit := do
  if s.limbStart c ≠ c.base ∧
      (c.limbY - s.origin.y).toFloat ≥ s.limit.toFloat * 0.2 then
    limb (s.limbStart c) c.base

/-- The height that a tree may reach: the drawn one, or as far as its trunk is
free, if that is at least six cells. -/
def stand? (p : Pos) (drawn : Int32) : Build (Option Stand) := do
  unless ← Build.isIn Ground.soilsAndFarmland (p.down 1) do return none
  match ← blockedAt p (p.up (drawn - 1)) with
  | none => return some ⟨p, drawn⟩
  | some free => if free < 6 then return none else return some ⟨p, .ofNat free⟩

def build (t : LargeOak) (p : Pos) : Build Bool := do
  let own ← Build.child
  let (extra, own) := own.bounded t.heightBound
  match ← stand? p (5 + extra) with
  | none => return false
  | some s => do
      let cs ← s.clusters t own
      cs.forM t.foliage
      t.trunk s
      cs.forM (limbTo s)
      return true

end LargeOak

end VoxelFeatures
