import VoxelFeatures.Build.Walk
import VoxelFeatures.Feature.ConfigError

/-!
# Packed ice in snow fields

Paths are discs of packed ice and spikes are cones of it, both set on the snow
block found below the origin. A spike has the same cone below its base, and
roots that dig down to layer fifty anchor it; a rare one is lifted into a
pillar.
-/

namespace VoxelFeatures

namespace PackedIce

def block : Block := .plain .packedIce

def pathReplaceable : BlockSet := .ofList [.dirt, .snowBlock, .ice]

def spikeReplaceable : BlockSet := pathReplaceable.insert .air

/-- What a root digs through. -/
def rootReplaceable : BlockSet := spikeReplaceable.insert .packedIce

/-- The snow block below a position, through air and not below layer two. -/
def findSnow (p : Pos) : Build (Option Pos) := do
  let q ← Build.sink p (p.y.toInt - 2).toNat
  if ← Build.isBlock q .snowBlock then return some q else return none

end PackedIce

/-- A disc of packed ice with a radius drawn below its width. -/
structure IcePath where
  width : Int32
  two_le_width : 2 ≤ width

namespace IcePath

/-- Accepts a width of at least two. -/
def ofWidth (width : Int32) : Except ConfigError IcePath :=
  if h : 2 ≤ width then .ok ⟨width, h⟩ else .error (.radiusTooSmall 2 width)

/-- The radius of a disc. The least width leaves nothing to draw. -/
def radius (i : IcePath) : Build Int32 := do
  if 2 < i.width then return 2 + (← Build.bounded (i.width - 2)) else return 2

/-- Lays a disc of three layers around a cell. -/
def disc (p : Pos) (r : Int32) : Build Unit :=
  (Span.around 0 r).forM fun dx =>
    (Span.around 0 r).forWhere (fun dz => dx * dx + dz * dz ≤ r * r) fun dz =>
      (Span.closed (-1) 1).forM fun dy =>
        Build.replace PackedIce.pathReplaceable (p.shift dx dy dz) PackedIce.block

theorem disc_eq (p : Pos) (r : Int32) :
    disc p r = Build.forOffsets r fun dx dz =>
      if dx * dx + dz * dz ≤ r * r then
        (Span.closed (-1) 1).forM fun dy =>
          Build.replace PackedIce.pathReplaceable (p.shift dx dy dz) PackedIce.block
      else .done () := by
  simp only [disc, Span.forWhere_eq, decide_eq_true_eq]
  rfl

def build (i : IcePath) (p : Pos) : Build Bool := do
  match ← PackedIce.findSnow p with
  | none => return false
  | some q => do
      let r ← i.radius
      disc q r
      return true

end IcePath

namespace IceSpike

/-- The radius of a cone of some height and base radius in its layer `dy`. -/
def layerRadius (height base dy : Int32) : Float :=
  (1.0 - dy.toFloat / height.toFloat) * base.toFloat

/-- The distance of a cell from the axis, a quarter cell short of its middle. -/
def reach (d : Int32) : Float := d.abs.toFloat - 0.25

/-- Whether an offset lies at the side of the square of radius `r`. -/
def isSide (r dx dz : Int32) : Bool := dx = -r || dx = r || dz = -r || dz = r

/-- Whether a cone layer has a cell: the axis always, cells within the radius,
and three quarters of those at the side of the square, as drawn. -/
def hasCell (layer : Float) (r dx dz : Int32) : Build Bool := do
  if dx = 0 ∧ dz = 0 then return true
  else if reach dx * reach dx + reach dz * reach dz ≤ layer * layer then
    if isSide r dx dz then return (← Build.single) ≤ 0.75 else return true
  else return false

/-- Builds the cone layer `dy` and the same one below the base. -/
def layer (p : Pos) (height base dy : Int32) : Build Unit :=
  let exact := layerRadius height base dy
  let r := exact.ceil.toInt32
  Build.forOffsets r fun dx dz => do
    if ← hasCell exact r dx dz then
      Build.replace PackedIce.spikeReplaceable (p.shift dx dy dz) PackedIce.block
      if dy ≠ 0 ∧ 1 < r then
        Build.replace PackedIce.spikeReplaceable (p.shift dx (-dy) dz) PackedIce.block

/-- Digs a root down to layer fifty, up to the first cell it cannot dig through.
After `depth` cells it leaves a drawn gap and draws the next depth. Each step
goes down by at least one layer, so the layers above fifty bound their number. -/
def root (p : Pos) (depth : Int32) : Nat → Build Unit
  | 0 => .done ()
  | n + 1 => do
      if p.y ≤ 50 then return ()
      if ← Build.isIn PackedIce.rootReplaceable p then
        Build.place p PackedIce.block
        if depth - 1 ≤ 0 then
          let gap ← Build.bounded 5
          let next ← Build.bounded 5
          root (p.down (1 + (gap + 1))) next n
        else root (p.down 1) (depth - 1) n

/-- The depth at which a root first leaves a gap. -/
def rootDepth (dx dz : Int32) : Build Int32 :=
  if dx.abs = 1 ∧ dz.abs = 1 then Build.bounded 5 else return 50

/-- Anchors a spike by one root, or by nine below a wide base. -/
def roots (p : Pos) (base : Int32) : Build Unit :=
  let r : Int32 := if base - 1 < 0 then 0 else if 1 < base - 1 then 1 else base - 1
  Build.forOffsets r fun dx dz => do
    let q := p.shift dx (-1) dz
    let depth ← rootDepth dx dz
    root q depth (q.y.toInt - 50).toNat

/-- Lifts one in sixty wide spikes into a pillar. -/
def lift (p : Pos) (base : Int32) : Build Pos := do
  if 1 < base then
    if (← Build.bounded 60) = 0 then
      let q := p.up (10 + (← Build.bounded 30))
      Build.report (.spikeLifted q)
      return q
    else return p
  else return p

def build (p : Pos) : Build Bool := do
  match ← PackedIce.findSnow p with
  | none => return false
  | some snow => do
      let q := snow.up (← Build.bounded 4)
      let height := (← Build.bounded 4) + 7
      let base := height / 4 + (← Build.bounded 2)
      let q ← lift q base
      (Span.halfOpen 0 height).forM (layer q height base)
      roots q base
      return true

end IceSpike

end VoxelFeatures
