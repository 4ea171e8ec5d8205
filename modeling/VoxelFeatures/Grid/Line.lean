import VoxelFeatures.Grid.Pos

/-!
# Lines of cells

The line between two cells takes one step per unit of its longest axis and
places the other two coordinates by single-precision slopes. It holds both end
cells. A line of no extent has no cells at all.

The longest axis is `x` unless another one is strictly longer: `y` is preferred
to `x` only if it is longer, and `z` only if it is longer than both.
-/

namespace VoxelFeatures

/-- A cell line: where it starts, its rise per step along each axis, the number
of its steps and the number of its cells. -/
structure Line where
  start : Pos
  slopeX : Float32
  slopeY : Float32
  slopeZ : Float32
  steps : Int32
  size : Nat
deriving Inhabited

namespace Line

/-- The line that consists of the origin alone. -/
def atOrigin : Line := ⟨⟨0, 0, 0⟩, 0, 0, 0, 0, 1⟩

/-- The number of steps that an offset needs along its longest axis. -/
def extent (d : Pos) : Int32 :=
  let ax := d.x.abs
  let ay := d.y.abs
  let az := d.z.abs
  if ax < az && ay < az then az else if ax < ay then ay else ax

/-- The line from one cell to another. -/
def between (a b : Pos) : Line :=
  let d := b - a
  let steps := extent d
  if steps = 0 then ⟨⟨0, 0, 0⟩, 0, 0, 0, 0, 0⟩
  else
    let slope (v : Int32) : Float32 := v.toFloat32 / steps.toFloat32
    ⟨a, slope d.x, slope d.y, slope d.z, steps, (steps.toInt + 1).toNat⟩

/-- The coordinate reached from `start` after rising `slope` for `t` steps,
measured from the middle of the cell. -/
def coordinate (start : Int32) (slope t : Float32) : Int32 :=
  (start.toFloat + 0.5 + (t * slope).toFloat).floor.toInt32

/-- The cell after `i` steps. -/
def cell (l : Line) (i : Nat) : Pos :=
  let t := (Int32.ofNat i).toFloat32
  ⟨coordinate l.start.x l.slopeX t, coordinate l.start.y l.slopeY t,
    coordinate l.start.z l.slopeZ t⟩

def cellsFrom (l : Line) : Nat → Nat → List Pos
  | _, 0 => []
  | i, n + 1 => l.cell i :: l.cellsFrom (i + 1) n

/-- The cells of a line, from its start to its end. -/
def cells (l : Line) : List Pos := l.cellsFrom 0 l.size

variable {m : Type → Type} [Monad m]

def forFrom (l : Line) (f : Pos → m Unit) : Nat → Nat → m Unit
  | _, 0 => pure ()
  | i, n + 1 => do
      f (l.cell i)
      l.forFrom f (i + 1) n

/-- Runs `f` at every cell. -/
def forM (l : Line) (f : Pos → m Unit) : m Unit := l.forFrom f 0 l.size

def findFrom (l : Line) (f : Pos → m Bool) : Nat → Nat → m (Option Nat)
  | _, 0 => pure none
  | i, n + 1 => do
      if ← f (l.cell i) then pure (some i) else l.findFrom f (i + 1) n

/-- The index of the first cell at which `f` holds, asked in order up to it. -/
def findIndexM? (l : Line) (f : Pos → m Bool) : m (Option Nat) := l.findFrom f 0 l.size

theorem forFrom_eq (l : Line) (f : Pos → m Unit) (i n : Nat) :
    l.forFrom f i n = (l.cellsFrom i n).forM f := by
  induction n generalizing i with
  | zero => rfl
  | succ n ih => simp [forFrom, cellsFrom, ih]

/-- A walk along a line is the walk over its cells. -/
theorem forM_eq (l : Line) (f : Pos → m Unit) : l.forM f = l.cells.forM f :=
  l.forFrom_eq f 0 l.size

@[simp] theorem length_cellsFrom (l : Line) (i n : Nat) : (l.cellsFrom i n).length = n := by
  induction n generalizing i with
  | zero => rfl
  | succ n ih => simp [cellsFrom, ih]

@[simp] theorem length_cells (l : Line) : l.cells.length = l.size := by
  simp [cells]

/-- A cell and itself are joined by no cells. -/
theorem size_between_self (a : Pos) : (between a a).size = 0 := by
  have : extent (a - a) = 0 := by
    simp only [extent, Pos.sub_x, Pos.sub_y, Pos.sub_z, Int32.sub_self]
    decide
  simp [between, this]

end Line

end VoxelFeatures
