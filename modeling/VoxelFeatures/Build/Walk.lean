import VoxelFeatures.Grid.Span
import VoxelFeatures.Build.Basic

/-!
# Walks over cells

Features visit squares of cells row by row: the first span is the outer walk.
`sink` looks for the ground below a cell, and `repeated` runs the independent
trials of a scatter placer.
-/

namespace VoxelFeatures

/-- Whether an offset is a corner of the square of radius `r`. -/
def isCorner (r dx dz : Int32) : Bool := dx.abs = r && dz.abs = r

namespace Build

/-- Runs `f` at every pair of words of two spans. -/
def forSquare (xs zs : Span) (f : Int32 → Int32 → Build Unit) : Build Unit :=
  xs.forM fun x => zs.forM fun z => f x z

/-- Whether `f` holds at every pair of words, asked up to the first failure. -/
def allSquare (xs zs : Span) (f : Int32 → Int32 → Build Bool) : Build Bool :=
  xs.allM fun x => zs.allM fun z => f x z

/-- Runs `f` at every offset of the square of radius `r`. -/
def forOffsets (r : Int32) (f : Int32 → Int32 → Build Unit) : Build Unit :=
  forSquare (.around 0 r) (.around 0 r) f

/-- Sinks through air, by at most `n` cells. -/
def sink (p : Pos) : Nat → Build Pos
  | 0 => done p
  | n + 1 => do
      if ← isAir p then sink (p.down 1) n else return p

/-- Runs a program `n` times. -/
def repeated (m : Build Unit) : Nat → Build Unit
  | 0 => done ()
  | n + 1 => do
      m
      repeated m n

/-- Runs a program `n` times and tells whether it ever succeeded. -/
def anyRepeated (m : Build Bool) : Nat → Build Bool
  | 0 => done false
  | n + 1 => do
      let first ← m
      let rest ← anyRepeated m n
      return first || rest

@[simp] theorem repeated_zero (m : Build Unit) : repeated m 0 = done () := rfl

theorem repeated_succ (m : Build Unit) (n : Nat) :
    repeated m (n + 1) = m >>= fun _ => repeated m n := rfl

end Build

end VoxelFeatures
