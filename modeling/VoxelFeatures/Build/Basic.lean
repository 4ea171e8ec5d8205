import VoxelFeatures.Stream
import VoxelFeatures.Block.Set
import VoxelFeatures.Build.Note

/-!
# Build programs

A feature is a program over four acts: draw from the stream, look at the block
id of a cell, place a block, report a note. A program is kept as the tree of
its acts, each followed by one continuation per answer, so that what a feature
may do (where it looks, what it places, how often it draws) is a property of
the tree, shown by induction on it, before any world is chosen.

Features never look at metadata, and never learn whether a placement was within
the height of the world.
-/

namespace VoxelFeatures

/-- A draw from the stream: some of its high bits, or a value below a bound. -/
inductive Draw where
  | bits (n : Nat)
  | bounded (bound : Int32)
deriving DecidableEq, Repr

/-- The value of a draw and the stream after it. -/
def Draw.answer : Draw → Stream → Int32 × Stream
  | bits n, s => s.bits n
  | bounded bound, s => s.bounded bound

inductive Act where
  | draw (d : Draw)
  | look (p : Pos)
  | place (p : Pos) (b : Block) (notify : Bool)
  | report (n : Note)

/-- What a program learns from an act. -/
def Act.Answer : Act → Type
  | draw _ => Int32
  | look _ => BlockId
  | place .. => Unit
  | report _ => Unit

inductive Build (α : Type) where
  | done (a : α)
  | act (a : Act) (next : a.Answer → Build α)

namespace Build

variable {α β γ : Type}

/-- Runs a program and goes on with its result. -/
def bind : Build α → (α → Build β) → Build β
  | done a, f => f a
  | act a next, f => act a fun r => (next r).bind f

instance : Monad Build where
  pure := done
  bind := bind

@[simp] theorem pure_eq (a : α) : (pure a : Build α) = done a := rfl

@[simp] theorem done_bind (a : α) (f : α → Build β) : done a >>= f = f a := rfl

@[simp] theorem act_bind (a : Act) (next : a.Answer → Build α) (f : α → Build β) :
    act a next >>= f = act a fun r => next r >>= f := rfl

theorem bind_done (m : Build α) : m >>= done = m := by
  induction m with
  | done a => rfl
  | act a next ih => simp [ih]

theorem bind_assoc (m : Build α) (f : α → Build β) (g : β → Build γ) :
    m >>= f >>= g = m >>= fun a => f a >>= g := by
  induction m with
  | done a => rfl
  | act a next ih => simp [ih]

instance : LawfulMonad Build :=
  LawfulMonad.mk' Build bind_done (fun _ _ => rfl) bind_assoc

/-- The high `n` bits of the stream after one step. -/
def bits (n : Nat) : Build Int32 := act (.draw (.bits n)) done

/-- A draw below a bound. -/
def bounded (bound : Int32) : Build Int32 := act (.draw (.bounded bound)) done

/-- A draw of one bit. -/
def coin : Build Bool := return (← bits 1) != 0

/-- A single-precision number in `[0, 1)`. -/
def single : Build Float32 := return Stream.unitSingle (← bits 24)

/-- A double-precision number in `[0, 1)`. -/
def double : Build Float := do
  let high ← bits 26
  let low ← bits 27
  return Stream.unitDouble high low

/-- A child stream, forked off by one draw. -/
def child : Build Stream := return Stream.ofDraw (← bits 32)

/-- The block id of a cell. -/
def look (p : Pos) : Build BlockId := act (.look p) done

def isBlock (p : Pos) (id : BlockId) : Build Bool := return (← look p) = id

def isAir (p : Pos) : Build Bool := isBlock p .air

/-- Whether the id of a cell is in a set. -/
def isIn (s : BlockSet) (p : Pos) : Build Bool := return s.contains (← look p)

def place (p : Pos) (b : Block) : Build Unit := act (.place p b false) done

/-- Places a block and tells its neighbours. -/
def placeNotify (p : Pos) (b : Block) : Build Unit := act (.place p b true) done

/-- Places a block where the id of the cell is in a set. -/
def replace (s : BlockSet) (p : Pos) (b : Block) : Build Unit := do
  if ← isIn s p then place p b

def report (n : Note) : Build Unit := act (.report n) done

end Build

end VoxelFeatures
