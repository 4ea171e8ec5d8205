/-!
# Spans

A span is a run of consecutive words, walked upwards or downwards. It is kept
as its first word and its length, so that a walk that stops early never lists
the rest. `toList` is the view of a span: every walk is the walk of that list.

The length of a span between two words is taken in the integers. Ends that
wrapped past each other give an empty span.
-/

namespace VoxelFeatures

structure Span where
  first : Int32
  /-- The difference between neighbours, `1` or `-1`. -/
  stride : Int32
  size : Nat
deriving DecidableEq, Repr, Inhabited

namespace Span

/-- The words from `a` up to and with `b`. -/
def closed (a b : Int32) : Span := ⟨a, 1, (b.toInt - a.toInt + 1).toNat⟩

/-- The words from `a` up to and without `b`. -/
def halfOpen (a b : Int32) : Span := ⟨a, 1, (b.toInt - a.toInt).toNat⟩

/-- The same words, walked from the last one. -/
def reverse (s : Span) : Span :=
  ⟨s.first + s.stride * (.ofNat s.size - 1), -s.stride, s.size⟩

/-- The words at distance at most `r` from `c`. -/
def around (c r : Int32) : Span := closed (c - r) (c + r)

variable {m : Type → Type} [Monad m]

def listFrom (stride : Int32) : Int32 → Nat → List Int32
  | _, 0 => []
  | i, n + 1 => i :: listFrom stride (i + stride) n

/-- The words of a span in walking order. -/
def toList (s : Span) : List Int32 := listFrom s.stride s.first s.size

def forFrom (stride : Int32) (f : Int32 → m Unit) : Int32 → Nat → m Unit
  | _, 0 => pure ()
  | i, n + 1 => do
      f i
      forFrom stride f (i + stride) n

/-- Runs `f` at every word. -/
def forM (s : Span) (f : Int32 → m Unit) : m Unit := forFrom s.stride f s.first s.size

@[specialize]
def forWhereFrom (stride : Int32) (c : Int32 → Bool) (f : Int32 → m Unit) : Int32 → Nat → m Unit
  | _, 0 => pure ()
  | i, n + 1 =>
      if c i then do
        f i
        forWhereFrom stride c f (i + stride) n
      else forWhereFrom stride c f (i + stride) n

/-- Runs `f` at every word that satisfies `c`. A wide walk passes over the other
words without a step of the monad. -/
@[inline]
def forWhere (s : Span) (c : Int32 → Bool) (f : Int32 → m Unit) : m Unit :=
  forWhereFrom s.stride c f s.first s.size

def allFrom (stride : Int32) (f : Int32 → m Bool) : Int32 → Nat → m Bool
  | _, 0 => pure true
  | i, n + 1 => do
      if ← f i then allFrom stride f (i + stride) n else pure false

/-- Whether `f` holds at every word, asked in order up to the first failure. -/
def allM (s : Span) (f : Int32 → m Bool) : m Bool := allFrom s.stride f s.first s.size

def foldFrom {σ : Type} (stride : Int32) (f : σ → Int32 → m σ) : σ → Int32 → Nat → m σ
  | a, _, 0 => pure a
  | a, i, n + 1 => do foldFrom stride f (← f a i) (i + stride) n

/-- Carries a value through the words. -/
def foldM {σ : Type} (s : Span) (f : σ → Int32 → m σ) (a : σ) : m σ :=
  foldFrom s.stride f a s.first s.size

theorem forFrom_eq (stride : Int32) (f : Int32 → m Unit) (i : Int32) (n : Nat) :
    forFrom stride f i n = (listFrom stride i n).forM f := by
  induction n generalizing i with
  | zero => rfl
  | succ n ih => simp [forFrom, listFrom, ih]

/-- A walk over a span is the walk over its list of words. -/
theorem forM_eq (s : Span) (f : Int32 → m Unit) : s.forM f = s.toList.forM f :=
  forFrom_eq s.stride f s.first s.size

theorem forWhereFrom_eq [LawfulMonad m] (stride : Int32) (c : Int32 → Bool) (f : Int32 → m Unit)
    (i : Int32) (n : Nat) :
    forWhereFrom stride c f i n = forFrom stride (fun i => if c i then f i else pure ()) i n := by
  induction n generalizing i with
  | zero => rfl
  | succ n ih => by_cases h : c i <;> simp [forWhereFrom, forFrom, ih, h]

/-- A walk over the words that satisfy `c` is a walk that does nothing at the others. -/
theorem forWhere_eq [LawfulMonad m] (s : Span) (c : Int32 → Bool) (f : Int32 → m Unit) :
    s.forWhere c f = s.forM fun i => if c i then f i else pure () :=
  forWhereFrom_eq s.stride c f s.first s.size

theorem allFrom_eq (stride : Int32) (f : Int32 → m Bool) (i : Int32) (n : Nat) :
    allFrom stride f i n = (listFrom stride i n).allM f := by
  induction n generalizing i with
  | zero => rfl
  | succ n ih =>
      simp only [allFrom, listFrom, List.allM, ih]
      refine congrArg (f i >>= ·) (funext fun b => ?_)
      cases b <;> rfl

theorem allM_eq (s : Span) (f : Int32 → m Bool) : s.allM f = s.toList.allM f :=
  allFrom_eq s.stride f s.first s.size

theorem foldFrom_eq {σ : Type} (stride : Int32) (f : σ → Int32 → m σ) (a : σ) (i : Int32)
    (n : Nat) : foldFrom stride f a i n = (listFrom stride i n).foldlM f a := by
  induction n generalizing i a with
  | zero => rfl
  | succ n ih => simp [foldFrom, listFrom, ih]

theorem foldM_eq {σ : Type} (s : Span) (f : σ → Int32 → m σ) (a : σ) :
    s.foldM f a = s.toList.foldlM f a :=
  foldFrom_eq s.stride f a s.first s.size

@[simp] theorem length_listFrom (stride i : Int32) (n : Nat) :
    (listFrom stride i n).length = n := by
  induction n generalizing i with
  | zero => rfl
  | succ n ih => simp [listFrom, ih]

@[simp] theorem length_toList (s : Span) : s.toList.length = s.size := by
  simp [toList]

end Span

end VoxelFeatures
