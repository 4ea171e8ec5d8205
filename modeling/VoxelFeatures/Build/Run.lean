import VoxelFeatures.World.Journal
import VoxelFeatures.Build.Basic

/-!
# Running a build program

A site is what a program works on: a journalled world, a stream, and the notes
made so far. Each act answers from the site and changes one part of it. A block
placed outside the height of the world is skipped, and so is its note.
-/

namespace VoxelFeatures

structure Site where
  journal : Journal
  stream : Stream
  notes : Array Note

namespace Site

/-- Notes a placement and carries it out. -/
def place (s : Site) (p : Pos) (b : Block) (notify : Bool) : Site :=
  if p.inHeight then
    match s with
    | ⟨journal, stream, notes⟩ =>
        ⟨journal.set p b notify, stream, notes.push (.placed p b)⟩
  else s

/-- Takes a draw from the stream. -/
def draw (s : Site) (d : Draw) : Int32 × Site :=
  match s with
  | ⟨journal, stream, notes⟩ =>
      let (u, stream) := d.answer stream
      (u, ⟨journal, stream, notes⟩)

theorem place_of_not_inHeight (s : Site) {p : Pos} (hp : p.inHeight = false) (b : Block)
    (notify : Bool) : s.place p b notify = s := by
  rw [place, hp]
  rfl

theorem journal_place (s : Site) {p : Pos} (hp : p.inHeight) (b : Block) (notify : Bool) :
    (s.place p b notify).journal = s.journal.set p b notify := by
  rw [place, if_pos hp]

/-- A placement within the height is journalled with the block that it replaces. -/
theorem writes_place (s : Site) {p : Pos} (hp : p.inHeight) (b : Block) (notify : Bool) :
    (s.place p b notify).journal.writes.toList =
      s.journal.writes.toList ++ [⟨p, b, notify, s.journal.get p⟩] := by
  simp [s.journal_place hp, Journal.get]

theorem draw_eq (s : Site) (d : Draw) :
    s.draw d = ((d.answer s.stream).1, ⟨s.journal, (d.answer s.stream).2, s.notes⟩) := rfl

end Site

/-- The answer of an act at a site, and the site after it. -/
def Act.perform : (a : Act) → Site → a.Answer × Site
  | draw d, s => s.draw d
  | look p, s => (s.journal.idAt p, s)
  | place p b notify, s => ((), s.place p b notify)
  | report n, s => ((), { s with notes := s.notes.push n })

namespace Build

variable {α β : Type}

/-- Runs a program at a site. -/
def run : Build α → Site → α × Site
  | done a, s => (a, s)
  | act a next, s =>
      let (r, s) := a.perform s
      (next r).run s

@[simp] theorem run_done (a : α) (s : Site) : (done a).run s = (a, s) := rfl

@[simp] theorem run_act (a : Act) (next : a.Answer → Build α) (s : Site) :
    (act a next).run s = (next (a.perform s).1).run (a.perform s).2 := rfl

/-- A sequence of programs runs the first one and goes on where it ended. -/
theorem run_bind (m : Build α) (f : α → Build β) (s : Site) :
    (m >>= f).run s = (f (m.run s).1).run (m.run s).2 := by
  induction m generalizing s with
  | done a => rfl
  | act a next ih => simp [ih]

@[simp] theorem run_bits (n : Nat) (s : Site) : (bits n).run s = s.draw (.bits n) := rfl

@[simp] theorem run_bounded (bound : Int32) (s : Site) :
    (bounded bound).run s = s.draw (.bounded bound) := rfl

/-! Draws in front of a program, at a site whose parts are in sight. Runs are
followed by rewriting with these, for the search of a bounded draw, once unfolded,
goes on for a whole period. -/

section Draws

variable (j : Journal) (σ : Stream) (ns : Array Note)

theorem run_bounded_bind (bound : Int32) (f : Int32 → Build α) :
    (bounded bound >>= f).run ⟨j, σ, ns⟩ =
      (f (σ.bounded bound).1).run ⟨j, (σ.bounded bound).2, ns⟩ := by
  simp only [run_bind, run_bounded, Site.draw_eq, Draw.answer]

theorem run_single_bind (f : Float32 → Build α) :
    (single >>= f).run ⟨j, σ, ns⟩ = (f σ.single.1).run ⟨j, σ.single.2, ns⟩ := by
  simp only [single, run_bind, run_bits, Site.draw_eq, Draw.answer, pure_eq, run_done,
    Stream.single]

theorem run_double_bind (f : Float → Build α) :
    (double >>= f).run ⟨j, σ, ns⟩ = (f σ.double.1).run ⟨j, σ.double.2, ns⟩ := by
  simp only [double, run_bind, run_bits, Site.draw_eq, Draw.answer, pure_eq, run_done,
    Stream.double]

end Draws

@[simp] theorem run_look (p : Pos) (s : Site) : (look p).run s = (s.journal.idAt p, s) := rfl

@[simp] theorem run_isBlock (p : Pos) (id : BlockId) (s : Site) :
    (isBlock p id).run s = (decide (s.journal.idAt p = id), s) := rfl

@[simp] theorem run_isIn (S : BlockSet) (p : Pos) (s : Site) :
    (isIn S p).run s = (S.contains (s.journal.idAt p), s) := rfl

@[simp] theorem run_place (p : Pos) (b : Block) (s : Site) :
    (place p b).run s = ((), s.place p b false) := rfl

@[simp] theorem run_report (n : Note) (s : Site) :
    (report n).run s = ((), ⟨s.journal, s.stream, s.notes.push n⟩) := rfl

end Build

end VoxelFeatures
