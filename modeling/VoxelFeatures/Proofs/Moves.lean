import VoxelFeatures.Build.Run
import VoxelFeatures.Build.Walk
import VoxelFeatures.Grid.Face

/-!
# Programs moved along the ground

A program is moved by moving the cells of all its acts, with the same continuation
for each answer. Moving goes through sequences, branches and walks, so the procedures
that reach their cells by steps from an origin are moved by moving the origin:
`(f p).moved d = f (p.moved d)`. A procedure that returns a cell returns the moved
one.
-/

namespace VoxelFeatures

/-- A horizontal move. Its sums wrap like those of the coordinates. -/
structure Move where
  x : Int32
  z : Int32

/-! ## Cells -/

namespace Pos

def moved (p : Pos) (d : Move) : Pos := ⟨p.x + d.x, p.y, p.z + d.z⟩

variable (p q : Pos) (d : Move) (n : Int32)

theorem mk_moved {d : Move} {x z x' z' : Int32} (y : Int32) (hx : x + d.x = x')
    (hz : z + d.z = z') : (⟨x, y, z⟩ : Pos).moved d = ⟨x', y, z'⟩ := by
  rw [← hx, ← hz]
  rfl

@[simp] theorem moved_y : (p.moved d).y = p.y := rfl

@[simp] theorem moved_up : (p.up n).moved d = (p.moved d).up n := rfl

@[simp] theorem moved_down : (p.down n).moved d = (p.moved d).down n := rfl

@[simp] theorem moved_mk (y : Int32) :
    (⟨p.x, y, p.z⟩ : Pos).moved d = ⟨(p.moved d).x, y, (p.moved d).z⟩ := rfl

@[simp] theorem moved_add : (p + q).moved d = p.moved d + q :=
  mk_moved _ (by simp only [moved]; grind) (by simp only [moved]; grind)

@[simp] theorem moved_sub : (p - q).moved d = p.moved d - q :=
  mk_moved _ (by simp only [moved]; grind) (by simp only [moved]; grind)

@[simp] theorem moved_shift (dx dy dz : Int32) :
    (p.shift dx dy dz).moved d = (p.moved d).shift dx dy dz :=
  moved_add p ⟨dx, dy, dz⟩ d

@[simp] theorem moved_offset (f : Face) : (p.offset f n).moved d = (p.moved d).offset f n :=
  moved_add p (f.delta.scale n) d

@[simp] theorem moved_east : (p.east n).moved d = (p.moved d).east n :=
  mk_moved _ (by simp only [moved]; grind) rfl

@[simp] theorem moved_west : (p.west n).moved d = (p.moved d).west n :=
  mk_moved _ (by simp only [moved]; grind) rfl

@[simp] theorem moved_south : (p.south n).moved d = (p.moved d).south n :=
  mk_moved _ rfl (by simp only [moved]; grind)

@[simp] theorem moved_north : (p.north n).moved d = (p.moved d).north n :=
  mk_moved _ rfl (by simp only [moved]; grind)

/-- Cells at offsets from a column. -/
@[simp] theorem moved_mk_add (a y c : Int32) :
    (⟨p.x + a, y, p.z + c⟩ : Pos).moved d = ⟨(p.moved d).x + a, y, (p.moved d).z + c⟩ :=
  mk_moved _ (by simp only [moved]; grind) (by simp only [moved]; grind)

end Pos

/-- A note with its cells moved. -/
def Note.moved (d : Move) : Note → Note
  | placed p b => placed (p.moved d) b
  | lakeOpens lake fluid => lakeOpens (lake.moved d) (fluid.moved d)
  | dungeonRejected p openings => dungeonRejected (p.moved d) openings
  | dungeonPlaced p sizeX sizeZ => dungeonPlaced (p.moved d) sizeX sizeZ
  | spikeLifted p => spikeLifted (p.moved d)
  | boulderEnds id p => boulderEnds id (p.moved d)
  | veinsDone veins ore => veinsDone veins ore

/-! ## Programs -/

namespace Build

variable {α β ι : Type}

def moved (d : Move) : Build α → Build α
  | done a => done a
  | act (.draw u) next => act (.draw u) fun r => (next r).moved d
  | act (.look p) next => act (.look (p.moved d)) fun r => (next r).moved d
  | act (.place p b notify) next => act (.place (p.moved d) b notify) fun r => (next r).moved d
  | act (.report n) next => act (.report (n.moved d)) fun r => (next r).moved d

variable (d : Move)

@[simp] theorem moved_done (a : α) : (done a).moved d = done a := rfl

@[simp] theorem moved_bind (m : Build α) (f : α → Build β) :
    (m >>= f).moved d = m.moved d >>= fun a => (f a).moved d := by
  induction m with
  | done a => rfl
  | act a next ih =>
      cases a <;> exact congrArg (act _) (funext ih)

@[simp] theorem moved_ite (c : Prop) [Decidable c] (m n : Build α) :
    (if c then m else n).moved d = if c then m.moved d else n.moved d :=
  apply_ite (moved d) c m n

@[simp] theorem moved_bits (n : Nat) : (bits n).moved d = bits n := rfl

@[simp] theorem moved_bounded (bound : Int32) : (bounded bound).moved d = bounded bound := rfl

@[simp] theorem moved_coin : coin.moved d = coin := rfl

@[simp] theorem moved_single : single.moved d = single := rfl

@[simp] theorem moved_double : double.moved d = double := rfl

@[simp] theorem moved_child : child.moved d = child := rfl

@[simp] theorem moved_look (p : Pos) : (look p).moved d = look (p.moved d) := rfl

@[simp] theorem moved_isBlock (p : Pos) (id : BlockId) :
    (isBlock p id).moved d = isBlock (p.moved d) id := rfl

@[simp] theorem moved_isAir (p : Pos) : (isAir p).moved d = isAir (p.moved d) := rfl

@[simp] theorem moved_isIn (s : BlockSet) (p : Pos) :
    (isIn s p).moved d = isIn s (p.moved d) := rfl

@[simp] theorem moved_place (p : Pos) (b : Block) : (place p b).moved d = place (p.moved d) b := rfl

@[simp] theorem moved_placeNotify (p : Pos) (b : Block) :
    (placeNotify p b).moved d = placeNotify (p.moved d) b := rfl

@[simp] theorem moved_replace (s : BlockSet) (p : Pos) (b : Block) :
    (replace s p b).moved d = replace s (p.moved d) b := by
  simp [replace]

@[simp] theorem moved_report (n : Note) : (report n).moved d = report (n.moved d) := rfl

/-! ## Walks -/

@[simp low] theorem moved_forM (l : List ι) (f : ι → Build Unit) :
    (forM l f).moved d = forM l fun i => (f i).moved d := by
  induction l with
  | nil => rfl
  | cons i l ih => simp only [List.forM_cons, moved_bind, ih]

/-- The same program at each of some cells. -/
theorem moved_forM_cells {f : Pos → Build Unit} (h : ∀ p, (f p).moved d = f (p.moved d))
    (l : List Pos) : (forM l f).moved d = forM (l.map (·.moved d)) f := by
  simp only [moved_forM, List.forM_map, h]

@[simp low] theorem moved_allM (l : List ι) (f : ι → Build Bool) :
    (l.allM f).moved d = l.allM fun i => (f i).moved d := by
  induction l with
  | nil => rfl
  | cons i l ih =>
      simp only [List.allM, moved_bind]
      refine congrArg _ (funext fun b => ?_)
      cases b with
      | false => rfl
      | true => exact ih

theorem moved_allM_cells {f : Pos → Build Bool} (h : ∀ p, (f p).moved d = f (p.moved d))
    (l : List Pos) : (l.allM f).moved d = (l.map (·.moved d)).allM f := by
  induction l with
  | nil => rfl
  | cons i l ih =>
      simp only [List.map_cons, List.allM, moved_bind, h]
      refine congrArg _ (funext fun b => ?_)
      cases b with
      | false => rfl
      | true => exact ih

@[simp] theorem moved_anyM (l : List ι) (f : ι → Build Bool) :
    (l.anyM f).moved d = l.anyM fun i => (f i).moved d := by
  induction l with
  | nil => rfl
  | cons i l ih =>
      simp only [List.anyM, moved_bind]
      refine congrArg _ (funext fun b => ?_)
      cases b with
      | false => exact ih
      | true => rfl

@[simp] theorem moved_mapM (l : List ι) (f : ι → Build α) :
    (l.mapM f).moved d = l.mapM fun i => (f i).moved d := by
  induction l with
  | nil => rfl
  | cons i l ih => simp [List.mapM_cons, ih]

@[simp] theorem moved_filterM (l : List ι) (f : ι → Build Bool) :
    (l.filterM f).moved d = l.filterM fun i => (f i).moved d := by
  have haux (kept : List ι) :
      (l.filterAuxM f kept).moved d = l.filterAuxM (fun i => (f i).moved d) kept := by
    induction l generalizing kept with
    | nil => rfl
    | cons i l ih => simp only [List.filterAuxM, moved_bind, ih]
  simp only [List.filterM, moved_bind, haux]
  rfl

@[simp] theorem moved_foldlM (l : List ι) (f : α → ι → Build α) (a : α) :
    (l.foldlM f a).moved d = l.foldlM (fun a i => (f a i).moved d) a := by
  induction l generalizing a with
  | nil => rfl
  | cons i l ih => simp only [List.foldlM_cons, moved_bind, ih]

@[simp] theorem moved_forM_span (s : Span) (f : Int32 → Build Unit) :
    (s.forM f).moved d = s.forM fun i => (f i).moved d := by
  rw [Span.forM_eq, Span.forM_eq, List.forM_eq_forM, moved_forM]

@[simp] theorem moved_allM_span (s : Span) (f : Int32 → Build Bool) :
    (s.allM f).moved d = s.allM fun i => (f i).moved d := by
  rw [Span.allM_eq, Span.allM_eq, moved_allM]

@[simp] theorem moved_foldM_span (s : Span) (f : α → Int32 → Build α) (a : α) :
    (s.foldM f a).moved d = s.foldM (fun a i => (f a i).moved d) a := by
  rw [Span.foldM_eq, Span.foldM_eq, moved_foldlM]

theorem moved_forM_span_of_mem {s : Span} {f f' : Int32 → Build Unit}
    (h : ∀ i ∈ s.toList, (f i).moved d = f' i) : (s.forM f).moved d = s.forM f' := by
  have hlist (l : List Int32) (h : ∀ i ∈ l, (f i).moved d = f' i) :
      (forM l f).moved d = forM l f' := by
    induction l with
    | nil => rfl
    | cons i l ih =>
        rw [List.forall_mem_cons] at h
        rw [List.forM_cons, List.forM_cons, moved_bind, h.1, ih h.2]
  rw [Span.forM_eq, Span.forM_eq, List.forM_eq_forM, hlist s.toList h]

@[simp] theorem moved_forSquare (xs zs : Span) (f : Int32 → Int32 → Build Unit) :
    (forSquare xs zs f).moved d = forSquare xs zs fun x z => (f x z).moved d := by
  simp only [forSquare, moved_forM_span]

@[simp] theorem moved_allSquare (xs zs : Span) (f : Int32 → Int32 → Build Bool) :
    (allSquare xs zs f).moved d = allSquare xs zs fun x z => (f x z).moved d := by
  simp only [allSquare, moved_allM_span]

@[simp] theorem moved_forOffsets (r : Int32) (f : Int32 → Int32 → Build Unit) :
    (forOffsets r f).moved d = forOffsets r fun dx dz => (f dx dz).moved d :=
  moved_forSquare ..

@[simp] theorem moved_repeated (m : Build Unit) (n : Nat) :
    (repeated m n).moved d = repeated (m.moved d) n := by
  induction n with
  | zero => rfl
  | succ n ih => rw [repeated_succ, repeated_succ, moved_bind, ih]

@[simp] theorem moved_anyRepeated (m : Build Bool) (n : Nat) :
    (anyRepeated m n).moved d = anyRepeated (m.moved d) n := by
  induction n with
  | zero => rfl
  | succ n ih => simp [anyRepeated, ih]

/-- A walk that carries cells along carries the moved ones. -/
theorem foldM_span_moved {s : Span} {f f' : α → Int32 → Build α} {g : α → α}
    (h : ∀ a i, f' (g a) i = (f a i).moved d >>= fun b => done (g b)) (a : α) :
    s.foldM f' (g a) = (s.foldM f a).moved d >>= fun b => done (g b) := by
  have hlist (l : List Int32) (a : α) :
      l.foldlM f' (g a) = (l.foldlM f a).moved d >>= fun b => done (g b) := by
    induction l generalizing a with
    | nil => rfl
    | cons i l ih =>
        rw [List.foldlM_cons, List.foldlM_cons, h, moved_bind, bind_assoc, bind_assoc]
        exact congrArg _ (funext fun b => ih b)
  rw [Span.foldM_eq, Span.foldM_eq, hlist]

/-- The cell where a moved search ends is the moved cell. -/
theorem sink_moved (p : Pos) (n : Nat) :
    sink (p.moved d) n = (sink p n).moved d >>= fun q => done (q.moved d) := by
  induction n generalizing p with
  | zero => rfl
  | succ n ih =>
      rw [sink, sink, moved_bind, bind_assoc]
      refine congrArg _ (funext fun air => ?_)
      cases air with
      | false => rfl
      | true => exact ih (p.down 1)

end Build

end VoxelFeatures
