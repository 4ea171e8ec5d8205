import VoxelFeatures.Proofs.Locality
import VoxelFeatures.Proofs.MovedFeatures
import VoxelFeatures.Proofs.MovedTrees
import VoxelFeatures.Proofs.Translation

/-!
# Features on translated ground

A feature that is built on the same ground in another place comes out the same, but
for veins and large oaks, which round sums of absolute coordinates. Where it lies
relative to the chunks, and which of them have been written before, plays no part.

The one thing that could tell places apart is the end of the coordinates. `SpansFit`
says of a run that none of the spans of coordinates that it comes to wraps there. It
follows the run: a layer that the check of a tree never reaches may wrap. An origin
with room for the reach of its feature is far enough from the ends for all its runs.
-/

namespace VoxelFeatures

open Build

variable {dx dz : Int} {s t : Site}

/-! ## Trees -/

/-- The spans of coordinates that the run of a small tree comes to do not wrap: those
of its check, as far as it gets, and those of its crown, if the tree grows. -/
def SmallTree.SpansFit (t : SmallTree) (p : Pos) : Site → Prop :=
  t.height.After fun h s =>
    EachReached (layerIsClear t.species.overridable p h)
      (fun dy => isLayer (p.y + dy) → p.HasRoom (clearRadius h dy))
      (Span.halfOpen 0 (h + 3)).toList s ∧
    (isClear t.species.overridable p h).Passed
      ((isIn Ground.soilsAndFarmland (p.down 1)).Passed fun _ =>
        ∀ y ∈ (Span.closed (p.y + h - 3) (p.y + h)).toList,
          p.HasRoom (crownRadius 1 (y - (p.y + h)))) s

theorem SmallTree.spansFit (tree : SmallTree) {p : Pos} (hp : p.HasRoom 2) :
    tree.SpansFit p s := by
  refine .of_returns (fun h _ s => ⟨.of_forall (fun dy _ => ?_) _ s, ?_⟩) s
  · obtain ⟨hlow, hhigh⟩ := clearRadius_range h dy
    exact hp.mono hlow hhigh
  · refine .of_forall (.of_forall fun _ y hy => ?_) s
    obtain ⟨hlow, hhigh⟩ := crownRadius_range 1 (by decide) hy
    exact hp.mono hlow hhigh

theorem SmallTree.alike_build (tree : SmallTree) {p : Pos} (hs : tree.SpansFit p s)
    (ht : tree.SpansFit (p.moved (.ofInts dx dz)) t) :
    Alike dx dz id (tree.build p) (tree.build (p.moved (.ofInts dx dz))) s t := by
  refine (alike_of_eq (moved_height _ tree)).bind_after hs ht fun h s t hs ht => ?_
  refine .check ?_ hs.2 ht.2 fun s t hs ht => ?_
  · exact .allM_span hs.1 ht.1 fun dy hroom hroom' => moved_layerIsClear _ _ hroom hroom'
  · refine .check (alike_of_eq (moved_isIn ..)) hs ht fun s t hs ht => ?_
    have hcrown := moved_forM_span_of_mem (.ofInts dx dz) fun y hy =>
      moved_crownLayer (.ofInts dx dz) tree.species.leaf (hs y hy) (ht y hy)
    exact alike_of_eq (by simp [hcrown])

/-- An acacia takes spans of coordinates for its check alone. -/
def Acacia.SpansFit (p : Pos) : Site → Prop :=
  (bounded 3).After fun first => (bounded 3).After fun second s =>
    ¬(p.y < 1 ∨ 256 < p.y + (first + second + 5) + 1) →
      EachReached (layerIsClear p (first + second + 5))
        (fun y => isLayer y → p.HasRoom (clearRadius p (first + second + 5) y))
        (Span.closed p.y (p.y + 1 + (first + second + 5))).toList s

theorem Acacia.spansFit {p : Pos} (hp : p.HasRoom 2) : SpansFit p s := by
  refine .of_returns (fun first _ => .of_returns fun second _ s _ => ?_) s
  refine .of_forall (fun y _ => ?_) _ s
  obtain ⟨hlow, hhigh⟩ := clearRadius_range p (first + second + 5) y
  exact hp.mono hlow hhigh

theorem Acacia.foldM_trunk_moved (d : Move) (p towards : Pos) (start height bends : Int32) :
    (Span.halfOpen 0 height).foldM (trunkLayer (p.moved d) towards start) ⟨p.moved d, bends⟩ =
      ((Span.halfOpen 0 height).foldM (trunkLayer p towards start) ⟨p, bends⟩).moved d >>=
        fun t => done (t.moved d) :=
  foldM_span_moved d (g := (Trunk.moved · d))
    (fun t dy => trunkLayer_moved d p towards start t dy) ⟨p, bends⟩

theorem Acacia.alike_build {p : Pos} (hs : SpansFit p s)
    (ht : SpansFit (p.moved (.ofInts dx dz)) t) :
    Alike dx dz id (build p) (build (p.moved (.ofInts dx dz))) s t := by
  refine (alike_of_eq (moved_bounded _ 3)).bind_after hs ht fun first s t hs ht => ?_
  refine (alike_of_eq (moved_bounded _ 3)).bind_after hs ht fun second s t hs ht => ?_
  refine .unless Iff.rfl fun hheight => ?_
  refine Alike.bind (.allM_span (hs hheight) (ht hheight) fun y hroom hroom' =>
    moved_layerIsClear _ hroom hroom') ?_
  refine .ite Iff.rfl (fun _ => ?_) fun _ => alike_done rfl
  refine alike_of_eq ?_
  simp only [foldM_trunk_moved]
  simp [Trunk.moved]

/-- A swamp oak takes spans of coordinates for its check and for its vines. -/
def SwampOak.SpansFit (origin : Pos) : Site → Prop :=
  (bounded 4).After fun extra => (sink origin origin.y.toInt.toNat).After fun p s =>
    ¬(p.y < 1 ∨ 256 < p.y + (extra + 5) + 1) →
      EachReached (layerIsClear p (extra + 5))
        (fun y => isLayer y → p.HasRoom (clearRadius p (extra + 5) y))
        (Span.closed p.y (p.y + 1 + (extra + 5))).toList s ∧
      (isClear p (extra + 5)).Passed
        ((isIn Ground.soils (p.down 1)).Passed fun _ => ¬256 - (extra + 5) - 1 ≤ p.y →
          ∀ y ∈ (Span.closed (p.y + (extra + 5) - 3) (p.y + (extra + 5))).toList,
            p.HasRoom (SmallTree.crownRadius 2 (y - (p.y + (extra + 5))))) s

theorem SwampOak.spansFit {p : Pos} (hp : p.HasRoom 3) : SpansFit p s := by
  refine .of_returns (fun extra _ => .of_returns fun q hq s _ => ?_) s
  obtain ⟨hx, hz⟩ := (near_sink p _).2 q hq
  have hq : q.HasRoom 3 := ⟨by rw [hx]; exact hp.x, by rw [hz]; exact hp.z⟩
  refine ⟨.of_forall (fun y _ => ?_) _ s, .of_forall (.of_forall fun _ _ y hy => ?_) s⟩
  · obtain ⟨hlow, hhigh⟩ := clearRadius_range q (extra + 5) y
    exact hq.mono hlow hhigh
  · obtain ⟨hlow, hhigh⟩ := SmallTree.crownRadius_range 2 (by decide) hy
    exact hq.mono hlow hhigh

theorem SwampOak.alike_build {p : Pos} (hs : SpansFit p s)
    (ht : SpansFit (p.moved (.ofInts dx dz)) t) :
    Alike dx dz id (build p) (build (p.moved (.ofInts dx dz))) s t := by
  refine (alike_of_eq (moved_bounded _ 4)).bind_after hs ht fun extra s t hs ht => ?_
  refine (alike_of_eq_map (sink_moved _ p _)).bind_after hs ht fun p s t hs ht => ?_
  refine .unless Iff.rfl fun hheight => ?_
  obtain ⟨hclear, hs⟩ := hs hheight
  obtain ⟨hclear', ht⟩ := ht hheight
  refine .check ?_ hs ht fun s t hs ht => ?_
  · exact .allM_span hclear hclear' fun y hroom hroom' => moved_layerIsClear _ hroom hroom'
  · refine .check (alike_of_eq (moved_isIn ..)) hs ht fun s t hs ht => ?_
    refine .unless Iff.rfl fun htop => ?_
    have hvines := moved_forM_span_of_mem (.ofInts dx dz) fun y hy =>
      moved_vineLayer (.ofInts dx dz) (hs htop y hy) (ht htop y hy)
    exact alike_of_eq (by simp [hvines])

/-- A giant pine takes spans of coordinates for its crown. -/
def GiantPine.SpansFit (t : GiantPine) (p : Pos) : Site → Prop :=
  (Ground.below soils p).After fun
    | none, _ => True
    | some ground, s => ¬110 < ground →
        (columns.allM fun (dx, dz) => isIn soils (Pos.shift ⟨p.x, ground, p.z⟩ dx (-1) dz)).Passed
          ((bounded 15).After fun more =>
            (if t.podzol then spreadPodzol ⟨p.x, ground, p.z⟩ else done ()).After fun _ =>
              ((Span.halfOpen 0 (13 + more)).forM (trunkLayer ⟨p.x, ground, p.z⟩)).After fun _ =>
                (bounded 3).After fun less _ =>
                  ∀ y ∈ (Span.closed (ground + (13 + more) - less - 3)
                      (ground + (13 + more))).reverse.toList,
                    ∀ r, (crownRadius (ground + (13 + more) - y)).Returns r →
                      Fits p.x r ∧ Fits p.z r) s

theorem GiantPine.fits_of_fits {c r : Int32} (h : Span.Fits c 4) (hr : 0 ≤ r ∧ r ≤ 3) :
    Fits c r := by
  have hnext : 1 + r = r + 1 := Int32.add_comm 1 r
  have hbeside : Span.Fits c (r + 1) := h.mono (by lia) (by lia)
  have hone : (r + 1).toInt = r.toInt + 1 := by
    have hsmall : (0 : Int32).toInt = 0 ∧ (1 : Int32).toInt = 1 ∧ (3 : Int32).toInt = 3 := by
      decide
    rw [Int32.le_iff_toInt_le, Int32.le_iff_toInt_le] at hr
    rw [Int32.toInt_add, hsmall.2.1]
    exact Int.bmod_eq_of_le (by omega) (by omega)
  refine ⟨(h.mono hr.1 (by lia)).low, ?_⟩
  rw [Int32.add_assoc, hnext, hbeside.high, hone]
  omega

theorem GiantPine.spansFit (tree : GiantPine) {p : Pos} (hp : p.HasRoom 4) :
    tree.SpansFit p s := by
  refine .of_returns (fun ground _ s => ?_) s
  cases ground with
  | none => trivial
  | some ground =>
      refine fun _ => .of_forall (.of_returns fun more _ => .of_returns fun _ _ => ?_) s
      refine .of_returns fun _ _ => .of_returns fun less _ _ y _ r hr => ?_
      have hrange := (crownRadius_range (C := fun _ => True) _).2 r hr
      exact ⟨fits_of_fits hp.x hrange, fits_of_fits hp.z hrange⟩

theorem GiantPine.alike_crownLayer {p : Pos} {top y : Int32}
    (hp : ∀ r, (crownRadius (top - y)).Returns r → Fits p.x r ∧ Fits p.z r)
    (hq : ∀ r, (crownRadius (top - y)).Returns r →
      Fits (p.moved (.ofInts dx dz)).x r ∧ Fits (p.moved (.ofInts dx dz)).z r) (s t : Site) :
    Alike dx dz id (crownLayer p top y) (crownLayer (p.moved (.ofInts dx dz)) top y) s t := by
  refine Alike.bind (alike_of_eq (moved_crownRadius ..)) ?_
  have hr := returns_run (crownRadius (top - y)) s
  have hrange := (crownRadius_range (C := fun _ => True) (top - y)).2 _ hr
  exact alike_of_eq (moved_crownSquare _ hrange (hp _ hr) (hq _ hr) y)

theorem GiantPine.alike_build (tree : GiantPine) {p : Pos} (hs : tree.SpansFit p s)
    (ht : tree.SpansFit (p.moved (.ofInts dx dz)) t) :
    Alike dx dz id (tree.build p) (tree.build (p.moved (.ofInts dx dz))) s t := by
  refine (alike_of_eq (Ground.moved_below ..)).bind_after hs ht fun ground s t hs ht => ?_
  cases ground with
  | none => exact alike_done rfl
  | some ground =>
      refine .unless Iff.rfl fun hlow => ?_
      refine .check (alike_of_eq (moved_soils _ ⟨p.x, ground, p.z⟩)) (hs hlow) (ht hlow)
        fun s t hs ht => ?_
      refine (alike_of_eq (moved_bounded _ 15)).bind_after hs ht fun more s t hs ht => ?_
      have hspread : (spreadPodzol ⟨p.x, ground, p.z⟩).moved (.ofInts dx dz) =
          spreadPodzol ⟨(p.moved (.ofInts dx dz)).x, ground, (p.moved (.ofInts dx dz)).z⟩ :=
        moved_spreadPodzol ..
      have htrunk : ((Span.halfOpen 0 (13 + more)).forM
            (trunkLayer ⟨p.x, ground, p.z⟩)).moved (.ofInts dx dz) =
          (Span.halfOpen 0 (13 + more)).forM
            (trunkLayer ⟨(p.moved (.ofInts dx dz)).x, ground, (p.moved (.ofInts dx dz)).z⟩) :=
        moved_forM_span_of_mem _ fun _ _ => moved_trunkLayer ..
      refine .optional ?_
      refine Alike.bind_after (alike_of_eq ?_) hs ht fun _ s t hs ht => ?_
      · rw [moved_ite, hspread, moved_done]
      · refine (alike_of_eq htrunk).bind_after hs ht fun _ s t hs ht => ?_
        refine (alike_of_eq (moved_bounded _ 3)).bind_after hs ht fun less s t hs ht => ?_
        refine Alike.bind (.forM_span fun y hy => alike_crownLayer (hs y hy) (ht y hy)) ?_
        exact alike_done rfl

/-! ## Mushrooms, dungeons and deposits -/

/-- A huge mushroom takes spans of coordinates for its check and for its cap. -/
def HugeMushroom.SpansFit (k : MushroomKind) (p : Pos) : Site → Prop :=
  (species k).After fun kind => height.After fun h s =>
    ¬(p.y < 1 ∨ 256 ≤ p.y + h + 1) →
      EachReached (layerIsClear p) (fun y => p.HasRoom (clearRadius p y))
        (Span.closed p.y (p.y + h + 1)).toList s ∧
      (isClear p h).Passed
        ((isIn soils (p.down 1)).Passed fun _ =>
          ∀ y ∈ (Span.closed (capBottom kind (p.y + h)) (p.y + h)).toList,
            p.HasRoom (capRadius kind (p.y + h) y)) s

theorem HugeMushroom.spansFit (k : MushroomKind) {p : Pos} (hp : p.HasRoom 3) :
    SpansFit k p s := by
  refine .of_returns (fun kind _ => .of_returns fun h _ s _ => ⟨?_, ?_⟩) s
  · refine .of_forall (fun y => ?_) _ s
    rw [clearRadius]
    split
    · exact hp.mono (by decide) (by decide)
    · exact hp
  · refine .of_forall (.of_forall fun _ y _ => ?_) s
    obtain ⟨hlow, hhigh⟩ := capRadius_range kind (p.y + h) y
    exact hp.mono hlow hhigh

theorem HugeMushroom.alike_build (k : MushroomKind) {p : Pos} (hs : SpansFit k p s)
    (ht : SpansFit k (p.moved (.ofInts dx dz)) t) :
    Alike dx dz id (build k p) (build k (p.moved (.ofInts dx dz))) s t := by
  refine (alike_of_eq (moved_species _ k)).bind_after hs ht fun kind s t hs ht => ?_
  refine (alike_of_eq (moved_height _)).bind_after hs ht fun h s t hs ht => ?_
  refine .unless Iff.rfl fun hheight => ?_
  obtain ⟨hclear, hs⟩ := hs hheight
  obtain ⟨hclear', ht⟩ := ht hheight
  refine .check ?_ hs ht fun s t hs ht => ?_
  · exact .allM_span hclear hclear' fun y hroom hroom' => moved_layerIsClear _ hroom hroom'
  · refine .check (alike_of_eq (moved_isIn ..)) hs ht fun s t hs ht => ?_
    have hcap := moved_forM_span_of_mem (.ofInts dx dz) fun y hy =>
      moved_capLayer (.ofInts dx dz) kind (hs y hy) (ht y hy)
    exact alike_of_eq (by simp [hcap])

/-- A dungeon takes the spans of its box. -/
def Dungeon.SpansFit (p : Pos) : Site → Prop :=
  (bounded 2).After fun u => (bounded 2).After fun v _ => Room.Fits ⟨p, u + 2, v + 2⟩

theorem Dungeon.spansFit {p : Pos} (hp : p.HasRoom 4) : SpansFit p s := by
  refine .of_returns (fun u hu => .of_returns fun v hv _ => ?_) s
  have hu := ((returns_bounded 2 u).1 hu).1 (by decide)
  have hv := ((returns_bounded 2 v).1 hv).1 (by decide)
  exact ⟨hp.x.mono (by lia) (by lia), hp.z.mono (by lia) (by lia)⟩

theorem Dungeon.alike_build {p : Pos} (hs : SpansFit p s)
    (ht : SpansFit (p.moved (.ofInts dx dz)) t) :
    Alike dx dz id (build p) (build (p.moved (.ofInts dx dz))) s t := by
  refine (alike_of_eq (moved_bounded _ 2)).bind_after hs ht fun u s t hs ht => ?_
  refine (alike_of_eq (moved_bounded _ 2)).bind_after hs ht fun v s t hs ht => ?_
  refine Alike.bind (alike_of_eq (moved_openings? hs ht)) ?_
  generalize ((openings? ⟨p, u + 2, v + 2⟩).run s).1 = o
  cases o with
  | none => exact alike_done rfl
  | some openings =>
      refine .ite Iff.rfl (fun _ => alike_of_eq rfl) fun _ => ?_
      refine Alike.bind (alike_of_eq (moved_carveAll hs ht)) ?_
      exact alike_of_eq rfl

/-- A disc takes spans of coordinates of its drawn radius, if there is water. -/
def Disc.SpansFit (bound : Int32) (p : Pos) : Site → Prop :=
  (look p).After fun id s => id.isWater = true →
    (bounded (bound - 2)).After (fun u _ => p.HasRoom (u + 2)) s

theorem Disc.alike_lay (bound half : Int32) (block : BlockId) (replaceable : BlockSet) {p : Pos}
    (hs : SpansFit bound p s) (ht : SpansFit bound (p.moved (.ofInts dx dz)) t) :
    Alike dx dz id (lay bound half block replaceable p)
      (lay bound half block replaceable (p.moved (.ofInts dx dz))) s t := by
  refine (alike_of_eq (moved_look _ p)).bind_after hs ht fun id s t hs ht => ?_
  refine .ite Iff.rfl (fun hwater => ?_) fun _ => alike_done rfl
  refine (alike_of_eq (moved_bounded _ _)).bind_after (hs hwater) (ht hwater) fun u s t hs ht => ?_
  refine Alike.bind (alike_of_eq (moved_square _ hs ht half block replaceable)) ?_
  exact alike_done rfl

/-- The spans of one sphere of a boulder. -/
def Boulder.SphereFits (b : Boulder) (p : Pos) : Site → Prop :=
  (bounded 2).After fun u => (bounded 2).After fun _ => (bounded 2).After fun w _ =>
    Span.Fits p.x (b.radius + u) ∧ Span.Fits p.z (b.radius + w)

/-- The spans of `n` spheres, each at the cell where the one before steps off to. -/
def Boulder.SpheresFit (b : Boulder) : Pos → Nat → Site → Prop
  | _, 0, _ => True
  | p, n + 1, s => b.SphereFits p s ∧
      (b.sphere p).After (fun _ => sideStep.After fun dx => (bounded 2).After fun fallen =>
        sideStep.After fun dz => b.SpheresFit ⟨p.x + dx, p.y - fallen, p.z + dz⟩ n) s

/-- A boulder takes the spans of its spheres, unless it falls too low. -/
def Boulder.SpansFit (b : Boulder) (p : Pos) : Site → Prop :=
  (fall p (p.y.toInt - 3).toNat).After fun ground s => ¬ground.y ≤ 3 → b.SpheresFit ground 3 s

theorem Boulder.alike_sphere (b : Boulder) {p : Pos} (hs : b.SphereFits p s)
    (ht : b.SphereFits (p.moved (.ofInts dx dz)) t) :
    Alike dx dz id (b.sphere p) (b.sphere (p.moved (.ofInts dx dz))) s t := by
  refine (alike_of_eq (moved_bounded _ 2)).bind_after hs ht fun u s t hs ht => ?_
  refine (alike_of_eq (moved_bounded _ 2)).bind_after hs ht fun v s t hs ht => ?_
  refine (alike_of_eq (moved_bounded _ 2)).bind_after hs ht fun w s t hs ht => ?_
  exact alike_of_eq (moved_heap _ b hs.1 hs.2 ht.1 ht.2 _ _)

theorem Boulder.alike_spheres (b : Boulder) {p : Pos} {n : Nat} (hs : b.SpheresFit p n s)
    (ht : b.SpheresFit (p.moved (.ofInts dx dz)) n t) :
    Alike dx dz (·.moved (.ofInts dx dz)) (b.spheres p n)
      (b.spheres (p.moved (.ofInts dx dz)) n) s t := by
  induction n generalizing p s t with
  | zero => exact alike_done rfl
  | succ n ih =>
      refine (b.alike_sphere hs.1 ht.1).bind_after hs.2 ht.2 fun _ s t hs ht => ?_
      refine (alike_of_eq (moved_sideStep _)).bind_after hs ht fun ex s t hs ht => ?_
      refine (alike_of_eq (moved_bounded _ 2)).bind_after hs ht fun fallen s t hs ht => ?_
      refine (alike_of_eq (moved_sideStep _)).bind_after hs ht fun ez s t hs ht => ?_
      rw [id, id, id, ← Pos.moved_mk_add] at ht ⊢
      exact ih hs ht

theorem Boulder.alike_build (b : Boulder) {p : Pos} (hs : b.SpansFit p s)
    (ht : b.SpansFit (p.moved (.ofInts dx dz)) t) :
    Alike dx dz id (b.build p) (b.build (p.moved (.ofInts dx dz))) s t := by
  refine (alike_of_eq_map (fall_moved _ p _)).bind_after hs ht fun ground s t hs ht => ?_
  refine .unless Iff.rfl fun hlow => ?_
  refine (b.alike_spheres (hs hlow) (ht hlow)).bind ?_
  exact (alike_report _ _ _ _).bind (alike_done rfl)

/-! ## All features -/

/-- Cells near one origin have counterparts near the other one. -/
theorem Pos.Near.carried {p q c : Pos} {r : Nat} {k : Int32} (hc : p.Near r c)
    (hk : r ≤ k.toInt) (hp : p.HasRoom k) (hpq : p.Apart dx dz q) (hq : q.HasRoom k) :
    c.Carried dx dz := by
  have hword {a b c : Int32} {d : Int} (hc : gap a c ≤ r) (ha : Span.Fits a k)
      (hab : b.toInt = a.toInt + d) (hb : Span.Fits b k) :
      -2147483648 ≤ c.toInt + d ∧ c.toInt + d < 2147483648 := by
    have hlow := toInt_range (a - k)
    have hhigh := toInt_range (a + k)
    have hlow' := toInt_range (b - k)
    have hhigh' := toInt_range (b + k)
    rw [ha.low] at hlow
    rw [ha.high] at hhigh
    rw [hb.low] at hlow'
    rw [hb.high] at hhigh'
    have hdirect := toInt_sub_of_gap_le (by omega) hc
    rw [gap] at hc
    omega
  exact ⟨hword hc.1 hp.x hpq.x hq.x, hword hc.2 hp.z hpq.z hq.z⟩

/-- No span of coordinates that the run of a tree comes to wraps. Trees that walk over
offsets alone have none. -/
def Tree.SpansFit : Tree → Pos → Site → Prop
  | small t => t.SpansFit
  | acacia => Acacia.SpansFit
  | swampOak => SwampOak.SpansFit
  | giantPine t => t.SpansFit
  | largeOak _ | darkOak | pine | spruce | jungle _ | giantJungle | jungleBush _ => fun _ _ => True

namespace Feature

/-- No span of coordinates that the run of a feature comes to wraps. -/
def SpansFit : Feature → Pos → Site → Prop
  | tree t => t.SpansFit
  | mushroom kind => HugeMushroom.SpansFit kind
  | dungeon => Dungeon.SpansFit
  | clay disc => Disc.SpansFit disc.bound
  | sand disc => Disc.SpansFit disc.bound
  | boulder b => b.SpansFit
  | _ => fun _ _ => True

/-- Veins and large oaks round sums of absolute coordinates; all other features are
laid relative to their origins. -/
def IsRelative : Feature → Prop
  | vein _ | tree (.largeOak _) => False
  | _ => True

variable {f : Feature} {p q : Pos}

theorem alike_build (hf : f.IsRelative) (hs : f.SpansFit p s)
    (ht : f.SpansFit (p.moved (.ofInts dx dz)) t) :
    Alike dx dz id (f.build p) (f.build (p.moved (.ofInts dx dz))) s t := by
  cases f with
  | tree tree =>
      cases tree with
      | small small => exact small.alike_build hs ht
      | largeOak oak => exact hf.elim
      | darkOak => exact alike_of_eq (DarkOak.moved_build _ p)
      | pine => exact alike_of_eq (Pine.moved_build _ p)
      | spruce => exact alike_of_eq (Spruce.moved_build _ p)
      | acacia => exact Acacia.alike_build hs ht
      | swampOak => exact SwampOak.alike_build hs ht
      | jungle jungle => exact alike_of_eq (jungle.moved_build _ p)
      | giantJungle => exact alike_of_eq (GiantJungle.moved_build _ p)
      | giantPine pine => exact pine.alike_build hs ht
      | jungleBush bush => exact alike_of_eq (bush.moved_build _ p)
  | vein spec => exact hf.elim
  | lake fluid => exact alike_of_eq (LakeBasin.moved_build _ fluid p)
  | spring fluid => exact alike_of_eq (Spring.moved_build _ fluid p)
  | dungeon => exact Dungeon.alike_build hs ht
  | mushroom kind => exact HugeMushroom.alike_build kind hs ht
  | icePath path => exact alike_of_eq (path.moved_build _ p)
  | iceSpike => exact alike_of_eq (IceSpike.moved_build _ p)
  | bush plant => exact alike_of_eq (moved_plantAround _ (fun _ => rfl) _ _ p)
  | deadBush => exact alike_of_eq (moved_plantAround _ (fun _ => rfl) _ _ p)
  | tallGrass data => exact alike_of_eq (moved_plantAround _ (fun _ => rfl) _ _ p)
  | sugarCanes => exact alike_of_eq (Stalk.moved_sugarCanes _ p)
  | pumpkin => exact alike_of_eq (Patch.moved_pumpkin _ p)
  | cactus => exact alike_of_eq (Stalk.moved_cactus _ p)
  | vines => exact alike_of_eq (Vines.moved_build _ p)
  | waterLily => exact alike_of_eq (moved_plantAround _ (fun _ => rfl) _ _ p)
  | tallPlant plant => exact alike_of_eq (plant.moved_build _ p)
  | patch id => exact alike_of_eq (Patch.moved_turned _ id p)
  | clay disc => exact Disc.alike_lay _ _ _ _ hs ht
  | sand disc => exact Disc.alike_lay _ _ _ _ hs ht
  | boulder b => exact b.alike_build hs ht

/-- A feature does not depend on where it is built, only on what is around it. Let two
sites have the same stream and hold the same ids at any two cells that are `dx` and
`dz` apart, and let the origins be that far apart too. Then both runs have the same
result, end with the same stream and make the same writes, `dx` and `dz` apart.

No arithmetic on coordinates may wrap: neither the ends of the spans that the runs walk
over, nor the coordinates of a cell that the first run comes to when the distance is
added to them. -/
theorem build_alongside (hf : f.IsRelative) (hpq : p.Apart dx dz q) (hst : s.Alongside dx dz t)
    (hs : f.SpansFit p s) (ht : f.SpansFit q t)
    (hcells : ∀ a ∈ (f.build p).acts s, a.In (Pos.Carried dx dz)) :
    ((f.build p).run s).1 = ((f.build q).run t).1 ∧
      ((f.build p).run s).2.stream = ((f.build q).run t).2.stream ∧
      Site.AddApart dx dz s ((f.build p).run s).2 t ((f.build q).run t).2 := by
  rw [hpq.eq_moved] at ht ⊢
  obtain ⟨hresult, hafter, hadded⟩ := alike_build hf hs ht hst hcells
  exact ⟨hresult.symm, hafter.stream, hadded⟩

/-! Origins that have room for the reach of the feature. -/

section Reach

variable {r : Nat} {k : Int32}

theorem spansFit_of_reach (hr : f.reach? = some r) (hk : r ≤ k.toInt) (hp : p.HasRoom k) :
    f.SpansFit p s := by
  have hroom (n : Int32) (h0 : 0 ≤ n) (hn : n.toInt ≤ r) : p.HasRoom n :=
    hp.mono h0 (Int32.le_iff_toInt_le.2 (by omega))
  cases f with
  | tree tree =>
      cases tree with
      | small small =>
          cases hr
          exact small.spansFit (hroom 2 (by decide) (by decide))
      | acacia =>
          cases hr
          exact Acacia.spansFit (hroom 2 (by decide) (by decide))
      | swampOak =>
          cases hr
          exact SwampOak.spansFit (hroom 3 (by decide) (by decide))
      | giantPine pine =>
          cases hr
          exact pine.spansFit (hroom 4 (by decide) (by decide))
      | largeOak oak => cases hr
      | _ => trivial
  | mushroom kind =>
      cases hr
      exact HugeMushroom.spansFit kind (hroom 3 (by decide) (by decide))
  | dungeon =>
      cases hr
      exact Dungeon.spansFit (hroom 4 (by decide) (by decide))
  | clay disc => cases hr
  | sand disc => cases hr
  | boulder b => cases hr
  | _ => trivial

theorem acts_carried (hr : f.reach? = some r) (hk : r ≤ k.toInt) (hp : p.HasRoom k)
    (hpq : p.Apart dx dz q) (hq : q.HasRoom k) (s : Site) :
    ∀ a ∈ (f.build p).acts s, a.In (Pos.Carried dx dz) :=
  ((near_build hr p).mono fun _ ha => ha.mono fun _ hc => hc.carried hk hp hpq hq).acts s

/-- Where both origins have room for the reach, no run of the feature wraps. -/
theorem build_alike_of_reach (hr : f.reach? = some r) (hk : r ≤ k.toInt) (hp : p.HasRoom k)
    (hq : q.HasRoom k) (hpq : p.Apart dx dz q) (hst : s.Alongside dx dz t) :
    ((f.build p).run s).1 = ((f.build q).run t).1 ∧
      ((f.build p).run s).2.Alongside dx dz ((f.build q).run t).2 ∧
      Site.AddApart dx dz s ((f.build p).run s).2 t ((f.build q).run t).2 := by
  have hrelative : f.IsRelative := by
    cases f with
    | vein spec => cases hr
    | tree tree =>
        cases tree with
        | largeOak oak => cases hr
        | _ => trivial
    | _ => trivial
  have hcells := acts_carried hr hk hp hpq hq s
  rw [hpq.eq_moved] at hq ⊢
  obtain ⟨hresult, hafter, hadded⟩ :=
    alike_build hrelative (spansFit_of_reach hr hk hp) (spansFit_of_reach hr hk hq) hst hcells
  exact ⟨hresult.symm, hafter, hadded⟩

end Reach

/-- An oak with a log among its leaves grows in the same way in another place, some
chunks away and not aligned with them. -/
theorem oak_alongside_oak :
    let ground : Site :=
      ⟨.ofWorld (.ofLayers 3 [(.plain .dirt, 1), (.plain .grass, 1)]), .ofSeed 11, #[]⟩
    let s := ground.place ⟨-2, 5, 5⟩ (.plain .log) false
    let t := ground.place ⟨19, 5, -8⟩ (.plain .log) false
    let after := (build (.tree (.small .oak)) ⟨-3, 2, 5⟩).run s
    let after' := (build (.tree (.small .oak)) ⟨18, 2, -8⟩).run t
    after.1 = after'.1 ∧ after.2.stream = after'.2.stream ∧
      Site.AddApart 21 (-13) s after.2 t after'.2 := by
  intro ground s t
  have hpq : Pos.Apart 21 (-13) ⟨-3, 2, 5⟩ ⟨18, 2, -8⟩ := ⟨by decide, rfl, by decide⟩
  have hlog : Pos.Apart 21 (-13) ⟨-2, 5, 5⟩ ⟨19, 5, -8⟩ := ⟨by decide, rfl, by decide⟩
  have hst : s.Alongside 21 (-13) t := (Site.alongside_ofLayers ..).place hlog (.plain .log) false
  have hp : Pos.HasRoom ⟨-3, 2, 5⟩ 2 := ⟨⟨by decide, by decide⟩, ⟨by decide, by decide⟩⟩
  have hq : Pos.HasRoom ⟨18, 2, -8⟩ 2 := ⟨⟨by decide, by decide⟩, ⟨by decide, by decide⟩⟩
  have hreach : reach? (.tree (.small .oak)) = some 2 := rfl
  have hs : SpansFit (.tree (.small .oak)) ⟨-3, 2, 5⟩ s := spansFit_of_reach hreach (by decide) hp
  have ht : SpansFit (.tree (.small .oak)) ⟨18, 2, -8⟩ t := spansFit_of_reach hreach (by decide) hq
  have hcells := acts_carried hreach (by decide) hp hpq hq s
  exact build_alongside (f := .tree (.small .oak)) trivial hpq hst hs ht hcells

end Feature

end VoxelFeatures
