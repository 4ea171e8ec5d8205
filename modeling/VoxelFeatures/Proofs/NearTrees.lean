import VoxelFeatures.Feature.Basic
import VoxelFeatures.Proofs.NearActs

/-!
# The columns that trees act on

For every tree with a fixed reach, the columns around its origin that it looks
at and writes to. The radii that change from layer to layer are bounded by what
their walks keep: a pine is never wider than two, the rings of a spruce never
than their limit, and a trunk that bends is as far from its column as it has
spent bends. Dark oaks hang their logs from the origin and put leaves around
the top of the bent trunk, so both distances count there.
-/

namespace VoxelFeatures

theorem near_isSquareIn (s : BlockSet) (p : Pos) {r k : Int32} (hr : 0 ≤ r) (hk : r ≤ k) :
    (isSquareIn s p r).Only (Act.In (p.Near k.toInt.natAbs)) := by
  refine Build.Only.allSquare fun x hx z hz => ?_
  simpa using Pos.near_of_mem_square p.y hr hk hx hz

theorem near_growTrunk (s : BlockSet) (trunk : Block) (p : Pos) (height : Int32) (r : Nat) :
    (growTrunk s trunk p height).Only (Act.In (p.Near r)) := by
  simp [growTrunk]

theorem Ground.near_below (soils : BlockSet) (p : Pos) (r : Nat) :
    (below soils p).Only (Act.In (p.Near r)) := by
  have hfind (n : Nat) : (find soils p.x p.z n).Only (Act.In (p.Near r)) := by
    induction n with
    | zero => exact .done none
    | succ n ih => simp [find, ih]
  exact hfind _

namespace SmallTree

theorem clearRadius_range (height dy : Int32) :
    0 ≤ clearRadius height dy ∧ clearRadius height dy ≤ 2 := by
  rw [clearRadius]
  split <;> split <;> decide

theorem near_isClear (s : BlockSet) (p : Pos) (height : Int32) :
    (isClear s p height).Only (Act.In (p.Near 2)) := by
  refine Build.Only.allM_span fun dy _ => ?_
  split
  · obtain ⟨hlow, hhigh⟩ := clearRadius_range height dy
    exact near_isSquareIn s (p.up dy) hlow hhigh
  · exact .done false

theorem depth_range {top y : Int32} (hy : y ∈ (Span.closed (top - 3) top).toList) :
    -3 ≤ y - top ∧ y - top ≤ 0 := by
  have hy : y ∈ (Span.closed (top + -3) (top + 0)).toList := by
    rwa [Int32.add_zero, ← Int32.sub_eq_add_neg]
  exact Span.sub_range_of_mem_closed (by decide) hy

/-- A crown is wider by at most one at its bottom than at its top. -/
theorem crownRadius_range (least : Int32) {top y : Int32} (hleast : 0 ≤ least ∧ least ≤ 2)
    (hy : y ∈ (Span.closed (top - 3) top).toList) :
    0 ≤ crownRadius least (y - top) ∧ crownRadius least (y - top) ≤ least + 1 := by
  have hdepth := depth_range hy
  generalize y - top = depth at hdepth
  have hhalf : depth / 2 = -1 ∨ depth / 2 = 0 := by
    have hcases : depth = -3 ∨ depth = -2 ∨ depth = -1 ∨ depth = 0 := by lia
    rcases hcases with h | h | h | h <;> rw [h] <;> decide
  clear hdepth
  rw [crownRadius]
  rcases hhalf with h | h <;> rw [h] <;> lia

theorem near_crownLayer (leaf : Block) (p : Pos) {top y : Int32}
    (hy : y ∈ (Span.closed (top - 3) top).toList) :
    (crownLayer leaf p top y).Only (Act.In (p.Near 2)) := by
  obtain ⟨hlow, hhigh⟩ := crownRadius_range 1 (by decide) hy
  simp only [crownLayer, Build.only_forSquare]
  intro x hx z hz
  have hq : p.Near 2 ⟨x, y, z⟩ := Pos.near_of_mem_square y hlow hhigh hx hz
  simp [hasLeaf, hq]

theorem near_build (t : SmallTree) (p : Pos) : (t.build p).Only (Act.In (p.Near 2)) := by
  simp +contextual [build, height, near_isClear, near_crownLayer, near_growTrunk]

end SmallTree

/-! ## Conifers -/

theorem Conifer.near_leafLayer (c : Pos) {r k : Int32} (hr : 0 ≤ r) (hk : r ≤ k) :
    (leafLayer c r).Only (Act.In (c.Near k.toInt.natAbs)) := by
  simp only [leafLayer, Build.only_forOffsets]
  intro dx hx dz hz
  simp [c.near_shift_of_mem_square 0 hr hk hx hz]

namespace Pine

theorem nextRadius_range {r : Int32} (hr : 0 ≤ r ∧ r ≤ 2) (y bottom : Int32) :
    0 ≤ nextRadius r y bottom ∧ nextRadius r y bottom ≤ 2 := by
  rw [nextRadius]
  split
  · lia
  · split <;> lia

theorem near_crown (p : Pos) (bottom top : Int32) :
    (crown p bottom top).Only (Act.In (p.Near 2)) := by
  refine Build.Only.bind (Build.foldM_span_invariant (I := fun r => 0 ≤ r ∧ r ≤ 2)
    (fun r hr y _ => ⟨?_, ?_⟩) (by decide)).1 fun _ => .done ()
  · exact .bind (Conifer.near_leafLayer ⟨p.x, y, p.z⟩ hr.1 hr.2) fun _ => .done _
  · simp only [Build.returns_bind]
    rintro b ⟨-, -, rfl⟩
    exact nextRadius_range hr y bottom

theorem near_trunk (p : Pos) (height dy : Int32) (n : Nat) :
    (trunk p height dy n).Only (Act.In (p.Near 2)) := by
  induction n generalizing dy with
  | zero => simp [trunk]
  | succ n ih => simp [trunk, ih]

theorem near_build (p : Pos) : (build p).Only (Act.In (p.Near 2)) := by
  simp [build, near_crown, near_trunk]

end Pine

namespace Spruce

/-- The rings stay within the greatest radius, which stays within the limit. -/
structure Rings.Fit (limit : Int32) (g : Rings) : Prop where
  radius : 0 ≤ g.radius ∧ g.radius ≤ g.greatest
  least : 0 ≤ g.least ∧ g.least ≤ 1
  greatest : 1 ≤ g.greatest ∧ g.greatest ≤ limit

theorem Rings.Fit.next {limit : Int32} {g : Rings} (h : g.Fit limit) (hlimit : limit ≤ 3) :
    (g.next limit).Fit limit := by
  obtain ⟨hradius, hleast, hgreatest⟩ := h
  rw [Rings.next]
  split
  · refine ⟨⟨hleast.1, ?_⟩, show (0 : Int32) ≤ 1 ∧ (1 : Int32) ≤ 1 by decide, ?_⟩
    · split <;> lia
    · split <;> lia
  · exact ⟨by lia, hleast, hgreatest⟩

theorem near_crown (p : Pos) (height layers : Int32) {limit first : Int32}
    (hlimit : 1 ≤ limit ∧ limit ≤ 3) (hfirst : 0 ≤ first ∧ first ≤ 1) :
    (crown p height layers limit first).Only (Act.In (p.Near 3)) := by
  have hstart : (⟨first, 0, 1⟩ : Rings).Fit limit :=
    ⟨hfirst, show (0 : Int32) ≤ 0 ∧ (0 : Int32) ≤ 1 by decide, Int32.le_refl 1, hlimit.1⟩
  refine Build.Only.bind (Build.foldM_span_invariant (I := Rings.Fit limit)
    (fun g hg dy _ => ⟨?_, ?_⟩) hstart).1 fun _ => .done ()
  · have hradius : g.radius ≤ 3 :=
      Int32.le_trans hg.radius.2 (Int32.le_trans hg.greatest.2 hlimit.2)
    exact .bind (Conifer.near_leafLayer (p.up (height - dy)) hg.radius.1 hradius) fun _ => .done _
  · simp only [Build.returns_bind]
    rintro b ⟨-, -, rfl⟩
    exact hg.next hlimit.2

theorem near_build (p : Pos) : (build p).Only (Act.In (p.Near 3)) := by
  refine .bind (by simp) fun soil => .ite ?_ (.done false)
  refine .bind (by simp) fun tall => .bind (by simp) fun gap => ?_
  refine .draw (by decide) fun wide hwide => ?_
  refine .bind (by simp) fun bare => .bind (by simp) fun _ => ?_
  refine .bind (near_growTrunk ..) fun _ => ?_
  refine .draw (by decide) fun first hfirst => ?_
  exact .bind (near_crown p _ _ (by lia) (by lia)) fun _ => .done true

end Spruce

/-! ## Trees that bend -/

/-- A trunk that started in the column of `p` has come over `q` and may still
bend by some cells. It is as far off as it has bent, so never farther off than
the cells that it could bend by at first. -/
def Bent (most : Nat) (p q : Pos) (bends : Int32) : Prop :=
  ∃ k : Nat, p.Near k q ∧ 0 ≤ bends.toInt ∧ k + bends.toInt ≤ most

namespace Bent

variable {most : Nat} {p q : Pos} {bends : Int32}

theorem straight (p : Pos) {k : Int32} (hbends : 0 ≤ bends ∧ bends ≤ k) :
    Bent k.toInt.natAbs p p bends := by
  have hlow : 0 ≤ bends.toInt := by simpa using Int32.le_iff_toInt_le.1 hbends.1
  have hhigh := Int32.le_iff_toInt_le.1 hbends.2
  exact ⟨0, p.near_self 0, hlow, by omega⟩

theorem step (h : Bent most p q bends) (hbends : 0 < bends) (f : Face) :
    Bent most p (q + f.delta) (bends - 1) := by
  obtain ⟨k, hq, hleft, hsum⟩ := h
  have hpos : 0 < bends.toInt := by simpa using Int32.lt_iff_toInt_lt.1 hbends
  have hless : (bends - 1).toInt = bends.toInt - 1 := toInt_sub_one hbends
  exact ⟨k + 1, hq.trans (q.near_add_delta f), by omega, by omega⟩

theorem near (h : Bent most p q bends) : p.Near most q := by
  obtain ⟨k, hq, hleft, hsum⟩ := h
  exact hq.mono (by omega)

end Bent

namespace Acacia

theorem clearRadius_range (p : Pos) (height y : Int32) :
    0 ≤ clearRadius p height y ∧ clearRadius p height y ≤ 2 := by
  rw [clearRadius]
  split
  · decide
  · split <;> decide

theorem near_isClear (p : Pos) (height : Int32) :
    (isClear p height).Only (Act.In (p.Near 2)) := by
  refine Build.Only.allM_span fun y _ => ?_
  split
  · obtain ⟨hlow, hhigh⟩ := clearRadius_range p height y
    exact near_isSquareIn _ ⟨p.x, y, p.z⟩ hlow hhigh
  · exact .done false

theorem near_leafLayers (c : Pos) {r k : Int32} (hr : 1 ≤ r) (hk : r ≤ k) :
    (leafLayers c r).Only (Act.In (c.Near k.toInt.natAbs)) := by
  refine .bind ?_ fun _ => ?_
  · rw [Build.only_forOffsets]
    intro dx hx dz hz
    have hq := c.near_shift_of_mem_square 0 (Int32.le_trans (by decide) hr) hk hx hz
    simp [placeLeaf, hq]
  · rw [Build.only_forOffsets]
    intro dx hx dz hz
    have hq := c.near_shift_of_mem_square 1 (by decide) (Int32.le_trans hr hk) hx hz
    simp [placeLeaf, hq]

theorem near_crown (c : Pos) : (crown c).Only (Act.In (c.Near 3)) := by
  refine .bind (near_leafLayers (r := 3) (k := 3) c (by decide) (by decide)) fun _ => ?_
  have hsides : ∀ q ∈ [(c.up 1).east 2, (c.up 1).west 2, (c.up 1).south 2, (c.up 1).north 2],
      (c.up 1).Near 3 q := by
    simp only [List.forall_mem_cons, List.not_mem_nil, false_imp_iff, implies_true, and_true]
    exact ⟨Pos.near_east _ (by decide), Pos.near_west _ (by decide),
      Pos.near_south _ (by decide), Pos.near_north _ (by decide)⟩
  rw [List.forM_eq_forM, Build.only_forM]
  intro q hq
  simpa [placeLeaf] using hsides q hq

theorem near_trunkLayer {p : Pos} {t : Trunk} (ht : Bent 3 p t.last t.bends) (f : Face)
    (start dy : Int32) :
    (trunkLayer p f.delta start t dy).Only (Act.In (p.Near 3)) ∧
      ∀ u, (trunkLayer p f.delta start t dy).Returns u → Bent 3 p u.last u.bends := by
  rw [trunkLayer]
  generalize hbent : (if start ≤ dy ∧ 0 < t.bends then ⟨t.last + f.delta, t.bends - 1⟩
    else t : Trunk) = bent
  have hbent : Bent 3 p bent.last bent.bends := by
    rw [← hbent]
    split
    · rename_i hbend
      exact ht.step hbend.2 f
    · exact ht
  refine ⟨by simp [placeLog, hbent.near], fun u hu => ?_⟩
  simp only [Build.returns_bind] at hu
  obtain ⟨_, _, rfl⟩ := hu
  exact hbent

theorem near_trunk (p : Pos) (f : Face) (height start bends : Int32)
    (hbends : 0 ≤ bends ∧ bends ≤ 3) :
    ((Span.halfOpen 0 height).foldM (trunkLayer p f.delta start) ⟨p, bends⟩).Only
        (Act.In (p.Near 3)) ∧
      ∀ t, ((Span.halfOpen 0 height).foldM (trunkLayer p f.delta start) ⟨p, bends⟩).Returns t →
        p.Near 3 t.last := by
  obtain ⟨honly, hreturns⟩ := Build.foldM_span_invariant (a := ⟨p, bends⟩)
    (fun t ht dy _ => near_trunkLayer ht f start dy) (Bent.straight p hbends)
  exact ⟨honly, fun t ht => (hreturns t ht).near⟩

/-- A branch moves by one cell in each of its layers. -/
theorem near_branch {p last : Pos} {k : Nat} (f : Face) (height : Int32) (n : Nat) (dy : Int32)
    (hlast : p.Near k last) (top : Option Pos) (htop : ∀ q ∈ top, p.Near k q) :
    (branch p f.delta height n dy last top).Only (Act.In (p.Near (k + n))) ∧
      ∀ o, (branch p f.delta height n dy last top).Returns o → ∀ q ∈ o, p.Near (k + n) q := by
  induction n generalizing k dy last top with
  | zero =>
      refine ⟨.done top, fun o ho => ?_⟩
      cases ho
      exact htop
  | succ n ih =>
      rw [branch]
      split
      · split
        · have hq : p.Near (k + 1) ⟨last.x + f.delta.x, p.y + dy, last.z + f.delta.z⟩ :=
            hlast.trans (last.near_add_delta f)
          obtain ⟨honly, hreturns⟩ := ih (dy + 1) hq (some _) (by simpa using hq)
          -- the step that was taken and those that are left: `k + 1 + n` is `k + (n + 1)`
          rw [Nat.add_right_comm, Nat.add_assoc] at honly hreturns
          refine ⟨.bind ?_ fun _ => honly, fun o ho => ?_⟩
          · simpa [placeLog] using hq.mono (by omega)
          · rw [Build.returns_bind] at ho
            obtain ⟨_, _, ho⟩ := ho
            exact hreturns o ho
        · obtain ⟨honly, hreturns⟩ := ih (dy + 1) hlast top htop
          exact ⟨honly.near_mono (by omega),
            fun o ho q hq => (hreturns o ho q hq).mono (by omega)⟩
      · refine ⟨.done top, fun o ho q hq => ?_⟩
        cases ho
        exact (htop q hq).mono (by omega)

theorem near_secondBranch (p : Pos) (f : Face) (height start : Int32) :
    (secondBranch p f.delta height start).Only (Act.In (p.Near 6)) := by
  refine .bind (by simp) fun fork => .draw (by decide) fun more hmore => ?_
  have hlength : (1 + more).toInt.toNat ≤ 3 := by
    have h := natAbs_toInt_mono (s := 1 + more) (k := 3) (by lia) (by lia)
    have hthree : (3 : Int32).toInt.natAbs = 3 := by decide
    omega
  obtain ⟨honly, hreturns⟩ := near_branch f height (1 + more).toInt.toNat
    (start - fork - 1) (p.near_self 0) none (by simp)
  refine .bind_of ⟨honly.near_mono (by omega), hreturns⟩ fun top htop => ?_
  cases top with
  | none => exact .done ()
  | some q =>
      have hq : p.Near 4 q := (htop q rfl).mono (by omega)
      exact (near_leafLayers q (r := 2) (k := 2) (by decide) (by decide)).near_trans hq

theorem near_build (p : Pos) : (build p).Only (Act.In (p.Near 6)) := by
  refine .bind (by simp) fun first => .bind (by simp) fun second => .ite (.done false) ?_
  refine .bind ((near_isClear p _).near_mono (by decide)) fun clear => .ite ?_ (.done false)
  refine .bind (by simp) fun soil => .ite (.ite (.done false) ?_) (.done false)
  refine .bind (by simp) fun _ => .bind (by simp) fun side => .bind (by simp) fun late => ?_
  refine .draw (by decide) fun straight hstraight => ?_
  obtain ⟨honly, hreturns⟩ := near_trunk p (.ofHorizontal side) (first + second + 5)
    (first + second + 5 - late - 1) (3 - straight) (by lia)
  refine .bind_of ⟨honly.near_mono (by decide), hreturns⟩ fun t ht => ?_
  refine .bind ((near_crown t.last).near_trans ht) fun _ => .bind (by simp) fun other => ?_
  exact .ite (.bind (near_secondBranch ..) fun _ => .done true) (.done true)

end Acacia

namespace DarkOak

@[simp] theorem only_placeLog_in {C : Pos → Prop} (q : Pos) : (placeLog q).Only (Act.In C) ↔ C q :=
  Build.only_replace_in ..

@[simp] theorem only_placeLeaf_in {C : Pos → Prop} (q : Pos) :
    (placeLeaf q).Only (Act.In C) ↔ C q := by
  simp only [placeLeaf, Build.only_bind, Build.only_isAir, Build.only_ite, Build.only_place,
    Act.in_look, Act.in_place]
  exact ⟨fun h => h.1, fun h => ⟨h, fun _ _ => ⟨fun _ => h, fun _ => .done ()⟩⟩⟩

theorem clearRadius_range (height dy : Int32) :
    0 ≤ clearRadius height dy ∧ clearRadius height dy ≤ 2 := by
  rw [clearRadius]
  split
  · decide
  · split <;> decide

theorem near_isClear (p : Pos) (height : Int32) :
    (isClear p height).Only (Act.In (p.Near 2)) := by
  obtain hradius := clearRadius_range height
  refine Build.Only.allM_span fun dy _ => Build.Only.allSquare fun dx hx dz hz => ?_
  have hq := p.near_shift_of_mem_square dy (hradius dy).1 (hradius dy).2 hx hz
  simpa using hq

theorem near_diagonal (p : Pos) : p.Near 1 ((p.east 1).south 1) :=
  (p.near_shift 0 (by decide) (by decide) : p.Near 1 (p.shift 1 0 1))

theorem near_square (p : Pos) : ∀ q ∈ square p, p.Near 1 q := by
  simp [square, p.near_east, p.near_south, near_diagonal p]

theorem near_ring (p : Pos) : ∀ q ∈ ring p, p.Near 1 q := by
  simp [ring, p.near_east, p.near_south, near_diagonal p]

theorem bent_bend {p : Pos} {t : Trunk} (ht : Bent 2 p ⟨t.x, p.y, t.z⟩ t.bends) (f : Face)
    (start dy : Int32) :
    Bent 2 p ⟨(t.bend f.delta start dy).x, p.y, (t.bend f.delta start dy).z⟩
      (t.bend f.delta start dy).bends := by
  rw [Trunk.bend]
  split
  · rename_i hbend
    exact ht.step hbend.2 f
  · exact ht

theorem near_trunkLayer {p : Pos} {t : Trunk} (ht : Bent 2 p ⟨t.x, p.y, t.z⟩ t.bends) (f : Face)
    (start dy : Int32) :
    (trunkLayer p f.delta start t dy).Only (Act.In (p.Near 3)) ∧
      ∀ u, (trunkLayer p f.delta start t dy).Returns u → Bent 2 p ⟨u.x, p.y, u.z⟩ u.bends := by
  have hbent := bent_bend ht f start dy
  rw [trunkLayer]
  generalize t.bend f.delta start dy = bent at hbent
  have hq : p.Near 2 ⟨bent.x, p.y + dy, bent.z⟩ := hbent.near
  constructor
  · have hsquare : ∀ u ∈ square ⟨bent.x, p.y + dy, bent.z⟩, p.Near 3 u :=
      fun u hu => hq.trans (near_square _ u hu)
    simp +contextual [hq.mono, hsquare]
  · intro u hu
    rw [Build.returns_bind] at hu
    obtain ⟨clear, -, hu⟩ := hu
    split at hu
    · obtain ⟨_, -, rfl⟩ := (Build.returns_bind ..).1 hu
      exact hbent
    · cases hu
      exact hbent

theorem near_trunk (p : Pos) (f : Face) (height start bends : Int32)
    (hbends : 0 ≤ bends ∧ bends ≤ 2) :
    ((Span.halfOpen 0 height).foldM (trunkLayer p f.delta start) ⟨p.x, p.z, bends⟩).Only
        (Act.In (p.Near 3)) ∧
      ∀ t, ((Span.halfOpen 0 height).foldM (trunkLayer p f.delta start)
        ⟨p.x, p.z, bends⟩).Returns t → ∀ y, p.Near 2 ⟨t.x, y, t.z⟩ := by
  obtain ⟨honly, hreturns⟩ := Build.foldM_span_invariant (a := ⟨p.x, p.z, bends⟩)
    (fun t ht dy _ => near_trunkLayer ht f start dy) (Bent.straight p hbends)
  exact ⟨honly, fun t ht y => (hreturns t ht).near⟩

theorem near_quarterLeaves (c : Pos) {dx dz : Int32} (hx : dx ∈ (Span.closed (-2) 0).toList)
    (hz : dz ∈ (Span.closed (-2) 0).toList) :
    (quarterLeaves c dx dz).Only (Act.In (c.Near 3)) := by
  -- the quarters mirror each other at the middle of the trunk, so `d` goes to `1 - d`
  have hmirror (a d : Int32) : 1 + a - d = a + (1 - d) := by grind
  have hsmall (d : Int32) (hd : d ∈ (Span.closed (-2) 0).toList) :
      d.toInt.natAbs ≤ 3 ∧ (1 - d).toInt.natAbs ≤ 3 := by
    rw [Span.mem_closed] at hd
    exact ⟨natAbs_toInt_le (k := 3) (by lia) (by lia), natAbs_toInt_le (k := 3) (by lia) (by lia)⟩
  have hx := hsmall dx hx
  have hz := hsmall dz hz
  simp only [quarterLeaves, Build.only_bind, only_placeLeaf_in, Pos.Near, hmirror, gap_add, hx, hz,
    and_self, implies_true]

theorem near_sideLayers (top : Pos) : (sideLayers top).Only (Act.In (top.Near 3)) := by
  simp only [sideLayers, Build.only_forSquare]
  intro dx hx dz hz
  refine .bind (near_quarterLeaves (top.down 1) hx hz) fun _ => .ite ?_ (.done ())
  exact near_quarterLeaves (top.up 1) hx hz

theorem near_middleLayer (top : Pos) : (middleLayer top).Only (Act.In (top.Near 4)) := by
  simp only [middleLayer, Build.only_forSquare]
  intro dx hx dz hz
  have hq : top.Near 4 (top.shift dx 0 dz) := top.near_shift 0
    (Span.natAbs_toInt_le_of_mem_closed 4 (by decide) (by decide) hx)
    (Span.natAbs_toInt_le_of_mem_closed 4 (by decide) (by decide) hz)
  simp [hq]

theorem near_logLeaves (c : Pos) : (logLeaves c).Only (Act.In (c.Near 2)) := by
  refine .bind ?_ fun _ => ?_
  · rw [Build.only_forOffsets]
    intro dx hx dz hz
    have hq : c.Near 2 (c.shift dx 0 dz) :=
      c.near_shift_of_mem_square (s := 1) (k := 2) 0 (by decide) (by decide) hx hz
    simpa using hq
  · rw [Build.only_forOffsets]
    intro dx hx dz hz
    have hq : c.Near 2 (c.shift dx (-1) dz) :=
      c.near_shift_of_mem_square (s := 2) (k := 2) (-1) (by decide) (by decide) hx hz
    simp [hq]

theorem near_hang {p top : Pos} (htop : p.Near 2 top) {dx dz : Int32}
    (hx : dx ∈ (Span.closed (-1) 2).toList) (hz : dz ∈ (Span.closed (-1) 2).toList) :
    (hang p top dx dz).Only (Act.In (p.Near 6)) := by
  have hx : dx.toInt.natAbs ≤ 2 :=
    Span.natAbs_toInt_le_of_mem_closed 2 (by decide) (by decide) hx
  have hz : dz.toInt.natAbs ≤ 2 :=
    Span.natAbs_toInt_le_of_mem_closed 2 (by decide) (by decide) hz
  have hlog (y : Int32) : p.Near 6 ⟨p.x + dx, y, p.z + dz⟩ :=
    (p.near_shift 0 hx hz : p.Near 2 (p.shift dx 0 dz)).mono (by decide)
  have hleaves : (logLeaves (top.shift dx 0 dz)).Only (Act.In (p.Near 6)) :=
    (near_logLeaves _).near_trans (htop.trans (top.near_shift 0 hx hz))
  simp [hang, hlog, hleaves]

theorem near_build (p : Pos) : (build p).Only (Act.In (p.Near 6)) := by
  refine .bind (by simp) fun first => .bind (by simp) fun second => .ite (.done false) ?_
  refine .bind (by simp) fun soil => .ite ?_ (.done false)
  refine .bind ((near_isClear p _).near_mono (by decide)) fun clear => .ite ?_ (.done false)
  have hsquare : ∀ q ∈ square (p.down 1), p.Near 6 q :=
    fun q hq => (near_square (p.down 1) q hq).mono (by decide)
  refine .bind (by simpa using hsquare) fun _ => .bind (by simp) fun side => ?_
  refine .bind (by simp) fun late => .draw (by decide) fun straight hstraight => ?_
  obtain ⟨honly, hreturns⟩ := near_trunk p (.ofHorizontal side) (first + second + 6)
    (first + second + 6 - late) (2 - straight) (by lia)
  refine .bind_of ⟨honly.near_mono (by decide), hreturns⟩ fun t ht => ?_
  generalize hy : p.y + (first + second + 6) - 1 = y
  have htop : p.Near 2 ⟨t.x, y, t.z⟩ := ht y
  have hring : ∀ q ∈ ring (Pos.up ⟨t.x, y, t.z⟩ 2), p.Near 6 q :=
    fun q hq => (htop.trans (near_ring (Pos.up ⟨t.x, y, t.z⟩ 2) q hq)).mono (by decide)
  refine .bind (((near_sideLayers _).near_trans htop).near_mono (by decide)) fun _ => ?_
  refine .bind (by simp) fun leafy => .ite (.bind (by simpa using hring) fun _ => ?_) ?_
  -- the rest of the canopy is the same with the ring and without it
  all_goals
    refine .bind ((near_middleLayer _).near_trans htop) fun _ => .bind ?_ fun _ => .done true
    rw [Build.only_forSquare]
    exact fun dx hx dz hz => near_hang htop hx hz

end DarkOak

namespace SwampOak

theorem near_sink (p : Pos) (n : Nat) :
    (sink p n).Only (Act.In (p.Near 4)) ∧ ∀ q, (sink p n).Returns q → q.x = p.x ∧ q.z = p.z := by
  induction n generalizing p with
  | zero =>
      refine ⟨.done p, fun q hq => ?_⟩
      cases hq
      exact ⟨rfl, rfl⟩
  | succ n ih =>
      obtain ⟨honly, hreturns⟩ := ih (p.down 1)
      rw [Pos.down_near] at honly
      refine ⟨by simp [sink, honly], fun q hq => ?_⟩
      rw [sink, Build.returns_bind] at hq
      obtain ⟨id, -, hq⟩ := hq
      split at hq
      · exact hreturns q hq
      · cases hq
        exact ⟨rfl, rfl⟩

theorem clearRadius_range (p : Pos) (height y : Int32) :
    0 ≤ clearRadius p height y ∧ clearRadius p height y ≤ 3 := by
  rw [clearRadius]
  split
  · decide
  · split <;> decide

theorem near_isClear (p : Pos) (height : Int32) :
    (isClear p height).Only (Act.In (p.Near 3)) := by
  refine Build.Only.allM_span fun y _ => ?_
  split
  · obtain ⟨hlow, hhigh⟩ := clearRadius_range p height y
    refine Build.Only.allSquare fun x hx z hz => ?_
    have hq : p.Near 3 ⟨x, y, z⟩ := Pos.near_of_mem_square y hlow hhigh hx hz
    simp [hasRoom, hq]
  · exact .done false

theorem near_crownLayer (p : Pos) {top y : Int32} (hy : y ∈ (Span.closed (top - 3) top).toList) :
    (crownLayer p top y).Only (Act.In (p.Near 3)) := by
  obtain ⟨hlow, hhigh⟩ := SmallTree.crownRadius_range 2 (by decide) hy
  simp only [crownLayer, Build.only_forOffsets]
  intro dx hx dz hz
  have hq : p.Near 3 ⟨p.x + dx, y, p.z + dz⟩ :=
    p.near_shift_of_mem_square (k := 3) 0 hlow hhigh hx hz
  simp [SmallTree.hasLeaf, hq]

theorem near_extendVine {c p : Pos} {r : Nat} (hp : c.Near r p) (data : UInt8) (n : Nat) :
    (extendVine data p n).Only (Act.In (c.Near r)) := by
  induction n generalizing p with
  | zero => exact .done ()
  | succ n ih =>
      have hrest := ih (p := p.down 1) hp
      simp [extendVine, hp, hrest]

theorem near_vineLayer (p : Pos) {top y : Int32} (hy : y ∈ (Span.closed (top - 3) top).toList) :
    (vineLayer p top y).Only (Act.In (p.Near 4)) := by
  obtain ⟨hlow, hhigh⟩ := SmallTree.crownRadius_range 2 (by decide) hy
  simp only [vineLayer, Build.only_forSquare]
  intro x hx z hz
  have hleaf : p.Near 3 ⟨x, y, z⟩ := Pos.near_of_mem_square y hlow hhigh hx hz
  have hvine (f : Face) : p.Near 4 (Pos.offset ⟨x, y, z⟩ f 1) :=
    hleaf.trans (Pos.near_offset _ f)
  simp [vineBeside, hangVine, hleaf.mono, hvine, near_extendVine]

theorem near_build (origin : Pos) : (build origin).Only (Act.In (origin.Near 4)) := by
  refine .bind (by simp) fun height => .bind_of (near_sink origin _) fun p hp => ?_
  rw [← Pos.near_congr hp.1 hp.2]
  refine .ite (.done false) ?_
  refine .bind ((near_isClear p _).near_mono (by decide)) fun clear => .ite ?_ (.done false)
  refine .bind (by simp) fun soil => .ite (.ite (.done false) ?_) (.done false)
  refine .bind (by simp) fun _ => .bind ?_ fun _ => .bind (near_growTrunk ..) fun _ => ?_
  · rw [Build.only_forM_span]
    exact fun y hy => (near_crownLayer p hy).near_mono (by decide)
  · refine .bind ?_ fun _ => .done true
    rw [Build.only_forM_span]
    exact fun y hy => near_vineLayer p hy

end SwampOak

namespace JungleTree

theorem near_hang {c : Pos} {r : Nat} {x z : Int32} (h : ∀ y, c.Near r ⟨x, y, z⟩) (data : UInt8)
    (y : Int32) (n : Nat) : (hang data x y z n).Only (Act.In (c.Near r)) := by
  induction n generalizing y with
  | zero => exact .done ()
  | succ n ih => simp [hang, h, ih]

theorem near_sides (p : Pos) : ∀ side ∈ sides p, p.Near 1 side.1 := by
  simp [sides, p.near_west, p.near_east, p.near_north, p.near_south]

theorem near_trunkLayer (t : JungleTree) (base : Pos) (dy : Int32) :
    (t.trunkLayer base dy).Only (Act.In (base.Near 2)) := by
  refine .bind (by simp) fun _ => .ite ?_ (.done ())
  rw [List.forM_eq_forM, Build.only_forM]
  rintro ⟨q, f⟩ hq
  have hside : base.Near 2 q := (near_sides _ _ hq).mono (by decide)
  simp [tryVine, hside]

theorem near_crownLayer (t : JungleTree) (p : Pos) {top y : Int32}
    (hy : y ∈ (Span.closed (top - 3) top).toList) :
    (t.crownLayer p top y).Only (Act.In (p.Near 2)) := by
  obtain ⟨hlow, hhigh⟩ := SmallTree.crownRadius_range 1 (by decide) hy
  simp only [crownLayer, Build.only_forOffsets]
  intro dx hx dz hz
  have hq (y : Int32) : p.Near 2 ⟨p.x + dx, y, p.z + dz⟩ :=
    p.near_shift_of_mem_square (k := 2) 0 hlow hhigh hx hz
  simp [hasLeaf, placeLeaf, vineBelow, hq, near_hang]

theorem near_build (t : JungleTree) (p : Pos) : (t.build p).Only (Act.In (p.Near 2)) := by
  refine .bind (by simp) fun extra => .bind (Ground.near_below ..) fun ground => ?_
  cases ground with
  | none => exact .done false
  | some y =>
      have htrunk (dy : Int32) : (t.trunkLayer ⟨p.x, y, p.z⟩ dy).Only (Act.In (p.Near 2)) :=
        t.near_trunkLayer ⟨p.x, y, p.z⟩ dy
      simp +contextual [near_crownLayer, htrunk]

end JungleTree

theorem JungleBush.near_build (b : JungleBush) (p : Pos) :
    (b.build p).Only (Act.In (p.Near 2)) := by
  refine .bind_of ⟨(Build.near_sink p _).1.near_mono (by decide), (Build.near_sink p _).2⟩
    fun soil hsoil => ?_
  rw [← Pos.near_congr hsoil.1 hsoil.2]
  refine .bind (by simp) fun _ => .ite ?_ (.done false)
  refine .bind (by simp) fun _ => .bind (by simp) fun _ => .bind ?_ fun _ => .done true
  rw [Build.only_forM_span]
  intro dy hdy
  rw [Span.mem_closed] at hdy
  rw [mound, Build.only_forOffsets]
  intro dx hx dz hz
  have hq : soil.Near 2 ((soil.up 1).shift dx dy dz) :=
    (soil.up 1).near_shift_of_mem_square (k := 2) dy (by lia) (by lia) hx hz
  simp [hq]

namespace GiantPine

variable {C : Pos → Prop}

theorem near_columns (p : Pos) (dy : Int32) :
    ∀ column ∈ columns, p.Near 1 (p.shift column.1 dy column.2) := by
  simp only [columns, List.forall_mem_cons, List.not_mem_nil, false_imp_iff, implies_true, and_true]
  exact ⟨p.near_shift dy (by decide) (by decide), p.near_shift dy (by decide) (by decide),
    p.near_shift dy (by decide) (by decide), p.near_shift dy (by decide) (by decide)⟩

theorem near_spreadPodzol (base : Pos) : (spreadPodzol base).Only (Act.In (base.Near 4)) := by
  refine .draw (by decide) fun u hu => ?_
  rw [Build.only_forSquare]
  intro dx hx dz hz
  have hq : base.Near 4 ⟨base.x + dx, base.y - 1, base.z + dz⟩ := base.near_shift 0
    (Span.natAbs_toInt_le_of_mem_closed 4 (by lia) (by lia) hx)
    (Span.natAbs_toInt_le_of_mem_closed 4 (by lia) (by lia) hz)
  simp [hq]

theorem near_trunkLayer (base : Pos) (dy : Int32) :
    (trunkLayer base dy).Only (Act.In (base.Near 4)) := by
  rw [trunkLayer, List.forM_eq_forM, Build.only_forM]
  rintro ⟨dx, dz⟩ hcolumn
  have hq := near_columns base dy _ hcolumn
  simp [hq.mono]

theorem crownRadius_range (fromTop : Int32) :
    (crownRadius fromTop).Only (Act.In C) ∧
      ∀ r, (crownRadius fromTop).Returns r → 0 ≤ r ∧ r ≤ 3 := by
  rw [crownRadius]
  split
  · refine ⟨.done 0, fun r hr => ?_⟩
    cases hr
    decide
  · split
    · refine ⟨.done _, fun r hr => ?_⟩
      have hcases : fromTop = 2 ∨ fromTop = 3 ∨ fromTop = 4 ∨ fromTop = 5 := by lia
      cases hr
      rcases hcases with h | h | h | h <;> rw [h] <;> decide
    · refine ⟨by simp, fun r hr => ?_⟩
      simp only [Build.returns_bind, Build.returns_bounded] at hr
      obtain ⟨u, hu, rfl⟩ := hr
      have hrange := hu.1 (by decide)
      lia

theorem near_crownLayer (p : Pos) (top y : Int32) :
    (crownLayer p top y).Only (Act.In (p.Near 4)) := by
  refine .bind_of (crownRadius_range (top - y)) fun r hr => ?_
  have hsmall (c x : Int32) (hx : x ∈ (Span.closed (c - r) (c + 1 + r)).toList) : gap c x ≤ 4 := by
    rw [Int32.sub_eq_add_neg, Int32.add_assoc] at hx
    have hx := Span.sub_range_of_mem_closed (by lia) hx
    exact gap_le (k := 4) (by lia) (by lia)
  rw [Build.only_forSquare]
  intro x hx z hz
  have hq : p.Near 4 ⟨x, y, z⟩ := ⟨hsmall p.x x hx, hsmall p.z z hz⟩
  simp [hq]

theorem near_build (t : GiantPine) (p : Pos) : (t.build p).Only (Act.In (p.Near 4)) := by
  refine .bind (Ground.near_below ..) fun ground => ?_
  cases ground with
  | none => exact .done false
  | some y =>
      have hbase (r : Nat) : Pos.Near r ⟨p.x, y, p.z⟩ = p.Near r := p.mk_near y
      have hsoils : ∀ c ∈ columns, (Build.isIn soils (Pos.shift ⟨p.x, y, p.z⟩ c.1 (-1) c.2)).Only
          (Act.In (p.Near 4)) := fun c hc => by
        simpa [hbase] using (near_columns ⟨p.x, y, p.z⟩ (-1) c hc).mono (k := 4) (by decide)
      have htrunk (dy : Int32) : (trunkLayer ⟨p.x, y, p.z⟩ dy).Only (Act.In (p.Near 4)) :=
        near_trunkLayer ⟨p.x, y, p.z⟩ dy
      have hpodzol : (spreadPodzol ⟨p.x, y, p.z⟩).Only (Act.In (p.Near 4)) :=
        near_spreadPodzol ⟨p.x, y, p.z⟩
      simp [hpodzol, htrunk, near_crownLayer, Build.Only.allM hsoils]

end GiantPine

end VoxelFeatures
