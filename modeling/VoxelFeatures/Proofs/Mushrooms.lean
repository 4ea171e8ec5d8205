import VoxelFeatures.Feature.Basic
import VoxelFeatures.Proofs.LegalWrites
import VoxelFeatures.Proofs.Overgrowth
import VoxelFeatures.Proofs.Sweep

/-!
# Huge mushrooms are whole

A huge mushroom is painted cell by cell, first the cap and then the stem. `cells` lists
the cells with their textures. No cell comes twice, because the cap is open inside: below
its top it leaves out the very column of the stem. So no cell is blocked by one that was
painted before, and all the stem and the middle of the cap lie in the column that the check
has found clear.
-/

namespace VoxelFeatures

namespace Build

/-- Places one cell of a painting. -/
def brush (S : BlockSet) (id : BlockId) (c : Pos × UInt8) : Build Unit := replace S c.1 ⟨id, c.2⟩

/-- What painting some cells with blocks of one id has come to. -/
structure Painted (S : BlockSet) (id : BlockId) (cells : List (Pos × UInt8)) (s t : Site)
    (ws : List Write) : Prop where
  writes : t.journal.writes.toList = s.journal.writes.toList ++ ws
  order : (ws.map (·.pos)).Sublist (cells.map (·.1))
  each : ∀ w ∈ ws, (w.pos, w.block.data) ∈ cells ∧ w.block.id = id ∧ S.contains w.before.id
  kept : ∀ q, q ∉ ws.map (·.pos) → t.journal.idAt q = s.journal.idAt q
  settled : ∀ q b, q ∉ ws.map (·.pos) → Settled q b s.journal → Settled q b t.journal
  painted : ∀ c ∈ cells, c.1.inHeight → S.contains (s.journal.idAt c.1) →
    Settled c.1 ⟨id, c.2⟩ t.journal

section Painting

variable {S : BlockSet} {id : BlockId} {c : Pos × UInt8} {cells rest : List (Pos × UInt8)}
  {s t u : Site} {ws vs : List Write}

theorem Painted.mem_cells (h : Painted S id cells s t ws) {q : Pos}
    (hq : q ∈ ws.map (·.pos)) : ∃ c ∈ cells, c.1 = q :=
  List.mem_map.1 (h.order.subset hq)

/-- Two paintings that share no cell make one. -/
theorem Painted.append (h : Painted S id cells s t ws) (h' : Painted S id rest t u vs)
    (hapart : ∀ c ∈ cells, ∀ d ∈ rest, c.1 ≠ d.1) :
    Painted S id (cells ++ rest) s u (ws ++ vs) where
  writes := by rw [h'.writes, h.writes, List.append_assoc]
  order := by
    rw [List.map_append, List.map_append]
    exact h.order.append h'.order
  each := by
    refine List.forall_mem_append.2 ⟨fun w hw => ?_, fun w hw => ?_⟩
    · exact ⟨List.mem_append_left rest (h.each w hw).1, (h.each w hw).2⟩
    · exact ⟨List.mem_append_right cells (h'.each w hw).1, (h'.each w hw).2⟩
  kept q hq := by
    rw [List.map_append, List.mem_append, not_or] at hq
    rw [h'.kept q hq.2, h.kept q hq.1]
  settled q b hq hs := by
    rw [List.map_append, List.mem_append, not_or] at hq
    exact h'.settled q b hq.2 (h.settled q b hq.1 hs)
  painted := by
    refine List.forall_mem_append.2 ⟨fun c hc hin hfree => ?_, fun d hd hin hfree => ?_⟩
    · refine h'.settled c.1 _ (fun hmem => ?_) (h.painted c hc hin hfree)
      obtain ⟨d, hd, hsame⟩ := h'.mem_cells hmem
      exact hapart c hc d hd hsame.symm
    · refine h'.painted d hd hin ?_
      rwa [h.kept d.1 fun hmem => ?_]
      obtain ⟨c, hc, hsame⟩ := h.mem_cells hmem
      exact hapart c hc d hd hsame

theorem painted_nil (s : Site) : Painted S id [] s s [] :=
  ⟨by simp, by simp, by simp, fun _ _ => rfl, fun _ _ _ h => h, by simp⟩

theorem run_brush (S : BlockSet) (id : BlockId) (c : Pos × UInt8) (s : Site) :
    ((brush S id c).run s).2 =
      if S.contains (s.journal.idAt c.1) then s.place c.1 ⟨id, c.2⟩ false else s :=
  run_replace S c.1 ⟨id, c.2⟩ s

/-- Painting one cell. -/
theorem exists_painted_brush (hc : c.2 < 16) (s : Site) :
    ∃ ws, Painted S id [c] s ((brush S id c).run s).2 ws := by
  rw [run_brush]
  by_cases hpaint : S.contains (s.journal.idAt c.1) ∧ c.1.inHeight
  · obtain ⟨hfree, hin⟩ := hpaint
    rw [if_pos hfree]
    refine ⟨[⟨c.1, ⟨id, c.2⟩, false, s.journal.get c.1⟩], ⟨?_, by simp, ?_, ?_, ?_, ?_⟩⟩
    · exact s.writes_place hin _ false
    · simpa [← s.journal.idAt_eq] using hfree
    · intro q hq
      rw [s.idAt_place, if_neg fun hsame => hq (by simp [hsame.2])]
    · intro q b hq hs
      rw [s.journal_place hin]
      exact settles_settled q b s.journal c.1 _ false (fun hsame => hq (by simp [hsame])) hs
    · rintro d hd - -
      rw [List.mem_singleton.1 hd]
      exact s.settled_place_of_lt hin hc
  · have hsame :
        (if S.contains (s.journal.idAt c.1) then s.place c.1 ⟨id, c.2⟩ false else s) = s := by
      split
      · rename_i hfree
        have hout : c.1.inHeight = false :=
          Bool.eq_false_iff.2 fun hin => hpaint ⟨hfree, hin⟩
        exact s.place_of_not_inHeight hout _ false
      · rfl
    rw [hsame]
    refine ⟨[], by simp, by simp, by simp, fun _ _ => rfl, fun _ _ _ h => h, ?_⟩
    intro d hd hin hfree
    rw [List.mem_singleton.1 hd] at hin hfree
    exact absurd ⟨hfree, hin⟩ hpaint

/-- Painting cells that are all different. -/
theorem exists_painted (hdata : ∀ c ∈ cells, c.2 < 16)
    (horder : cells.Pairwise fun c d => c.1 ≠ d.1) (s : Site) :
    ∃ ws, Painted S id cells s ((forM cells (brush S id)).run s).2 ws := by
  induction cells generalizing s with
  | nil => exact ⟨[], painted_nil s⟩
  | cons c cells ih =>
      rw [List.forall_mem_cons] at hdata
      rw [List.pairwise_cons] at horder
      obtain ⟨ws, hfirst⟩ : ∃ ws, Painted S id [c] s ((brush S id c).run s).2 ws :=
        exists_painted_brush hdata.1 s
      obtain ⟨vs, hrest⟩ := ih hdata.2 horder.2 ((brush S id c).run s).2
      rw [List.forM_cons, run_bind]
      refine ⟨ws ++ vs, hfirst.append hrest ?_⟩
      rw [List.forall_mem_singleton]
      exact horder.1

end Painting

end Build

open Build

namespace HugeMushroom

variable {sp : Species} {p : Pos} {h : Int32}

/-! ## The cells of a mushroom -/

/-- The cells of the cap layer `y`, with their textures. -/
def layerCells (sp : Species) (p : Pos) (top y : Int32) : List (Pos × UInt8) :=
  (Span.around p.x (capRadius sp top y)).toList.flatMap fun x =>
    (Span.around p.z (capRadius sp top y)).toList.flatMap fun z =>
      (texture? sp top y (x - p.x) (z - p.z)).toList.map fun t => (⟨x, y, z⟩, t)

def capCells (sp : Species) (p : Pos) (h : Int32) : List (Pos × UInt8) :=
  (Span.closed (capBottom sp (p.y + h)) (p.y + h)).toList.flatMap (layerCells sp p (p.y + h))

def stemCells (p : Pos) (h : Int32) : List (Pos × UInt8) :=
  (Span.halfOpen 0 h).toList.map fun dy => (p.up dy, CapTexture.stem)

/-- The cells of a mushroom, in the order in which they are placed. -/
def cells (sp : Species) (p : Pos) (h : Int32) : List (Pos × UInt8) :=
  capCells sp p h ++ stemCells p h

theorem mem_layerCells {top y : Int32} {c : Pos × UInt8} :
    c ∈ layerCells sp p top y ↔ c.1.y = y ∧
      c.1.x ∈ (Span.around p.x (capRadius sp top y)).toList ∧
      c.1.z ∈ (Span.around p.z (capRadius sp top y)).toList ∧
      texture? sp top y (c.1.x - p.x) (c.1.z - p.z) = some c.2 := by
  obtain ⟨⟨x, y', z⟩, t⟩ := c
  simp only [layerCells, List.mem_flatMap, List.mem_map, Option.mem_toList, Prod.mk.injEq,
    Pos.mk.injEq]
  constructor
  · rintro ⟨x, hx, z, hz, t, ht, ⟨rfl, rfl, rfl⟩, rfl⟩
    exact ⟨rfl, hx, hz, ht⟩
  · rintro ⟨rfl, hx, hz, ht⟩
    exact ⟨x, hx, z, hz, t, ht, ⟨rfl, rfl, rfl⟩, rfl⟩

theorem mem_capCells {c : Pos × UInt8} :
    c ∈ capCells sp p h ↔ (capBottom sp (p.y + h) ≤ c.1.y ∧ c.1.y ≤ p.y + h) ∧
      c.1.x ∈ (Span.around p.x (capRadius sp (p.y + h) c.1.y)).toList ∧
      c.1.z ∈ (Span.around p.z (capRadius sp (p.y + h) c.1.y)).toList ∧
      texture? sp (p.y + h) c.1.y (c.1.x - p.x) (c.1.z - p.z) = some c.2 := by
  simp only [capCells, List.mem_flatMap, mem_layerCells, Span.mem_closed]
  constructor
  · rintro ⟨y, hy, rfl, hcell⟩
    exact ⟨hy, hcell⟩
  · rintro ⟨hy, hcell⟩
    exact ⟨c.1.y, hy, rfl, hcell⟩

theorem mem_stemCells {c : Pos × UInt8} :
    c ∈ stemCells p h ↔ ∃ dy, (0 ≤ dy ∧ dy < h) ∧ c = (p.up dy, CapTexture.stem) := by
  simp only [stemCells, List.mem_map, Span.mem_halfOpen]
  exact exists_congr fun dy => and_congr_right fun _ => eq_comm

/-- The cap and the stem are painted cell by cell. -/
theorem forM_cells (sp : Species) (p : Pos) (h : Int32) :
    (do
      (Span.closed (capBottom sp (p.y + h)) (p.y + h)).forM (capLayer sp p (p.y + h))
      (Span.halfOpen 0 h).forM fun dy =>
        replace overridable (p.up dy) ⟨sp.block, CapTexture.stem⟩ : Build Unit) =
      forM (cells sp p h) (brush overridable sp.block) := by
  have hlayer (top y : Int32) :
      capLayer sp p top y = forM (layerCells sp p top y) (brush overridable sp.block) := by
    simp only [capLayer, layerCells, forSquare, Span.forM_eq, List.forM_eq_forM, forM_flatMap]
    congr
    funext x
    congr
    funext z
    cases texture? sp top y (x - p.x) (z - p.z) with
    | none => rfl
    | some t => exact (bind_done (brush overridable sp.block (⟨x, y, z⟩, t))).symm
  simp only [cells, capCells, stemCells, List.forM_append, forM_flatMap, Span.forM_eq,
    List.forM_eq_forM, List.forM_map, funext (hlayer _), brush]

/-! ## Textures -/

theorem sideTexture_range (r dx dz : Int32) :
    1 ≤ sideTexture r dx dz ∧ sideTexture r dx dz ≤ 9 := by
  simp only [sideTexture]
  repeat' split
  all_goals decide

theorem cutTexture_range (r dx dz : Int32) : 1 ≤ cutTexture r dx dz ∧ cutTexture r dx dz ≤ 9 := by
  simp only [cutTexture]
  repeat' split
  case isFalse => exact sideTexture_range ..
  all_goals decide

theorem texture_range {top y dx dz : Int32} {t : UInt8}
    (ht : texture? sp top y dx dz = some t) : 1 ≤ t ∧ t ≤ 9 := by
  simp only [texture?] at ht
  split at ht
  · cases ht
  · split at ht <;> split at ht
    · cases ht
    · cases ht
      exact cutTexture_range ..
    · cases ht
    · cases ht
      exact sideTexture_range ..

/-- In the column of the stem the cap has its top cell. -/
theorem texture_top (sp : Species) (top : Int32) :
    texture? sp top top 0 0 = some CapTexture.center := by
  have htop : ¬top < top := Int32.lt_irrefl
  cases sp with
  | brown =>
      have hcut : isCorner 3 0 0 = false ∧ cutTexture 3 0 0 = CapTexture.center := by decide
      simp [texture?, capRadius, isCut, htop, hcut]
  | red =>
      have hside : sideTexture 1 0 0 = CapTexture.center := by decide
      simp [texture?, capRadius, isCut, htop, hside]

/-- And no other. -/
theorem texture_open {top y : Int32} {t : UInt8} (hy : capBottom sp top ≤ y ∧ y ≤ top)
    (ht : texture? sp top y 0 0 = some t) : y = top := by
  cases sp with
  | brown => exact Int32.le_antisymm hy.2 hy.1
  | red =>
      by_contra hne
      have hlt : y < top := Int32.lt_of_le_of_ne hy.2 hne
      have hcut : isCorner 2 0 0 = false ∧ cutTexture 2 0 0 = CapTexture.center := by decide
      simp [texture?, capRadius, isCut, hlt, hcut] at ht

/-! ## The cells do not meet -/

theorem pairwise_layerCells (sp : Species) (p : Pos) (top y : Int32) :
    (layerCells sp p top y).Pairwise fun c d => c.1 ≠ d.1 := by
  refine List.pairwise_flatMap.2 ⟨fun x _ => List.pairwise_flatMap.2 ⟨fun z _ => ?_, ?_⟩, ?_⟩
  · cases texture? sp top y (x - p.x) (z - p.z) with
    | none => exact .nil
    | some t => exact List.pairwise_singleton ..
  · refine (Span.pairwise_closed _ _).imp fun {z z'} hlt c hc d hd hsame => ?_
    obtain ⟨t, -, rfl⟩ := List.mem_map.1 hc
    obtain ⟨t', -, rfl⟩ := List.mem_map.1 hd
    cases hsame
    exact Int32.lt_irrefl hlt
  · refine (Span.pairwise_closed _ _).imp fun {x x'} hlt c hc d hd hsame => ?_
    simp only [List.mem_flatMap, List.mem_map] at hc hd
    obtain ⟨z, -, t, -, rfl⟩ := hc
    obtain ⟨z', -, t', -, rfl⟩ := hd
    cases hsame
    exact Int32.lt_irrefl hlt

theorem pairwise_capCells (sp : Species) (p : Pos) (h : Int32) :
    (capCells sp p h).Pairwise fun c d => c.1 ≠ d.1 := by
  refine List.pairwise_flatMap.2 ⟨fun y _ => pairwise_layerCells sp p _ y, ?_⟩
  refine (Span.pairwise_closed _ _).imp fun {y y'} hlt c hc d hd hsame => ?_
  rw [← (mem_layerCells.1 hc).1, ← (mem_layerCells.1 hd).1, hsame] at hlt
  exact Int32.lt_irrefl hlt

theorem pairwise_cells (sp : Species) (p : Pos) (h : Int32) :
    (cells sp p h).Pairwise fun c d => c.1 ≠ d.1 := by
  refine List.pairwise_append.2 ⟨pairwise_capCells sp p h, ?_, fun c hc d hd hsame => ?_⟩
  · refine List.pairwise_map.2 ((Span.pairwise_halfOpen 0 h).imp fun {dy dy'} hlt hsame => ?_)
    have hdy : dy = dy' := (Int32.add_right_inj p.y).1 (congrArg Pos.y hsame)
    exact Int32.lt_irrefl (hdy ▸ hlt)
  · obtain ⟨dy, hdy, rfl⟩ := mem_stemCells.1 hd
    obtain ⟨hy, -, -, ht⟩ := mem_capCells.1 hc
    rw [hsame] at hy ht
    simp only [Pos.up, Int32.sub_self] at ht
    have htop : p.y + dy = p.y + h := texture_open hy ht
    have hdy' : dy = h := (Int32.add_right_inj p.y).1 htop
    exact Int32.lt_irrefl (hdy' ▸ hdy.2)

theorem data_of_mem_cells {c : Pos × UInt8} (hc : c ∈ cells sp p h) : 1 ≤ c.2 ∧ c.2 ≤ 10 := by
  rcases List.mem_append.1 hc with hcap | hstem
  · have hrange := texture_range (mem_capCells.1 hcap).2.2.2
    exact ⟨hrange.1, UInt8.le_trans hrange.2 (by decide)⟩
  · obtain ⟨dy, -, rfl⟩ := mem_stemCells.1 hstem
    exact (by decide : 1 ≤ CapTexture.stem ∧ CapTexture.stem ≤ 10)

/-! ## Whole mushrooms -/

/-- How far the cap reaches from the stem. -/
def reach : Species → Int32
  | .brown => 3
  | .red => 2

/-- The box of a mushroom: from its origin to its top, as far around as the cap reaches. -/
structure InBox (sp : Species) (p : Pos) (h : Int32) (q : Pos) : Prop where
  x : p.x - reach sp ≤ q.x ∧ q.x ≤ p.x + reach sp
  y : p.y ≤ q.y ∧ q.y ≤ p.y + h
  z : p.z - reach sp ≤ q.z ∧ q.z ≤ p.z + reach sp

theorem capRadius_le_reach (sp : Species) (top y : Int32) :
    0 ≤ capRadius sp top y ∧ capRadius sp top y ≤ reach sp ∧ reach sp ≤ 3 := by
  cases sp with
  | brown => exact (by decide : (0 : Int32) ≤ 3 ∧ (3 : Int32) ≤ 3 ∧ (3 : Int32) ≤ 3)
  | red =>
      rw [capRadius, reach]
      split <;> decide

/-- From four to six, or twice that. -/
theorem height_mem (hreturns : height.Returns h) : h ∈ ([4, 5, 6, 8, 10, 12] : List Int32) := by
  simp only [height, returns_bind, returns_bounded, Draw.Allows] at hreturns
  obtain ⟨u, ⟨hu, -⟩, v, -, hresult⟩ := hreturns
  have hu := hu (by decide)
  have hcases : u = 0 ∨ u = 1 ∨ u = 2 := by lia
  split at hresult
  all_goals
    obtain rfl : h = _ := hresult
    obtain rfl | rfl | rfl := hcases <;> decide

/-- The column of the origin is clear to above the cap. -/
theorem clear_of_isClear {s : Site} (hroom : p.HasRoom 3)
    (hclear : ((isClear p h).run s).1 = true) {y : Int32} (hy : p.y ≤ y ∧ y ≤ p.y + h + 1) :
    clearance.contains (s.journal.idAt ⟨p.x, y, p.z⟩) := by
  have hcell (x z : Int32) : (isIn clearance ⟨x, y, z⟩).Only Act.Looks := by simp
  let r : Int32 := if y ≤ p.y + 3 then 0 else 3
  have hr : 0 ≤ r ∧ r ≤ 3 := by
    simp only [r]
    split <;> decide
  have hfits := hroom.mono hr.1 hr.2
  have hlayer : ((allSquare (.around p.x r) (.around p.z r) fun x z =>
      isIn clearance ⟨x, y, z⟩).run s).1 = true :=
    run_allM_span_true (fun y _ => .allSquare fun x _ z _ => by simp) hclear y
      (Span.mem_closed.2 hy)
  have hrow := run_allM_span_true (fun x _ => .allM_span fun z _ => hcell x z) hlayer p.x
    (hfits.x.mem_around_self hr.1)
  exact run_allM_span_true (fun z _ => hcell p.x z) hrow p.z (hfits.z.mem_around_self hr.1)

/-- What a built mushroom has come to. -/
structure Whole (sp : Species) (p : Pos) (h : Int32) (s t : Site) : Prop where
  stem : ∀ dy, 0 ≤ dy → dy < h → t.journal.get (p.up dy) = ⟨sp.block, CapTexture.stem⟩
  top : t.journal.get (p.up h) = ⟨sp.block, CapTexture.center⟩
  writes : ∃ ws, t.journal.writes.toList = s.journal.writes.toList ++ ws ∧
    (ws.map (·.pos)).Nodup ∧
    (∀ w ∈ ws, overridable.contains w.before.id ∧ w.block.id = sp.block ∧
      (1 ≤ w.block.data ∧ w.block.data ≤ 10) ∧ InBox sp p h w.pos) ∧
    ∀ q, q ∉ ws.map (·.pos) → t.journal.idAt q = s.journal.idAt q
  kept : ∀ q, ¬InBox sp p h q → t.journal.idAt q = s.journal.idAt q
  soil : t.journal.idAt (p.down 1) = s.journal.idAt (p.down 1)

/-- The mushroom stands within the height of the world. -/
structure Stands (p : Pos) (h : Int32) : Prop where
  origin : 1 ≤ p.y ∧ p.y ≤ 250
  height : 4 ≤ h ∧ h ≤ 12
  top : p.y + h ≤ 254

/-- A mushroom on a soil stands within the height, as its layers do not wrap then. -/
theorem stands_of_soil {s : Site} (hh : h ∈ ([4, 5, 6, 8, 10, 12] : List Int32))
    (hrange : ¬(p.y < 1 ∨ 256 ≤ p.y + h + 1)) (hsoil : soils.contains (s.journal.idAt (p.down 1))) :
    Stands p h := by
  have hin : (p.down 1).inHeight := s.journal.inHeight_of_idAt_ne fun hair => by
    rw [hair] at hsoil
    exact absurd hsoil (by decide)
  rw [Pos.inHeight_iff] at hin
  simp only [Pos.down] at hin
  have htall : 4 ≤ h ∧ h ≤ 12 := by
    simp only [List.mem_cons, List.not_mem_nil, or_false] at hh
    obtain rfl | rfl | rfl | rfl | rfl | rfl := hh <;> decide
  rw [not_or] at hrange
  exact ⟨by lia, htall, by lia⟩

theorem inBox_of_mem_cells (hroom : p.HasRoom 3) (hstands : Stands p h)
    {c : Pos × UInt8} (hc : c ∈ cells sp p h) : InBox sp p h c.1 := by
  obtain ⟨horigin, hheight, -⟩ := hstands
  have hreach (y : Int32) := capRadius_le_reach sp (p.y + h) y
  have hwide := hroom.mono (Int32.le_trans (hreach 0).1 (hreach 0).2.1) (hreach 0).2.2
  rcases List.mem_append.1 hc with hcap | hstem
  · obtain ⟨hy, hx, hz, -⟩ := mem_capCells.1 hcap
    have hbottom : p.y ≤ capBottom sp (p.y + h) := by
      cases sp with
      | brown => simp only [capBottom]; lia
      | red => simp only [capBottom]; lia
    exact ⟨hwide.x.bounds_of_mem_around (hreach _).1 (hreach _).2.1 hx,
      ⟨Int32.le_trans hbottom hy.1, hy.2⟩,
      hwide.z.bounds_of_mem_around (hreach _).1 (hreach _).2.1 hz⟩
  · obtain ⟨dy, hdy, rfl⟩ := mem_stemCells.1 hstem
    have hwider : 0 ≤ reach sp := Int32.le_trans (hreach 0).1 (hreach 0).2.1
    refine ⟨?_, ?_, ?_⟩
    · exact hwide.x.bounds_of_mem_around hwider (Int32.le_refl _) (hwide.x.mem_around_self hwider)
    · simp only [Pos.up]
      lia
    · exact hwide.z.bounds_of_mem_around hwider (Int32.le_refl _) (hwide.z.mem_around_self hwider)

/-- Over a clear column the painting makes a whole mushroom. -/
theorem whole_of_clear {s t : Site} {ws : List Write} (hroom : p.HasRoom 3)
    (hstands : Stands p h)
    (hclear : ∀ y, p.y ≤ y ∧ y ≤ p.y + h + 1 → clearance.contains (s.journal.idAt ⟨p.x, y, p.z⟩))
    (hpainted : Painted overridable sp.block (cells sp p h) s t ws) : Whole sp p h s t := by
  have hbox (q : Pos) (hq : q ∈ ws.map (·.pos)) : InBox sp p h q := by
    obtain ⟨c, hc, rfl⟩ := hpainted.mem_cells hq
    exact inBox_of_mem_cells hroom hstands hc
  obtain ⟨horigin, hheight, htop⟩ := hstands
  have hcolumn {dy : Int32} {t' : UInt8} (hdy : 0 ≤ dy ∧ dy ≤ h)
      (hc : (p.up dy, t') ∈ cells sp p h) : t.journal.get (p.up dy) = ⟨sp.block, t'⟩ := by
    refine (hpainted.painted _ hc ?_ ?_).2
    · rw [Pos.inHeight_iff, Pos.up]
      lia
    · exact BlockSet.contains_mono (by decide) (hclear (p.y + dy) (by lia))
  have hkept (q : Pos) (hq : ¬InBox sp p h q) : t.journal.idAt q = s.journal.idAt q :=
    hpainted.kept q fun hmem => hq (hbox q hmem)
  have hsoil : ¬InBox sp p h (p.down 1) := fun hin => by
    have hup : p.y ≤ p.y - 1 := hin.y.1
    lia
  refine ⟨fun dy hzero hdy => ?_, ?_, ⟨ws, hpainted.writes, ?_, fun w hw => ?_, hpainted.kept⟩,
    hkept, hkept _ hsoil⟩
  · exact hcolumn ⟨hzero, Int32.le_of_lt hdy⟩
      (List.mem_append_right _ (mem_stemCells.2 ⟨dy, ⟨hzero, hdy⟩, rfl⟩))
  · refine hcolumn ⟨by lia, Int32.le_refl h⟩ (List.mem_append_left _ (mem_capCells.2 ?_))
    have hradius := (capRadius_le_reach sp (p.y + h) (p.y + h))
    have hfits := hroom.mono hradius.1 (Int32.le_trans hradius.2.1 hradius.2.2)
    refine ⟨⟨?_, Int32.le_refl _⟩, hfits.x.mem_around_self hradius.1,
      hfits.z.mem_around_self hradius.1, ?_⟩
    · cases sp with
      | brown => exact Int32.le_refl _
      | red => simp only [capBottom, Pos.up]; lia
    · simp only [Pos.up, Int32.sub_self]
      exact texture_top sp _
  · exact hpainted.order.nodup (List.pairwise_map.2 (pairwise_cells sp p h))
  · obtain ⟨hcell, hid, hfree⟩ := hpainted.each w hw
    exact ⟨hfree, hid, data_of_mem_cells hcell, hbox w.pos (List.mem_map_of_mem hw)⟩

/-- Checks a place for a mushroom of known height, and paints it there. -/
def finish (sp : Species) (p : Pos) (h : Int32) : Build Bool := do
  if p.y < 1 ∨ 256 ≤ p.y + h + 1 then return false
  unless ← isClear p h do return false
  unless ← isIn soils (p.down 1) do return false
  forM (cells sp p h) (brush overridable sp.block)
  return true

theorem build_eq (k : MushroomKind) (p : Pos) :
    build k p = species k >>= fun sp => height >>= finish sp p := by
  refine congrArg (species k >>= ·) (funext fun sp => ?_)
  refine congrArg (height >>= ·) (funext fun h => ?_)
  simp only [finish, ← forM_cells, bind_assoc]

theorem whole_of_finish {s : Site} (hroom : p.HasRoom 3)
    (hh : h ∈ ([4, 5, 6, 8, 10, 12] : List Int32)) (hbuilt : ((finish sp p h).run s).1 = true) :
    Whole sp p h s ((finish sp p h).run s).2 := by
  have hclear : (isClear p h).Only Act.Looks :=
    .allM_span fun y _ => .allSquare fun x _ z _ => by simp
  have hsoil : (isIn soils (p.down 1)).Only Act.Looks := by simp
  have hdata : ∀ c ∈ cells sp p h, c.2 < 16 := fun c hc =>
    UInt8.lt_of_le_of_lt (data_of_mem_cells hc).2 (by decide)
  obtain ⟨ws, hpainted⟩ := exists_painted (S := overridable) hdata (pairwise_cells sp p h) s
  rw [finish] at hbuilt ⊢
  split at hbuilt
  · cases hbuilt
  rename_i hrange
  rw [if_neg hrange]
  rw [run_bind, hclear.run_looks] at hbuilt ⊢
  split at hbuilt
  · rename_i hpassed
    rw [if_pos hpassed]
    rw [run_bind, hsoil.run_looks] at hbuilt ⊢
    split at hbuilt
    · rename_i hrooted
      rw [if_pos hrooted, run_bind]
      exact whole_of_clear hroom (stands_of_soil hh hrange hrooted)
        (fun y hy => clear_of_isClear hroom hpassed hy) hpainted
    · cases hbuilt
  · cases hbuilt

/-- A huge mushroom that was built is whole. Its stem and the middle of its cap are there
in full. No cell was written twice, all writes lie within its box, and nothing else has
changed. -/
theorem built_mushroom_is_whole (k : MushroomKind) {p : Pos} (hroom : p.HasRoom 3) {s : Site}
    (hbuilt : ((build k p).run s).1 = true) :
    let kind := (species k).run s
    let tall := (height.run kind.2).1
    tall ∈ ([4, 5, 6, 8, 10, 12] : List Int32) ∧
      Whole kind.1 p tall s ((build k p).run s).2 := by
  intro kind tall
  have hjournal : (height.run kind.2).2.journal = s.journal :=
    (inspects_height.journal_run kind.2).trans ((inspects_species k).journal_run s)
  have htall : tall ∈ ([4, 5, 6, 8, 10, 12] : List Int32) := height_mem (returns_run height kind.2)
  have hrun : (build k p).run s = (finish kind.1 p tall).run (height.run kind.2).2 := by
    rw [build_eq, run_bind, run_bind]
  rw [hrun] at hbuilt ⊢
  have hwhole := whole_of_finish hroom htall hbuilt
  exact ⟨htall, hwhole.stem, hwhole.top, hjournal ▸ hwhole.writes, hjournal ▸ hwhole.kept,
    hjournal ▸ hwhole.soil⟩

/-- A brown mushroom on dirt. -/
theorem brown_mushroom_is_whole :
    let s : Site := ⟨.ofWorld (.ofLayers 0 [(.plain .dirt, 1)]), .ofSeed 1, #[]⟩
    let p : Pos := ⟨0, 1, 0⟩
    let tall := (height.run s).1
    p.HasRoom 3 ∧ ((build .brown p).run s).1 = true ∧
      tall ∈ ([4, 5, 6, 8, 10, 12] : List Int32) ∧
      Whole .brown p tall s ((build .brown p).run s).2 := by
  intro s p tall
  have hroom : p.HasRoom 3 := ⟨⟨by decide, by decide⟩, ⟨by decide, by decide⟩⟩
  have hbuilt : ((build .brown p).run s).1 = true := by decide +kernel
  exact ⟨hroom, hbuilt, built_mushroom_is_whole .brown hroom hbuilt⟩

end HugeMushroom

end VoxelFeatures
