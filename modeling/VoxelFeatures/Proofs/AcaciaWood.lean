import Mathlib.Combinatorics.SimpleGraph.Connectivity.Connected
import VoxelFeatures.Proofs.Lasting
import VoxelFeatures.Proofs.NearTrees
import VoxelFeatures.Proofs.Overgrowth

/-!
# An acacia is one piece of wood

The trunk of an acacia bends on its way up, and its second branch starts over from the
column of the origin. The logs of each come in a chain of cells that touch. The branch
starts in a layer below or at the first bend, one cell to the side, so its first log touches
a log of the straight part of the trunk. Nothing that is placed later replaces wood.
-/

namespace VoxelFeatures

/-! ## Cells that touch -/

/-- The cells are the same or neighbours, also across an edge or a corner. -/
def Pos.Touches (p q : Pos) : Prop := gap p.x q.x ≤ 1 ∧ gap p.y q.y ≤ 1 ∧ gap p.z q.z ≤ 1

theorem gap_comm (a b : Int32) : gap a b = gap b a := by
  have hneg : a - b = -(b - a) := by grind
  have hrange := toInt_range (b - a)
  rw [gap, gap, hneg, Int32.toInt_neg]
  simp only [Int.bmod]
  omega

theorem gap_add_one (a : Int32) : gap a (a + 1) = 1 := by
  rw [gap_add]
  decide

theorem Pos.Touches.symm {p q : Pos} (h : p.Touches q) : q.Touches p := by
  rwa [Touches, gap_comm q.x, gap_comm q.y, gap_comm q.z]

/-- The neighbourhood of cells with twenty-six neighbours each. -/
def Pos.touching : SimpleGraph Pos where
  Adj p q := p ≠ q ∧ p.Touches q
  symm := ⟨fun _ _ h => ⟨h.1.symm, h.2.symm⟩⟩
  loopless := ⟨fun _ h => h.1 rfl⟩

/-- The cells whose coordinates, as integers, are apart by at most one. -/
def Pos.neighbours : SimpleGraph Pos where
  Adj p q := p ≠ q ∧ (q.x.toInt - p.x.toInt).natAbs ≤ 1 ∧ (q.y.toInt - p.y.toInt).natAbs ≤ 1 ∧
    (q.z.toInt - p.z.toInt).natAbs ≤ 1
  symm := ⟨fun _ _ h => ⟨h.1.symm, by omega⟩⟩
  loopless := ⟨fun _ h => h.1 rfl⟩

/-- The column of a cell has not wrapped on the way from the one of `p`. -/
structure Pos.Unwrapped (p q : Pos) : Prop where
  x : (q.x - p.x).toInt = q.x.toInt - p.x.toInt
  z : (q.z - p.z).toInt = q.z.toInt - p.z.toInt

/-- Words near a common one are as far apart as the integers, if they have not wrapped on the
way from it. -/
theorem gap_eq_of_near {a b c : Int32} {k : Nat} (hk : k ≤ 1000) (ha : gap c a ≤ k)
    (hb : gap c b ≤ k) (ha' : (a - c).toInt = a.toInt - c.toInt)
    (hb' : (b - c).toInt = b.toInt - c.toInt) : gap a b = (b.toInt - a.toInt).natAbs := by
  rw [gap, ha'] at ha
  rw [gap, hb'] at hb
  rw [gap, Int32.toInt_sub]
  exact congrArg Int.natAbs (Int.bmod_eq_of_le (by omega) (by omega))

/-- Where no column has wrapped, cells touch as neighbours do. -/
theorem Pos.induce_touching_eq {p : Pos} {S : Set Pos} {k : Nat} (hk : k ≤ 1000)
    (hnear : ∀ q ∈ S, p.Near k q) (hin : ∀ q ∈ S, q.inHeight) (hS : ∀ q ∈ S, p.Unwrapped q) :
    touching.induce S = neighbours.induce S := by
  ext ⟨q, hq⟩ ⟨q', hq'⟩
  have hx := gap_eq_of_near hk (hnear q hq).1 (hnear q' hq').1 (hS q hq).x (hS q' hq').x
  have hz := gap_eq_of_near hk (hnear q hq).2 (hnear q' hq').2 (hS q hq).z (hS q' hq').z
  have hy : gap q.y q'.y = (q'.y.toInt - q.y.toInt).natAbs := by
    have hlow := Pos.inHeight_iff_toInt.1 (hin q hq)
    have hhigh := Pos.inHeight_iff_toInt.1 (hin q' hq')
    rw [gap, Int32.toInt_sub]
    exact congrArg Int.natAbs (Int.bmod_eq_of_le (by omega) (by omega))
  simp only [SimpleGraph.induce_adj, touching, neighbours, Touches, hx, hy, hz]

/-- All cells of a chain that touch are reached from the first one. -/
theorem Pos.reachable_of_isChain {S : Set Pos} {p : Pos} {cells : List Pos} (hp : p ∈ S)
    (hcells : ∀ q ∈ cells, q ∈ S) (hchain : (p :: cells).IsChain Touches) :
    ∀ q (hq : q ∈ cells), (touching.induce S).Reachable ⟨p, hp⟩ ⟨q, hcells q hq⟩ := by
  induction cells generalizing p with
  | nil => simp
  | cons c cells ih =>
      rw [List.isChain_cons_cons] at hchain
      have hc : c ∈ S := hcells c List.mem_cons_self
      have hfirst : (touching.induce S).Reachable ⟨p, hp⟩ ⟨c, hc⟩ := by
        by_cases hpc : p = c
        · subst hpc
          exact .rfl
        · exact SimpleGraph.Adj.reachable (G := touching.induce S) ⟨hpc, hchain.1⟩
      intro q hq
      rcases List.mem_cons.1 hq with rfl | hq
      · exact hfirst
      · exact hfirst.trans
          (ih hc (fun q hq => hcells q (List.mem_cons_of_mem c hq)) hchain.2 q hq)

/-! ## Wood among the writes -/

/-- The cells that some writes placed wood at, in order. -/
def wood (ws : List Write) : List Pos := (ws.filter (·.block.id = .wood2)).map (·.pos)

theorem mem_wood {ws : List Write} {q : Pos} :
    q ∈ wood ws ↔ ∃ w ∈ ws, w.block.id = .wood2 ∧ w.pos = q := by
  simp [wood, and_assoc]

/-- The writes that were added have placed wood at these cells, in this order. -/
def Site.Logs (cells : List Pos) (s t : Site) : Prop :=
  ∃ ws, t.journal.writes.toList = s.journal.writes.toList ++ ws ∧ wood ws = cells

namespace Site.Logs

variable {s t u : Site} {cells rest : List Pos}

theorem trans (h : s.Logs cells t) (h' : t.Logs rest u) : s.Logs (cells ++ rest) u := by
  obtain ⟨ws, hs, hws⟩ := h
  obtain ⟨vs, ht, hvs⟩ := h'
  refine ⟨ws ++ vs, by rw [ht, hs, List.append_assoc], ?_⟩
  rw [← hws, ← hvs, wood, wood, wood, List.filter_append, List.map_append]

theorem of_adds (h : s.Adds (fun w => w.block.id ≠ .wood2) t) : s.Logs [] t := by
  obtain ⟨ws, hs, hws⟩ := h
  refine ⟨ws, hs, ?_⟩
  rw [wood, List.filter_eq_nil_iff.2 fun w hw => by simpa using hws w hw, List.map_nil]

theorem place (s : Site) {q : Pos} (hq : q.inHeight) {b : Block} (hb : b.id = .wood2) :
    s.Logs [q] (s.place q b false) := by
  refine ⟨_, s.writes_place hq b false, ?_⟩
  simp [wood, hb]

end Site.Logs

namespace Build

variable {α β : Type} {P Q : List Pos → Prop}

/-- Every run of the program places wood at a list of cells that satisfies `P`. -/
def Logs (P : List Pos → Prop) (m : Build α) : Prop :=
  ∀ s : Site, ∃ cells, P cells ∧ s.Logs cells (m.run s).2

/-- A program writes where it acts. -/
theorem Only.adds_in {C : Pos → Prop} {m : Build α} (h : m.Only (Act.In C)) :
    m.Adds fun w => C w.pos := by
  refine fun s => Only.run (R := Site.Adds fun w => C w.pos) (fun _ => .nil rfl)
    (fun _ _ _ => .trans) (fun a s ha => ?_) h s
  cases a with
  | draw d => exact .nil rfl
  | look q => exact .nil rfl
  | report n => exact .nil rfl
  | place q b notify => exact s.adds_place q b notify fun _ => ha

theorem Logs.bind {m : Build α} (hm : m.Logs P) {f : α → Build β}
    (hf : ∀ a, (f a).Logs fun rest => ∀ cells, P cells → Q (cells ++ rest)) :
    (m >>= f).Logs Q := by
  intro s
  obtain ⟨cells, hcells, hlogs⟩ := hm s
  obtain ⟨rest, hrest, hlogs'⟩ := hf (m.run s).1 (m.run s).2
  rw [run_bind]
  exact ⟨cells ++ rest, hrest cells hcells, hlogs.trans hlogs'⟩

theorem logs_of_adds {m : Build α} (hP : P []) (hm : m.Adds fun w => w.block.id ≠ .wood2) :
    m.Logs P :=
  fun s => ⟨[], hP, .of_adds (hm s)⟩

/-- A program without wood before another one. -/
theorem logs_after {m : Build α} (hm : m.Adds fun w => w.block.id ≠ .wood2) {f : α → Build β}
    (hf : ∀ a, (f a).Logs P) : (m >>= f).Logs P := by
  intro s
  obtain ⟨cells, hcells, hlogs⟩ := hf (m.run s).1 (m.run s).2
  rw [run_bind]
  exact ⟨cells, hcells, (Site.Logs.of_adds (hm s)).trans hlogs⟩

theorem logs_draw {bound : Int32} (hbound : 0 < bound) {f : Int32 → Build β}
    (hf : ∀ u, 0 ≤ u ∧ u < bound → (f u).Logs P) : (bounded bound >>= f).Logs P := by
  intro s
  have hu := (returns_bounded bound _).1 (returns_run (bounded bound) s)
  obtain ⟨cells, hcells, hlogs⟩ := hf _ (hu.1 hbound) ((bounded bound).run s).2
  rw [run_bind]
  exact ⟨cells, hcells, (Site.Logs.of_adds (adds_bounded bound s)).trans hlogs⟩

end Build

open Build

namespace Acacia

variable {p towards : Pos} {start height : Int32}

/-! ## The logs of the trunk -/

/-- The trunk after its layer `dy`. -/
def Trunk.next (p towards : Pos) (start : Int32) (t : Trunk) (dy : Int32) : Trunk :=
  let bent : Trunk := if start ≤ dy ∧ 0 < t.bends then ⟨t.last + towards, t.bends - 1⟩ else t
  ⟨⟨bent.last.x, p.y + dy, bent.last.z⟩, bent.bends⟩

/-- The logs of some layers on top of a trunk. -/
def trunkCells (p towards : Pos) (start : Int32) : Trunk → List Int32 → List Pos
  | _, [] => []
  | t, dy :: layers =>
      (t.next p towards start dy).last ::
        trunkCells p towards start (t.next p towards start dy) layers

theorem run_trunkLayer (t : Trunk) (dy : Int32) (s : Site) :
    (trunkLayer p towards start t dy).run s =
      (t.next p towards start dy,
        s.place (t.next p towards start dy).last Species.acacia.trunk false) := rfl

/-- Layers within the height place all of their logs. -/
theorem logs_trunk {layers : List Int32} (hin : ∀ dy ∈ layers, isLayer (p.y + dy)) (t : Trunk)
    (s : Site) :
    s.Logs (trunkCells p towards start t layers)
      ((layers.foldlM (trunkLayer p towards start) t).run s).2 := by
  induction layers generalizing t s with
  | nil => exact .of_adds (.nil rfl)
  | cons dy layers ih =>
      rw [List.forall_mem_cons] at hin
      rw [List.foldlM_cons, run_bind, run_trunkLayer]
      generalize hnext : t.next p towards start dy = u
      have hcell : u.last.inHeight := by
        rw [← hnext]
        exact hin.1
      have hlog : s.Logs [u.last] (s.place u.last Species.acacia.trunk false) :=
        .place s hcell rfl
      rw [trunkCells, hnext]
      exact hlog.trans (ih hin.2 u _)

theorem touches_next (f : Face) (t : Trunk) {dy : Int32} (hy : gap t.last.y (p.y + dy) ≤ 1) :
    t.last.Touches (t.next p f.delta start dy).last := by
  have hdelta := f.natAbs_delta_le
  rw [Trunk.next]
  split
  · exact ⟨by simpa using hdelta.1, hy, by simpa using hdelta.2⟩
  · exact ⟨by simp, hy, by simp⟩

/-- The logs of layers in a row touch one by one. -/
theorem isChain_trunkCells (f : Face) (n : Nat) (t : Trunk) (dy : Int32)
    (hy : gap t.last.y (p.y + dy) ≤ 1) :
    (t.last :: trunkCells p f.delta start t (Span.listFrom 1 dy n)).IsChain Pos.Touches := by
  induction n generalizing t dy with
  | zero => exact .singleton _
  | succ n ih =>
      refine .cons_cons (touches_next f t hy) (ih _ (dy + 1) ?_)
      have hnext : p.y + (dy + 1) = p.y + dy + 1 := (Int32.add_assoc ..).symm
      rw [hnext, Trunk.next, gap_add_one]

/-- Below the first bend the trunk is straight. -/
theorem up_mem_trunkCells {layers : List Int32} (horder : layers.Pairwise (· < ·)) {t : Trunk}
    (hx : t.last.x = p.x) (hz : t.last.z = p.z) {dy : Int32} (hdy : dy ∈ layers)
    (hstart : dy < start) : p.up dy ∈ trunkCells p towards start t layers := by
  induction layers generalizing t with
  | nil => cases hdy
  | cons k layers ih =>
      rw [List.pairwise_cons] at horder
      have hk : k < start := by
        rcases List.mem_cons.1 hdy with rfl | hdy
        · exact hstart
        · exact Int32.lt_trans (horder.1 dy hdy) hstart
      have hnext : t.next p towards start k = ⟨p.up k, t.bends⟩ := by
        rw [Trunk.next, if_neg fun h => Int32.not_lt.2 h.1 hk, hx, hz]
        rfl
      rw [trunkCells, hnext]
      rcases List.mem_cons.1 hdy with rfl | hdy
      · exact List.mem_cons_self
      · exact List.mem_cons_of_mem _ (ih horder.2 rfl rfl hdy)

/-! ## The logs of the second branch -/

/-- The logs of a branch from some layer on. -/
def branchCells (p towards : Pos) (height : Int32) : Nat → Int32 → Pos → List Pos
  | 0, _, _ => []
  | n + 1, dy, last =>
      if dy < height then
        if 1 ≤ dy then
          let q : Pos := ⟨last.x + towards.x, p.y + dy, last.z + towards.z⟩
          q :: branchCells p towards height n (dy + 1) q
        else branchCells p towards height n (dy + 1) last
      else []

theorem logs_branch (hin : ∀ dy, 1 ≤ dy → dy < height → isLayer (p.y + dy)) (n : Nat)
    (dy : Int32) (last : Pos) (top : Option Pos) (s : Site) :
    s.Logs (branchCells p towards height n dy last)
      ((branch p towards height n dy last top).run s).2 := by
  induction n generalizing dy last top s with
  | zero => exact .of_adds (.nil rfl)
  | succ n ih =>
      rw [branch, branchCells]
      split
      · rename_i hhigh
        split
        · rename_i hlow
          have hcell : (⟨last.x + towards.x, p.y + dy, last.z + towards.z⟩ : Pos).inHeight :=
            hin dy hlow hhigh
          generalize (⟨last.x + towards.x, p.y + dy, last.z + towards.z⟩ : Pos) = q at hcell ⊢
          have hlog : s.Logs [q] (s.place q Species.acacia.trunk false) := .place s hcell rfl
          exact hlog.trans (ih _ q (some q) _)
        · exact ih _ _ _ _
      · exact .of_adds (.nil rfl)

/-- The logs of a branch touch one by one, the first one a cell beside the column of the
last one and a layer below. -/
theorem isChain_branchCells (f : Face) (n : Nat) {dy : Int32} (hdy : 1 ≤ dy) (last : Pos) :
    (⟨last.x, p.y + (dy - 1), last.z⟩ :: branchCells p f.delta height n dy last).IsChain
      Pos.Touches := by
  induction n generalizing dy last with
  | zero => exact .singleton _
  | succ n ih =>
      rw [branchCells, if_pos hdy]
      split
      · have hdelta := f.natAbs_delta_le
        have hstep : p.y + dy = p.y + (dy - 1) + 1 := by grind
        have htouch : Pos.Touches ⟨last.x, p.y + (dy - 1), last.z⟩
            ⟨last.x + f.delta.x, p.y + dy, last.z + f.delta.z⟩ := by
          refine ⟨by simpa using hdelta.1, ?_, by simpa using hdelta.2⟩
          rw [hstep, gap_add_one]
        have hback : dy + 1 - 1 = dy := by grind
        refine .cons_cons htouch ?_
        have hrest := @ih (dy + 1) (by lia) ⟨last.x + f.delta.x, p.y + dy, last.z + f.delta.z⟩
        rwa [hback] at hrest
      · exact .singleton _

/-- A branch that starts from the column of the origin, not above the first bend, touches
the straight part of the trunk. -/
theorem exists_anchor (f : Face) (hstart : 1 ≤ start) (n : Nat) {dy : Int32} (hdy : dy ≤ start) :
    ∃ k, (0 ≤ k ∧ k < start) ∧
      (p.up k :: branchCells p f.delta height n dy p).IsChain Pos.Touches := by
  induction n generalizing dy with
  | zero => exact ⟨0, ⟨by decide, by lia⟩, .singleton _⟩
  | succ n ih =>
      by_cases hlow : 1 ≤ dy
      · exact ⟨dy - 1, ⟨by lia, by lia⟩, isChain_branchCells f (n + 1) hlow p⟩
      · rw [branchCells, if_neg hlow]
        split
        · exact ih (by lia)
        · exact ⟨0, ⟨by decide, by lia⟩, .singleton _⟩

/-! ## What lasts -/

/-- The write places a leaf in place of air or of leaves. -/
def Leafs (w : Write) : Prop :=
  w.block = Species.acacia.leaf ∧ leafReplaceable.contains w.before.id

theorem leafs_placeLeaf (q : Pos) : (placeLeaf q).Adds Leafs := adds_replace fun _ h => ⟨rfl, h⟩

theorem leafs_leafLayers (c : Pos) (r : Int32) : (leafLayers c r).Adds Leafs := by
  refine Adds.bind (.forOffsets fun dx dz => .ite (adds_done ()) (leafs_placeLeaf _)) fun _ => ?_
  exact .forOffsets fun dx dz => leafs_placeLeaf _

theorem leafs_crown (c : Pos) : (crown c).Adds Leafs :=
  (leafs_leafLayers c 3).bind fun _ => .forM fun q _ => leafs_placeLeaf q

theorem Leafs.renews {b : Block} {w : Write} (h : Leafs w)
    (hb : leafReplaceable.contains b.id = false) : w.Renews b := by
  intro hsame
  rw [Leafs, hsame, hb] at h
  cases h.2

theorem Leafs.ne_wood {w : Write} (h : Leafs w) : w.block.id ≠ .wood2 := by
  rw [h.1]
  decide

/-- Above its soil an acacia places logs, and leaves in place of air and leaves. -/
def Grows (p : Pos) (w : Write) : Prop :=
  w.block = Species.acacia.trunk ∧ w.pos ≠ p.down 1 ∨ Leafs w

theorem grows_log {q : Pos} {dy : Int32} (hdy : 0 ≤ dy) (hq : q.y = p.y + dy) :
    (placeLog q).Adds (Grows p) := by
  refine adds_place fun _ => .inl ⟨rfl, fun hsame => ?_⟩
  exact add_ne_sub_one hdy (hq.symm.trans (congrArg Pos.y hsame))

theorem grows_branch (n : Nat) (dy : Int32) (last : Pos) (top : Option Pos) :
    (branch p towards height n dy last top).Adds (Grows p) := by
  induction n generalizing dy last top with
  | zero => exact adds_done top
  | succ n ih =>
      rw [branch]
      split
      · split
        · rename_i hlow
          exact (grows_log (Int32.le_trans (by decide) hlow) rfl).bind fun _ => ih _ _ _
        · exact ih _ _ _
      · exact adds_done top

theorem grows_secondBranch : (secondBranch p towards height start).Adds (Grows p) := by
  refine (adds_bounded _).bind fun fork => (adds_bounded _).bind fun more => ?_
  refine (grows_branch _ _ _ _).bind fun top => ?_
  cases top with
  | none => exact adds_done ()
  | some c => exact (leafs_leafLayers c 2).mono fun _ => .inr

/-- An acacia above its soil. -/
def grow (p : Pos) (height : Int32) : Build Bool := do
  let side ← Build.bounded 4
  let start := height - (← Build.bounded 4) - 1
  let bends := 3 - (← Build.bounded 3)
  let t ← (Span.halfOpen 0 height).foldM
    (trunkLayer p (Face.ofHorizontal side).delta start) ⟨p, bends⟩
  crown t.last
  let other ← Build.bounded 4
  if other ≠ side then secondBranch p (Face.ofHorizontal other).delta height start
  return true

theorem grows_grow : (grow p height).Adds (Grows p) := by
  refine (adds_bounded _).bind fun side => (adds_bounded _).bind fun late => ?_
  refine (adds_bounded _).bind fun straight => Adds.bind ?_ fun t => ?_
  · rw [Span.foldM_eq]
    refine .foldlM (fun t dy hdy => ?_) _
    exact (grows_log (Span.mem_halfOpen.1 hdy).1 rfl).bind fun _ => adds_done _
  · refine ((leafs_crown t.last).mono fun _ => .inr).bind fun _ => ?_
    refine (adds_bounded _).bind fun other => ?_
    exact .ite (grows_secondBranch.bind fun _ => adds_done _) (adds_done _)

/-! ## One piece -/

/-- The cells are connected, and the position is one of them. -/
def OnePiece (p : Pos) (cells : List Pos) : Prop :=
  p ∈ cells ∧ (Pos.touching.induce {q | q ∈ cells}).Connected

/-- A chain and another one that starts beside a cell of the first make one piece. -/
theorem onePiece_of_chains {cells rest : List Pos} {a : Pos} (hp : p ∈ cells)
    (hcells : (p :: cells).IsChain Pos.Touches) (ha : a ∈ cells)
    (hrest : (a :: rest).IsChain Pos.Touches) : OnePiece p (cells ++ rest) := by
  have hleft : ∀ q ∈ cells, q ∈ {q | q ∈ cells ++ rest} := fun q => List.mem_append_left rest
  have hright : ∀ q ∈ rest, q ∈ {q | q ∈ cells ++ rest} := fun q => List.mem_append_right cells
  refine ⟨hleft p hp, ?_⟩
  refine (SimpleGraph.connected_iff_exists_forall_reachable _).2 ⟨⟨p, hleft p hp⟩, ?_⟩
  rintro ⟨q, hq⟩
  rcases List.mem_append.1 hq with hq | hq
  · exact Pos.reachable_of_isChain (hleft p hp) hleft hcells q hq
  · exact (Pos.reachable_of_isChain (hleft p hp) hleft hcells a ha).trans
      (Pos.reachable_of_isChain (hleft a ha) hright hrest q hq)

theorem logs_secondBranch (p : Pos) (f : Face) (hin : ∀ dy, 1 ≤ dy → dy < height → isLayer (p.y + dy))
    (hstart : 1 ≤ start) :
    (secondBranch p f.delta height start).Logs fun rest => ∃ k, (0 ≤ k ∧ k < start) ∧
      (p.up k :: rest).IsChain Pos.Touches := by
  refine logs_draw (by decide) fun fork hfork => logs_draw (by decide) fun more _ => ?_
  have hbranch : (branch p f.delta height (1 + more).toInt.toNat (start - fork - 1) p none).Logs
      fun rest => ∃ k, (0 ≤ k ∧ k < start) ∧ (p.up k :: rest).IsChain Pos.Touches :=
    fun s => ⟨_, exists_anchor f hstart _ (by lia), logs_branch hin _ _ _ _ s⟩
  refine hbranch.bind fun top => logs_of_adds (fun rest hrest => by rwa [List.append_nil]) ?_
  cases top with
  | none => exact adds_done ()
  | some c => exact (leafs_leafLayers c 2).mono fun _ h => h.ne_wood

theorem logs_grow (hp : 1 ≤ p.y ∧ p.y ≤ 255 - height) (hheight : 5 ≤ height ∧ height ≤ 9) :
    (grow p height).Logs (OnePiece p) := by
  refine logs_draw (by decide) fun side _ => logs_draw (by decide) fun late hlate => ?_
  refine logs_draw (by decide) fun straight _ => ?_
  generalize hstart : height - late - 1 = start
  have hin {dy : Int32} (hlow : 0 ≤ dy) (hhigh : dy < height) : isLayer (p.y + dy) := by
    have hlayer : (p.up dy).inHeight := by
      rw [Pos.inHeight_iff, Pos.up]
      lia
    exact hlayer
  let layers := (Span.halfOpen 0 height).toList
  let cells := trunkCells p (Face.ofHorizontal side).delta start ⟨p, 3 - straight⟩ layers
  have hmem (k : Int32) (hk : 0 ≤ k ∧ k < start) : p.up k ∈ cells :=
    up_mem_trunkCells (t := ⟨p, 3 - straight⟩) (Span.pairwise_halfOpen 0 height) rfl rfl
      (Span.mem_halfOpen.2 ⟨hk.1, by lia⟩) hk.2
  have horigin : p ∈ cells := by
    have hup := hmem 0 ⟨by decide, by lia⟩
    rwa [Pos.up, Int32.add_zero] at hup
  have hchain : (p :: cells).IsChain Pos.Touches :=
    isChain_trunkCells _ _ ⟨p, 3 - straight⟩ 0 (by simp)
  have htrunk : ((Span.halfOpen 0 height).foldM
      (trunkLayer p (Face.ofHorizontal side).delta start) ⟨p, 3 - straight⟩).Logs (· = cells) := by
    intro s
    rw [Span.foldM_eq]
    exact ⟨cells, rfl, logs_trunk (fun dy hdy =>
      hin (Span.mem_halfOpen.1 hdy).1 (Span.mem_halfOpen.1 hdy).2) _ s⟩
  refine htrunk.bind fun t => ?_
  refine logs_after ((leafs_crown t.last).mono fun _ h => h.ne_wood) fun _ => ?_
  refine logs_draw (by decide) fun other _ => ?_
  split
  · have habove (dy : Int32) (hlow : 1 ≤ dy) (hhigh : dy < height) : isLayer (p.y + dy) :=
      hin (Int32.le_trans (by decide) hlow) hhigh
    have hstart' : 1 ≤ start := by lia
    refine (logs_secondBranch p (Face.ofHorizontal other) habove hstart').bind fun _ => logs_of_adds ?_ (adds_done _)
    rintro rest ⟨k, hk, hrest⟩ _ rfl
    rw [List.append_nil]
    exact onePiece_of_chains horigin hchain (hmem k hk) hrest
  · refine logs_of_adds ?_ (adds_done _)
    rintro _ rfl
    exact onePiece_of_chains horigin hchain horigin (.singleton p)

/-! ## Wood in the world -/

/-- An acacia of known height, if its place passes the checks. -/
def settle (p : Pos) (height : Int32) : Build Bool := do
  if p.y < 1 ∨ 256 < p.y + height + 1 then return false
  unless ← isClear p height do return false
  unless ← Build.isIn Ground.soils (p.down 1) do return false
  if 256 - height - 1 ≤ p.y then return false
  Build.place (p.down 1) Ground.dirt
  grow p height

theorem build_eq (p : Pos) :
    build p = bounded 3 >>= fun first => bounded 3 >>= fun second =>
      settle p (first + second + 5) := rfl

/-- The wood that some writes have placed is there in the end, as one piece that stands on dirt. -/
structure Stands (p : Pos) (j : Journal) (ws : List Write) : Prop where
  soil : j.get (p.down 1) = Ground.dirt
  wood : ∀ q ∈ wood ws, j.get q = Species.acacia.trunk
  piece : OnePiece p (VoxelFeatures.wood ws)

variable {s : Site}

/-- The write turns the soil to dirt, or is one of those above it. -/
def Builds (p : Pos) (w : Write) : Prop :=
  w.block = Ground.dirt ∧ Ground.soils.contains w.before.id ∨ Grows p w

theorem Builds.renews {w : Write} (h : Builds p w) : w.Renews Species.acacia.trunk := by
  rcases h with ⟨-, hsoil⟩ | ⟨hlog, -⟩ | hleaf
  · intro hsame
    rw [hsame] at hsoil
    exact absurd hsoil (by decide)
  · exact fun _ => hlog
  · exact hleaf.renews (by decide)

theorem Builds.eq_log {w : Write} (h : Builds p w) (hwood : w.block.id = .wood2) :
    w.block = Species.acacia.trunk := by
  rcases h with ⟨hdirt, -⟩ | ⟨hlog, -⟩ | hleaf
  · rw [hdirt] at hwood
    exact absurd hwood (by decide)
  · exact hlog
  · exact absurd hwood hleaf.ne_wood

theorem Grows.renews_soil {w : Write} (h : Grows p w) (hw : w.pos = p.down 1) :
    w.Renews Ground.dirt := by
  rcases h with ⟨-, hne⟩ | hleaf
  · exact absurd hw hne
  · exact hleaf.renews (by decide)

theorem stands_grow (hp : 1 ≤ p.y ∧ p.y ≤ 255 - height) (hheight : 5 ≤ height ∧ height ≤ 9)
    (hsoil : Ground.soils.contains (s.journal.idAt (p.down 1))) :
    let t := ((place (p.down 1) Ground.dirt >>= fun _ => grow p height).run s).2
    ∃ ws, t.journal.writes.toList = s.journal.writes.toList ++ ws ∧ Stands p t.journal ws := by
  intro t
  have hin := Journal.inHeight_of_contains (by decide) hsoil
  let u := s.place (p.down 1) Ground.dirt false
  have hdirt : s.Adds (fun w => w.block = Ground.dirt ∧ Ground.soils.contains w.before.id) u := by
    have hbefore : Ground.soils.contains (s.journal.get (p.down 1)).id := by
      rwa [← s.journal.idAt_eq]
    exact s.adds_place (p.down 1) Ground.dirt false fun _ => ⟨rfl, hbefore⟩
  have hrun : t = ((grow p height).run u).2 := by
    simp only [t, u, run_bind, run_place]
  have hgrow : u.Adds (Grows p) t := by
    rw [hrun]
    exact grows_grow u
  have hbuild : s.Adds (Builds p) t :=
    (hdirt.mono fun _ => .inl).trans (hgrow.mono fun _ => .inr)
  have hlast := adds_settled (m := place (p.down 1) Ground.dirt >>= fun _ => grow p height)
    (b := Species.acacia.trunk) (by decide) (hbuild.mono fun _ h => h.renews)
  obtain ⟨ws, hwrites, hws⟩ := hbuild.and hlast
  obtain ⟨cells, hpiece, hlogs⟩ := logs_grow hp hheight u
  obtain ⟨vs, hwrites', rfl⟩ : s.Logs cells t := by
    rw [hrun]
    refine (Site.Logs.of_adds (hdirt.mono fun w hw => ?_)).trans hlogs
    rw [hw.1]
    decide
  obtain rfl : ws = vs := List.append_cancel_left (hwrites.symm.trans hwrites')
  refine ⟨ws, hwrites, ?_, fun q hq => ?_, hpiece⟩
  · rw [hrun] at hgrow ⊢
    exact (settled_of_adds (by decide) (hgrow.mono fun _ h => h.renews_soil)
      (s.settled_place_of_lt hin (by decide))).2
  · obtain ⟨w, hw, hid, rfl⟩ := mem_wood.1 hq
    exact ((hws w hw).2 ((hws w hw).1.eq_log hid)).2

theorem stands_settle (hheight : 5 ≤ height ∧ height ≤ 9)
    (hbuilt : ((settle p height).run s).1 = true) :
    ∃ ws, ((settle p height).run s).2.journal.writes.toList = s.journal.writes.toList ++ ws ∧
      Stands p ((settle p height).run s).2.journal ws := by
  obtain ⟨⟨hlow, -, hhigh⟩, -, hsoil, hrun⟩ :=
    run_of_checks (looks_isClear p height) hbuilt rfl
  rw [hrun]
  exact stands_grow ⟨by lia, by lia⟩ hheight hsoil

theorem stands_build (hbuilt : ((build p).run s).1 = true) :
    ∃ ws, ((build p).run s).2.journal.writes.toList = s.journal.writes.toList ++ ws ∧
      Stands p ((build p).run s).2.journal ws := by
  have hdraw : (bounded 3).Only Act.Inspects := by simp
  have hfirst := returns_run (bounded 3) s
  have hjournal := hdraw.journal_run s
  rw [build_eq, run_bind, run_bind] at hbuilt ⊢
  generalize (bounded 3).run s = first at hfirst hjournal hbuilt ⊢
  have hsecond := returns_run (bounded 3) first.2
  have hjournal' := hdraw.journal_run first.2
  generalize (bounded 3).run first.2 = second at hsecond hjournal' hbuilt ⊢
  have hrange := ((returns_bounded 3 first.1).1 hfirst).1 (by decide)
  have hrange' := ((returns_bounded 3 second.1).1 hsecond).1 (by decide)
  rw [← hjournal, ← hjournal']
  exact stands_settle (by lia) hbuilt

/-- An acacia that was built is one piece of wood. It stands on dirt, its origin is a log, and
all the wood that was placed is still there in the end. The cells of the wood are connected
by steps to neighbours, also across the ends of the words. If no column has wrapped, they
are so in the integers. -/
theorem built_acacia_is_one_piece {p : Pos} {s : Site} (hbuilt : ((build p).run s).1 = true) :
    let j := ((build p).run s).2.journal
    j.get (p.down 1) = ⟨.dirt, 0⟩ ∧ j.get p = ⟨.wood2, 0⟩ ∧
    ∃ ws, j.writes.toList = s.journal.writes.toList ++ ws ∧
      (∀ q ∈ wood ws, j.get q = ⟨.wood2, 0⟩) ∧ p ∈ wood ws ∧
      (Pos.touching.induce {q | q ∈ wood ws}).Connected ∧
      ((∀ q ∈ wood ws, p.Unwrapped q) →
        (Pos.neighbours.induce {q | q ∈ wood ws}).Connected) := by
  intro j
  obtain ⟨ws, hwrites, hstands⟩ := stands_build hbuilt
  obtain ⟨hp, hconnected⟩ := hstands.piece
  refine ⟨hstands.soil, hstands.wood p hp, ws, hwrites, hstands.wood, hp, hconnected,
    fun hunwrapped => ?_⟩
  have hin : ∀ q ∈ wood ws, q.inHeight := fun q hq => j.inHeight_of_idAt_ne (by
    rw [j.idAt_eq, hstands.wood q hq]
    decide)
  have hnear : ∀ q ∈ wood ws, p.Near 6 q := by
    obtain ⟨vs, hwrites', hvs⟩ := (near_build p).adds_in s
    obtain rfl : ws = vs := List.append_cancel_left (hwrites.symm.trans hwrites')
    intro q hq
    obtain ⟨w, hw, -, rfl⟩ := mem_wood.1 hq
    exact hvs w hw
  have hsame := Pos.induce_touching_eq (S := {q | q ∈ wood ws}) (by decide) hnear hin hunwrapped
  rwa [← hsame]

/-- An acacia with a second branch that starts two layers below the first bend. -/
theorem forked_acacia_is_one_piece :
    let s : Site := ⟨.ofWorld (.ofLayers 0 [(.plain .dirt, 1)]), .ofSeed 4, #[]⟩
    let p : Pos := ⟨8, 1, 8⟩
    ((build p).run s).1 = true ∧ ((build p).run s).2.journal.get (p.down 1) = ⟨.dirt, 0⟩ ∧
    ((build p).run s).2.journal.get p = ⟨.wood2, 0⟩ ∧
    ∃ ws, ((build p).run s).2.journal.writes.toList = s.journal.writes.toList ++ ws ∧
      wood ws = [⟨8, 1, 8⟩, ⟨8, 2, 8⟩, ⟨8, 3, 8⟩, ⟨8, 4, 8⟩, ⟨9, 5, 8⟩, ⟨10, 6, 8⟩, ⟨11, 7, 8⟩,
        ⟨11, 8, 8⟩, ⟨8, 3, 7⟩, ⟨8, 4, 6⟩] ∧
      (Pos.neighbours.induce {q | q ∈ wood ws}).Connected := by
  intro s p
  have hbuilt : ((build p).run s).1 = true := by decide +kernel
  obtain ⟨hsoil, horigin, ws, hwrites, -, -, -, hconnected⟩ := built_acacia_is_one_piece hbuilt
  have hwood : wood ((build p).run s).2.journal.writes.toList = [⟨8, 1, 8⟩, ⟨8, 2, 8⟩, ⟨8, 3, 8⟩,
      ⟨8, 4, 8⟩, ⟨9, 5, 8⟩, ⟨10, 6, 8⟩, ⟨11, 7, 8⟩, ⟨11, 8, 8⟩, ⟨8, 3, 7⟩, ⟨8, 4, 6⟩] := by
    decide +kernel
  have hempty : s.journal.writes.toList = [] := rfl
  rw [hwrites, hempty, List.nil_append] at hwood
  have hcolumns : ∀ q ∈ wood ws, (q.x - p.x).toInt = q.x.toInt - p.x.toInt ∧
      (q.z - p.z).toInt = q.z.toInt - p.z.toInt := by
    rw [hwood]
    decide
  exact ⟨hbuilt, hsoil, horigin, ws, hwrites, hwood,
    hconnected fun q hq => ⟨(hcolumns q hq).1, (hcolumns q hq).2⟩⟩

end Acacia

end VoxelFeatures
