import VoxelFeatures.Feature.OreLayer
import VoxelFeatures.Proofs.Additions
import VoxelFeatures.Proofs.Agreement

/-!
# Ores cell by cell

The ellipsoids of a vein overlap, and a later vein can rewrite the cells of an
earlier one, each time by looking at what is there now. Yet the outcome at a
cell follows from the draws and from the id that the cell held at first, and
from nothing else in the world. `Vein.cells` lists the cells of a vein before
any block is looked at: among these a vein turns every host block to ore, and
it changes no other. Placing ore that is itself a host does not tell the two
apart, because both readings give the ore's id.
-/

namespace VoxelFeatures

namespace Vein

/-- The cells of the ellipsoids at some places of a segment, with the sizes
drawn from a stream one after the other. -/
def linkCells (spec : VeinSpec) (s : Segment) : List Int32 → Stream → List Pos
  | [], _ => []
  | i :: is, σ => (ellipsoid spec.count s i σ.double.1).cells ++ linkCells spec s is σ.double.2

/-- The cells of the ellipsoids of a vein, by its origin and the stream that it
draws from. -/
def cells (spec : VeinSpec) (p : Pos) (σ : Stream) : List Pos :=
  let turn := σ.single
  let startDraw := turn.2.bounded 3
  let stopDraw := startDraw.2.bounded 3
  linkCells spec (segment spec.count p turn.1 startDraw.1 stopDraw.1)
    (Span.halfOpen 0 spec.count).toList stopDraw.2

/-- From `s` to `t` every host block in some cells became ore and no other id
changed. Each write that was added put ore in the place of a host block. -/
structure Converts (spec : VeinSpec) (cells : List Pos) (s t : Site) : Prop where
  idAt : ∀ q, t.journal.idAt q =
    if q ∈ cells ∧ q.inHeight ∧ s.journal.idAt q = spec.host then spec.ore.id
    else s.journal.idAt q
  adds : s.Adds (fun w => w.before.id = spec.host ∧ w.block = spec.ore) t

namespace Converts

variable {spec : VeinSpec} {s t u : Site} {cs ds : List Pos}

theorem nil (h : t.journal = s.journal) : Converts spec [] s t :=
  ⟨by simp [h], .nil h⟩

/-- Cells converted one after the other are converted at once. -/
theorem append (h : Converts spec cs s t) (h' : Converts spec ds t u) :
    Converts spec (cs ++ ds) s u := by
  refine ⟨fun q => ?_, h.adds.trans h'.adds⟩
  rw [h'.idAt, h.idAt]
  simp only [List.mem_append]
  by_cases hc : q ∈ cs ∧ q.inHeight ∧ s.journal.idAt q = spec.host
  · -- the cell holds ore by now, and stays so even if that is a host block again
    rw [if_pos hc, ite_self, if_pos ⟨Or.inl hc.1, hc.2⟩]
  · have hmem : (q ∈ cs ∨ q ∈ ds) ∧ q.inHeight ∧ s.journal.idAt q = spec.host ↔
        q ∈ ds ∧ q.inHeight ∧ s.journal.idAt q = spec.host :=
      ⟨fun hd => ⟨hd.1.resolve_left fun hq => hc ⟨hq, hd.2⟩, hd.2⟩, fun hd => ⟨.inr hd.1, hd.2⟩⟩
    simp only [if_neg hc, hmem]

/-- What was drawn before does not matter. -/
theorem of_journal_eq (h : Converts spec cs s t) (hs : s.journal = u.journal) :
    Converts spec cs u t := by
  have h' := (nil (s := u) hs).append h
  rwa [List.nil_append] at h'

end Converts

/-- A cell that holds the host gets the ore, and any other cell nothing. -/
theorem run_replaceHost (spec : VeinSpec) (p : Pos) (s : Site) :
    ((replaceHost spec p).run s).2 =
      if p.inHeight ∧ s.journal.idAt p = spec.host then s.place p spec.ore false else s := by
  by_cases hp : p.inHeight
  · by_cases hhost : s.journal.idAt p = spec.host
    · simp [replaceHost, Build.run_bind, hp, hhost]
    · simp [replaceHost, Build.run_bind, hp, hhost]
  · simp [replaceHost, hp]

theorem converts_replaceHost (spec : VeinSpec) (p : Pos) (s : Site) :
    Converts spec [p] s ((replaceHost spec p).run s).2 := by
  rw [run_replaceHost]
  split
  · rename_i h
    refine ⟨fun q => ?_, s.adds_place p spec.ore false fun _ => ⟨?_, rfl⟩⟩
    · rw [Site.idAt_place]
      by_cases hq : q = p
      · simp [hq, h]
      · simp [hq]
    · rw [← h.2]
      exact (s.journal.idAt_eq p).symm
  · rename_i h
    refine ⟨fun q => (if_neg ?_).symm, .nil rfl⟩
    rintro ⟨hq, hqp⟩
    rw [List.mem_singleton] at hq
    exact h (hq ▸ hqp)

theorem converts_forM (spec : VeinSpec) (cs : List Pos) (s : Site) :
    Converts spec cs s ((forM cs (replaceHost spec)).run s).2 := by
  induction cs generalizing s with
  | nil => exact .nil rfl
  | cons p cs ih =>
      rw [List.forM_cons, Build.run_bind]
      exact (converts_replaceHost spec p s).append (ih _)

@[simp] theorem stream_replaceHost (spec : VeinSpec) (p : Pos) (s : Site) :
    ((replaceHost spec p).run s).2.stream = s.stream := by
  rw [run_replaceHost]
  split
  · exact s.stream_place p spec.ore false
  · rfl

theorem stream_forM_replaceHost (spec : VeinSpec) (cs : List Pos) (s : Site) :
    ((forM cs (replaceHost spec)).run s).2.stream = s.stream := by
  induction cs generalizing s with
  | nil => rfl
  | cons p cs ih => rw [List.forM_cons, Build.run_bind, ih, stream_replaceHost]

/-- The answers to the looks differ where the worlds do, but then only the cell
that was looked at is left different. -/
theorem pointwise_replaceHost (spec : VeinSpec) (p : Pos) : (replaceHost spec p).Pointwise := by
  intro C s t h
  refine ⟨rfl, ?_, fun q hq => ?_⟩
  · rw [stream_replaceHost, stream_replaceHost, h.stream]
  · rw [(converts_replaceHost spec p s).idAt, (converts_replaceHost spec p t).idAt, h.idAt q hq]

/-! ## Veins and layers -/

theorem pointwise_build (spec : VeinSpec) (p : Pos) : (build spec p).Pointwise := by
  refine Build.Pointwise.bind ?_ fun turn => ?_
  · exact (Build.pointwise_draw _).bind fun u => Build.pointwise_done _
  refine (Build.pointwise_draw _).bind fun startDraw => ?_
  refine (Build.pointwise_draw _).bind fun stopDraw => ?_
  refine Build.Pointwise.bind (.forM_span fun i => ?_) fun _ => Build.pointwise_done true
  refine Build.Pointwise.bind ?_ fun size => .forM fun q => pointwise_replaceHost spec q
  refine (Build.pointwise_draw _).bind fun high => ?_
  exact (Build.pointwise_draw _).bind fun low => Build.pointwise_done _

theorem converts_links (spec : VeinSpec) (g : Segment) (is : List Int32) (j : Journal)
    (σ : Stream) (ns : Array Note) :
    Converts spec (linkCells spec g is σ) ⟨j, σ, ns⟩
      ((forM is (link spec g)).run ⟨j, σ, ns⟩).2 := by
  induction is generalizing j σ ns with
  | nil => exact .nil rfl
  | cons i is ih =>
      let cs := (ellipsoid spec.count g i σ.double.1).cells
      have hlink : (link spec g i).run ⟨j, σ, ns⟩ =
          (forM cs (replaceHost spec)).run ⟨j, σ.double.2, ns⟩ := by
        rw [link, Build.run_double_bind, List.forM_eq_forM]
      have hhead : Converts spec cs ⟨j, σ, ns⟩ ((link spec g i).run ⟨j, σ, ns⟩).2 := by
        rw [hlink]
        exact (converts_forM spec cs ⟨j, σ.double.2, ns⟩).of_journal_eq rfl
      have hstream : ((link spec g i).run ⟨j, σ, ns⟩).2.stream = σ.double.2 := by
        rw [hlink, stream_forM_replaceHost]
      rw [List.forM_cons, Build.run_bind, linkCells, ← hstream]
      generalize ((link spec g i).run ⟨j, σ, ns⟩).2 = u at hhead
      exact hhead.append (ih u.journal u.stream u.notes)

theorem converts_build (spec : VeinSpec) (p : Pos) (s : Site) :
    Converts spec (cells spec p s.stream) s ((build spec p).run s).2 := by
  obtain ⟨j, σ, ns⟩ := s
  rw [build, Build.run_single_bind, Build.run_bounded_bind, Build.run_bounded_bind,
    Build.run_bind, Build.pure_eq, Build.run_done, Span.forM_eq, List.forM_eq_forM, cells]
  exact (converts_links ..).of_journal_eq rfl

end Vein

namespace OreLayer

theorem pointwise_height (d : OreDistribution) : d.height.Pointwise := by
  cases d with
  | uniform lower upper =>
      exact (Build.pointwise_draw _).bind fun u => Build.pointwise_done _
  | triangular centre spread =>
      refine (Build.pointwise_draw _).bind fun first => ?_
      exact (Build.pointwise_draw _).bind fun second => Build.pointwise_done _

theorem pointwise_vein (l : OreLayer) (cornerX cornerZ : Int32) :
    (l.vein cornerX cornerZ).Pointwise := by
  refine (Build.pointwise_draw _).bind fun x => ?_
  refine (pointwise_height _).bind fun y => ?_
  refine (Build.pointwise_draw _).bind fun z => ?_
  exact (Vein.pointwise_build l.spec _).bind fun _ => Build.pointwise_done _

theorem pointwise_buildAll (layers : List OreLayer) (cornerX cornerZ : Int32) :
    (buildAll layers cornerX cornerZ).Pointwise := by
  refine Build.Pointwise.forM fun l => ?_
  refine Build.Pointwise.bind (.forM_span fun _ => l.pointwise_vein cornerX cornerZ) fun _ => ?_
  exact Build.pointwise_report _

/-- A layer writes its ore, and only where its host was. -/
theorem adds_vein (l : OreLayer) (cornerX cornerZ : Int32) :
    (l.vein cornerX cornerZ).Adds fun w => w.before.id = l.spec.host ∧ w.block = l.spec.ore := by
  refine (Build.adds_draw _).bind fun x => ?_
  refine Build.Adds.bind ?_ fun y => ?_
  · cases l.distribution with
    | uniform lower upper => exact (Build.adds_draw _).bind fun u => Build.adds_done _
    | triangular centre spread =>
        exact (Build.adds_draw _).bind fun first =>
          (Build.adds_draw _).bind fun second => Build.adds_done _
  refine (Build.adds_draw _).bind fun z => ?_
  exact Build.Adds.bind (fun s => (Vein.converts_build l.spec _ s).adds) fun _ => Build.adds_done _

theorem adds_buildAll (layers : List OreLayer) (cornerX cornerZ : Int32) :
    (buildAll layers cornerX cornerZ).Adds
      fun w => ∃ l ∈ layers, w.before.id = l.spec.host ∧ w.block = l.spec.ore := by
  refine Build.Adds.forM fun l hl => ?_
  refine Build.Adds.bind (.forM_span fun _ s => ?_) fun _ => Build.adds_report _
  exact (l.adds_vein cornerX cornerZ s).mono fun w hw => ⟨l, hl, hw⟩

/-- The layers of a chunk act on each cell by itself. In any two worlds they
leave the stream in the same state, and a cell of the same id with the same id.
A vein turns to ore those of its cells that hold the host, and changes no other
id; which cells these are follows from the stream, the origin and the vein.
Everything that is overwritten is a host. -/
theorem ores_act_cell_by_cell (layers : List OreLayer) (cornerX cornerZ : Int32) :
    (∀ s t : Site, s.stream = t.stream →
      let s' := ((buildAll layers cornerX cornerZ).run s).2
      let t' := ((buildAll layers cornerX cornerZ).run t).2
      s'.stream = t'.stream ∧
        ∀ q, s.journal.idAt q = t.journal.idAt q → s'.journal.idAt q = t'.journal.idAt q) ∧
    (∀ s : Site, s.Adds (fun w => ∃ l ∈ layers, w.before.id = l.spec.host ∧ w.block = l.spec.ore)
      ((buildAll layers cornerX cornerZ).run s).2) ∧
    (∀ (spec : VeinSpec) (p : Pos) (s : Site),
      let s' := ((Vein.build spec p).run s).2
      (∀ q, s'.journal.idAt q =
        if q ∈ Vein.cells spec p s.stream ∧ (0 ≤ q.y ∧ q.y ≤ 255) ∧ s.journal.idAt q = spec.host
        then spec.ore.id else s.journal.idAt q) ∧
      s.Adds (fun w => w.before.id = spec.host) s') := by
  refine ⟨fun s t hstream => ?_, adds_buildAll layers cornerX cornerZ, fun spec p s => ?_⟩
  · have hrun (C : Pos → Prop) (h : s.AgreeOn C t) :=
      (pointwise_buildAll layers cornerX cornerZ C s t h).2
    refine ⟨(hrun (fun _ => False) ⟨hstream, by simp⟩).stream, fun q hq => ?_⟩
    exact (hrun (· = q) ⟨hstream, by simpa using hq⟩).idAt q rfl
  · have hconverts := Vein.converts_build spec p s
    refine ⟨fun q => ?_, hconverts.adds.mono fun w hw => hw.1⟩
    simpa only [Pos.inHeight_iff_le] using hconverts.idAt q

/-- Deep in the rock the overworld ores come out the same under sand as under dirt. -/
theorem overworld_ores_below_sand :
    let s : Site := ⟨.ofWorld (.ofLayers 1 [(.plain .stone, 60), (.plain .sand, 4)]), .ofSeed 7, #[]⟩
    let t : Site := ⟨.ofWorld (.ofLayers 2 [(.plain .stone, 60), (.plain .dirt, 4)]), .ofSeed 7, #[]⟩
    s.journal.idAt ⟨-3, 11, 40⟩ = t.journal.idAt ⟨-3, 11, 40⟩ ∧
      ((buildAll overworld (-16) 32).run s).2.journal.idAt ⟨-3, 11, 40⟩ =
        ((buildAll overworld (-16) 32).run t).2.journal.idAt ⟨-3, 11, 40⟩ := by
  intro s t
  have hid : s.journal.idAt ⟨-3, 11, 40⟩ = t.journal.idAt ⟨-3, 11, 40⟩ := by decide +kernel
  exact ⟨hid, ((ores_act_cell_by_cell overworld (-16) 32).1 s t rfl).2 _ hid⟩

end OreLayer

end VoxelFeatures
