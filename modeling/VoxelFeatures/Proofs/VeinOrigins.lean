import Mathlib.Data.List.Forall2
import VoxelFeatures.Proofs.Fairness
import VoxelFeatures.Proofs.Inspection
import VoxelFeatures.Proofs.Words

/-!
# The origins of veins

Where the veins of a chunk start follows from draws alone. A difference of bounds that
wraps is not positive, and a draw below it is zero and gives the lower bound, so that the
heights of a uniform distribution stay between its bounds, however far these are apart. The
sum of a triangular one may wrap on the way and comes back when the spread is taken off. A
draw below a positive bound always comes to an end (`Stream.exists_first_accepted`).

`OreLayer.chunkOrigins` is the program of a chunk that keeps the origins of its veins.
-/

namespace VoxelFeatures

namespace OreDistribution

/-! ## Heights -/

/-- The heights between the bounds of a uniform distribution, and the heights around the
centre of a triangular one whose two ends are words. -/
def Covers : OreDistribution → Int32 → Prop
  | uniform lower upper, y =>
      (lower ≠ upper →
        min lower.toInt upper.toInt ≤ y.toInt ∧ y.toInt < max lower.toInt upper.toInt) ∧
      (lower = upper → y = if lower < 255 then lower else lower - 1)
  | triangular centre spread, y =>
      -2147483648 ≤ centre.toInt - spread.toInt → centre.toInt + spread.toInt ≤ 2147483647 →
        centre.toInt - spread.toInt ≤ y.toInt ∧ y.toInt ≤ centre.toInt + spread.toInt - 2

/-- A draw below a difference, added to the lower word, stays below the upper one. A difference
that wraps gives the lower word. -/
theorem between_of_allows {low high r : Int32} (h : low.toInt < high.toInt)
    (hr : (Draw.bounded (high - low)).Allows r) :
    low.toInt ≤ (r + low).toInt ∧ (r + low).toInt < high.toInt := by
  have hzero : (0 : Int32).toInt = 0 := Int32.toInt_zero
  have hlow := toInt_range low
  have hhigh := toInt_range high
  rcases hr with ⟨hpos, hnot⟩
  simp only [Int32.lt_iff_toInt_lt, Int32.le_iff_toInt_le, hzero] at hpos hnot
  by_cases hwrap : high.toInt - low.toInt < 2147483648
  · have hdiff : (high - low).toInt = high.toInt - low.toInt := by
      rw [Int32.toInt_sub]
      exact Int.bmod_eq_of_le (by omega) (by omega)
    rcases hpos (by omega) with ⟨hr0, hrlt⟩
    have hsum : (r + low).toInt = r.toInt + low.toInt := toInt_add_of_fits (by omega) (by omega)
    omega
  · have hdiff : (high - low).toInt = high.toInt - low.toInt - 4294967296 := by
      rw [Int32.toInt_sub]
      simp only [Int.bmod]
      omega
    have hr0 : r = 0 := hnot (by omega)
    rw [hr0, Int32.zero_add]
    omega

/-- Different bounds are put in order. -/
theorem bounds_of_ne {lower upper : Int32} (h : lower ≠ upper) :
    (bounds lower upper).1.toInt = min lower.toInt upper.toInt ∧
      (bounds lower upper).2.toInt = max lower.toInt upper.toInt := by
  rw [bounds]
  by_cases hlt : upper < lower
  · rw [if_pos hlt]
    rw [Int32.lt_iff_toInt_lt] at hlt
    exact ⟨(Int.min_eq_right (Int.le_of_lt hlt)).symm, (Int.max_eq_left (Int.le_of_lt hlt)).symm⟩
  · rw [if_neg hlt, if_neg h.symm]
    rw [Int32.lt_iff_toInt_lt, Int.not_lt] at hlt
    exact ⟨(Int.min_eq_left hlt).symm, (Int.max_eq_right hlt).symm⟩

/-- Equal bounds are pushed one apart. -/
theorem bounds_self (v : Int32) :
    (bounds v v).1 = (if v < 255 then v else v - 1) ∧
      (bounds v v).2.toInt = (bounds v v).1.toInt + 1 := by
  have htop : (255 : Int32).toInt = 255 := by decide
  have hrange := toInt_range v
  rw [bounds, if_neg Int32.lt_irrefl, if_pos rfl]
  by_cases hlt : v < 255
  · rw [if_pos hlt, if_pos hlt]
    rw [Int32.lt_iff_toInt_lt] at hlt
    exact ⟨rfl, toInt_add_one (by omega)⟩
  · rw [if_neg hlt, if_neg hlt]
    rw [Int32.lt_iff_toInt_lt] at hlt
    have hbelow : (v - 1).toInt = v.toInt - 1 := toInt_sub_one_of_lt (by omega)
    exact ⟨rfl, hbelow ▸ (Int.sub_add_cancel v.toInt 1).symm⟩

theorem covers_of_uniform {lower upper r : Int32}
    (hr : (Draw.bounded ((bounds lower upper).2 - (bounds lower upper).1)).Allows r) :
    (uniform lower upper).Covers (r + (bounds lower upper).1) := by
  constructor
  · intro hne
    rcases bounds_of_ne hne with ⟨hlow, hhigh⟩
    rw [← hlow, ← hhigh]
    rw [ne_eq, ← Int32.toInt_inj] at hne
    exact between_of_allows (by rw [hlow, hhigh]; omega) hr
  · rintro rfl
    rcases bounds_self lower with ⟨hlow, hhigh⟩
    have hbetween := between_of_allows (by omega) hr
    rw [← hlow, ← Int32.toInt_inj]
    omega

/-- A sum that wraps and is then shifted back. -/
theorem toInt_sum_sub {a b c d : Int32}
    (hlow : -2147483648 ≤ a.toInt + b.toInt + c.toInt - d.toInt)
    (hhigh : a.toInt + b.toInt + c.toInt - d.toInt < 2147483648) :
    (a + b + c - d).toInt = a.toInt + b.toInt + c.toInt - d.toInt := by
  rw [Int32.toInt_sub, Int32.toInt_add, Int32.toInt_add, Int.bmod_add_bmod, Int.bmod_sub_bmod]
  exact Int.bmod_eq_of_le (by omega) (by omega)

theorem covers_of_triangular {centre spread first second : Int32} (hspread : 0 < spread)
    (hfirst : (Draw.bounded spread).Allows first) (hsecond : (Draw.bounded spread).Allows second) :
    (triangular centre spread).Covers (first + second + centre - spread) := by
  have hzero : (0 : Int32).toInt = 0 := Int32.toInt_zero
  intro hlow hhigh
  rcases hfirst.1 hspread with ⟨hfirst0, hfirstlt⟩
  rcases hsecond.1 hspread with ⟨hsecond0, hsecondlt⟩
  rw [Int32.le_iff_toInt_le, hzero] at hfirst0 hsecond0
  rw [Int32.lt_iff_toInt_lt] at hfirstlt hsecondlt
  rw [toInt_sum_sub (by omega) (by omega)]
  omega

/-- Every height that is drawn is in the range of the distribution. -/
theorem covers_of_returns {d : OreDistribution} (hd : d.Drawable) {y : Int32}
    (h : d.height.Returns y) : d.Covers y := by
  cases d with
  | uniform lower upper =>
      simp only [height, Build.returns_bind, Build.returns_bounded, Build.pure_eq,
        Build.returns_done] at h
      rcases h with ⟨r, hr, rfl⟩
      exact covers_of_uniform hr
  | triangular centre spread =>
      simp only [height, Build.returns_bind, Build.returns_bounded, Build.pure_eq,
        Build.returns_done] at h
      rcases h with ⟨first, hfirst, second, hsecond, rfl⟩
      exact covers_of_triangular hd hfirst hsecond

end OreDistribution

/-! ## Walks that keep results -/

namespace Build

variable {α ι : Type}

theorem returns_mapM {l : List ι} {f : ι → Build α} {as : List α} :
    (l.mapM f).Returns as ↔ List.Forall₂ (fun i a => (f i).Returns a) l as := by
  induction l generalizing as with
  | nil => simp
  | cons i l ih =>
      simp only [List.mapM_cons, returns_bind, pure_eq, returns_done, ih,
        List.forall₂_cons_left_iff]
      constructor
      · rintro ⟨a, ha, bs, hbs, rfl⟩
        exact ⟨a, bs, ha, hbs, rfl⟩
      · rintro ⟨a, bs, ha, hbs, rfl⟩
        exact ⟨a, ha, bs, hbs, rfl⟩

/-- A walk is the walk that keeps the results of its steps, with the results dropped. -/
theorem forM_eq_mapM {l : List ι} {f : ι → Build Unit} {g : ι → Build α}
    (h : ∀ i, f i = g i >>= fun _ => done ()) :
    forM l f = l.mapM g >>= fun _ => done () := by
  induction l with
  | nil => rfl
  | cons i l ih =>
      rw [List.forM_cons, List.mapM_cons, h, ih]
      simp only [bind_assoc, done_bind, pure_eq]

end Build

/-! ## Origins -/

namespace OreLayer

/-- Draws the origin of a vein. -/
def origin (l : OreLayer) (cornerX cornerZ : Int32) : Build Pos := do
  let x ← Build.bounded 16
  let y ← l.distribution.height
  let z ← Build.bounded 16
  return ⟨cornerX + x, y, cornerZ + z⟩

/-- Generates one vein and keeps its origin. -/
def veinOrigin (l : OreLayer) (cornerX cornerZ : Int32) : Build Pos := do
  let p ← l.origin cornerX cornerZ
  let _ ← Vein.build l.spec p
  return p

/-- Generates all veins of a layer and keeps their origins. -/
def layerOrigins (l : OreLayer) (cornerX cornerZ : Int32) : Build (List Pos) := do
  let ps ← (Span.halfOpen 0 l.veins).toList.mapM fun _ => l.veinOrigin cornerX cornerZ
  Build.report (.veinsDone l.veins l.spec.ore.id)
  return ps

/-- Generates the layers of a chunk and keeps the origins of their veins, layer by layer. -/
def chunkOrigins (layers : List OreLayer) (cornerX cornerZ : Int32) : Build (List (List Pos)) :=
  layers.mapM fun l => l.layerOrigins cornerX cornerZ

theorem vein_eq (l : OreLayer) (cornerX cornerZ : Int32) :
    l.vein cornerX cornerZ = l.veinOrigin cornerX cornerZ >>= fun _ => .done () := by
  simp only [vein, veinOrigin, origin, Build.bind_assoc, Build.pure_eq, Build.done_bind]

theorem build_eq_layerOrigins (l : OreLayer) (cornerX cornerZ : Int32) :
    l.build cornerX cornerZ = l.layerOrigins cornerX cornerZ >>= fun _ => .done () := by
  rw [build, Span.forM_eq, List.forM_eq_forM,
    Build.forM_eq_mapM fun _ => l.vein_eq cornerX cornerZ, layerOrigins]
  simp only [Build.bind_assoc, Build.pure_eq, Build.done_bind]
  rfl

/-- The program of a chunk, with the origins dropped. -/
theorem buildAll_eq (layers : List OreLayer) (cornerX cornerZ : Int32) :
    buildAll layers cornerX cornerZ =
      chunkOrigins layers cornerX cornerZ >>= fun _ => .done () := by
  rw [buildAll, List.forM_eq_forM, chunkOrigins,
    Build.forM_eq_mapM fun l => l.build_eq_layerOrigins cornerX cornerZ]

theorem drawable_of_ofParams {spec : VeinSpec} {veins : Int32} {d : OreDistribution}
    {l : OreLayer} (h : ofParams spec veins d = .ok l) : d.Drawable := by
  cases d with
  | uniform lower upper => trivial
  | triangular centre spread =>
      by_contra hspread
      rw [OreDistribution.Drawable] at hspread
      by_cases hveins : 0 < veins
      · simp [ofParams, hveins, hspread] at h
      · simp [ofParams, hveins] at h

/-- A position in the columns of the chunk with the given corner, at a height in the range of
the layer. -/
structure Starts (l : OreLayer) (cornerX cornerZ : Int32) (p : Pos) : Prop where
  x : cornerX.toInt ≤ p.x.toInt ∧ p.x.toInt ≤ cornerX.toInt + 15
  y : l.distribution.Covers p.y
  z : cornerZ.toInt ≤ p.z.toInt ∧ p.z.toInt ≤ cornerZ.toInt + 15

/-- A draw below sixteen stays in the chunk. -/
theorem offset_of_allows {corner r : Int32} (hc : corner.toInt ≤ 2147483647 - 15)
    (hr : (Draw.bounded 16).Allows r) :
    corner.toInt ≤ (corner + r).toInt ∧ (corner + r).toInt ≤ corner.toInt + 15 := by
  have hzero : (0 : Int32).toInt = 0 := Int32.toInt_zero
  have hwidth : (16 : Int32).toInt = 16 := by decide
  have hcorner := toInt_range corner
  rcases hr.1 (by decide) with ⟨hlow, hhigh⟩
  rw [Int32.le_iff_toInt_le, hzero] at hlow
  rw [Int32.lt_iff_toInt_lt, hwidth] at hhigh
  rw [toInt_add_of_fits (by omega) (by omega)]
  omega

section Chunk

variable {l : OreLayer} {cornerX cornerZ : Int32}
variable (hx : cornerX.toInt ≤ 2147483647 - 15) (hz : cornerZ.toInt ≤ 2147483647 - 15)

include hx hz

theorem starts_of_returns {p : Pos} (h : (l.veinOrigin cornerX cornerZ).Returns p) :
    l.Starts cornerX cornerZ p := by
  simp only [veinOrigin, origin, Build.returns_bind, Build.returns_bounded, Build.pure_eq,
    Build.returns_done] at h
  rcases h with ⟨-, ⟨x, hdx, y, hdy, z, hdz, rfl⟩, -, -, rfl⟩
  exact ⟨offset_of_allows hx hdx, OreDistribution.covers_of_returns l.drawable hdy,
    offset_of_allows hz hdz⟩

theorem all_starts_of_returns {ps : List Pos} (h : (l.layerOrigins cornerX cornerZ).Returns ps) :
    (ps.length : Int) = l.veins.toInt ∧ ∀ p ∈ ps, l.Starts cornerX cornerZ p := by
  have hzero : (0 : Int32).toInt = 0 := Int32.toInt_zero
  have hveins := l.veins_pos
  rw [Int32.lt_iff_toInt_lt, hzero] at hveins
  simp only [layerOrigins, Build.returns_bind, Build.pure_eq, Build.returns_done] at h
  rcases h with ⟨qs, hqs, -, -, rfl⟩
  rw [Build.returns_mapM] at hqs
  constructor
  · have hsize : (Span.halfOpen 0 l.veins).size = l.veins.toInt.toNat :=
      congrArg Int.toNat (Int.sub_zero l.veins.toInt)
    rw [← hqs.length_eq, Span.length_toList, hsize]
    omega
  · intro p hp
    rcases List.mem_iff_getElem.1 hp with ⟨i, hi, rfl⟩
    exact starts_of_returns hx hz ((List.forall₂_iff_get.1 hqs).2 i (hqs.length_eq ▸ hi) hi)

end Chunk

/-- The heights that an accepted distribution gives are in its range, at every site and for
all bounds, and the draws for them come to an end. The program of a chunk is one that also
tells the origins of its veins: each layer has as many as it says, all in the columns of the
chunk and in the range of the layer. -/
theorem veins_start_in_range :
    (∀ spec veins d l, ofParams spec veins d = .ok l → ∀ s, d.Covers (d.height.run s).1) ∧
    (∀ (bound : Int32) (σ : Stream), 0 < bound →
      ∃ n, Stream.reduce? bound ((Stream.step^[n + 1] σ).top 31) = some (σ.bounded bound).1) ∧
    ∀ (layers : List OreLayer) (cornerX cornerZ : Int32),
      cornerX.toInt ≤ 2147483647 - 15 → cornerZ.toInt ≤ 2147483647 - 15 →
        buildAll layers cornerX cornerZ =
          (chunkOrigins layers cornerX cornerZ >>= fun _ => .done ()) ∧
        ∀ s, List.Forall₂
          (fun l ps => (ps.length : Int) = l.veins.toInt ∧ ∀ p ∈ ps, l.Starts cornerX cornerZ p)
          layers ((chunkOrigins layers cornerX cornerZ).run s).1 := by
  refine ⟨fun spec veins d l hl s => ?_, fun bound σ hb => ?_,
    fun layers cornerX cornerZ hx hz => ⟨buildAll_eq layers cornerX cornerZ, fun s => ?_⟩⟩
  · exact OreDistribution.covers_of_returns (drawable_of_ofParams hl) (Build.returns_run _ s)
  · rcases Stream.exists_first_accepted hb σ with ⟨n, -, haccepted, -⟩
    exact ⟨n, haccepted⟩
  · have hreturns := Build.returns_run (chunkOrigins layers cornerX cornerZ) s
    rw [chunkOrigins, Build.returns_mapM] at hreturns
    exact hreturns.imp fun l ps hps => all_starts_of_returns hx hz hps

/-- The standard layers of a chunk, and a height between the ends of all words. -/
theorem overworld_veins_start_in_range :
    (-16 : Int32).toInt ≤ 2147483647 - 15 ∧ (32 : Int32).toInt ≤ 2147483647 - 15 ∧
      ∀ s : Site,
        let y := ((OreDistribution.uniform (-2147483648) 2147483647).height.run s).1
        (-2147483648 ≤ y.toInt ∧ y.toInt < 2147483647) ∧
          List.Forall₂
            (fun l ps => (ps.length : Int) = l.veins.toInt ∧ ∀ p ∈ ps, l.Starts (-16) 32 p)
            overworld ((chunkOrigins overworld (-16) 32).run s).1 := by
  have hx : (-16 : Int32).toInt ≤ 2147483647 - 15 := by decide
  have hz : (32 : Int32).toInt ≤ 2147483647 - 15 := by decide
  rcases veins_start_in_range with ⟨hheight, -, hchunk⟩
  refine ⟨hx, hz, fun s => ⟨?_, (hchunk overworld (-16) 32 hx hz).2 s⟩⟩
  exact (hheight (inStone .dirt 0 33) 1 (.uniform (-2147483648) 2147483647) _ rfl s).1 (by decide)

end OreLayer

end VoxelFeatures
