import Mathlib.Data.List.Forall2
import VoxelFeatures.Feature.Basic
import VoxelFeatures.Proofs.Overgrowth

/-!
# The limbs of large oaks

A large oak first looks where its limbs could go, and draws them last, when leaves, trunk
and other limbs have been placed already. It is all made of leaves and logs, and these are
blocks that a limb passes. So a line that was free at first is still free when it is drawn,
and it is the same line, as the cluster keeps both of its ends.
-/

namespace VoxelFeatures

namespace Build

variable {α β ι : Type} {j : Journal}

/-- Over the journal the program comes to a result that satisfies `R`, and leaves the
journal as it is. -/
def Finds (j : Journal) (R : α → Prop) (m : Build α) : Prop :=
  ∀ s : Site, s.journal = j → R (m.run s).1 ∧ (m.run s).2.journal = j

theorem finds_done {R : α → Prop} {a : α} (h : R a) : (done a).Finds j R := fun _ hs => ⟨h, hs⟩

theorem finds_of_inspects {m : Build α} (hm : m.Only Act.Inspects) : m.Finds j fun _ => True :=
  fun s hs => ⟨trivial, (hm.journal_run s).trans hs⟩

theorem Finds.mono {R Q : α → Prop} {m : Build α} (h : m.Finds j R) (hRQ : ∀ a, R a → Q a) :
    m.Finds j Q :=
  fun s hs => ⟨hRQ _ (h s hs).1, (h s hs).2⟩

theorem Finds.bind {R : α → Prop} {Q : β → Prop} {m : Build α} (hm : m.Finds j R)
    {f : α → Build β} (hf : ∀ a, R a → (f a).Finds j Q) : (m >>= f).Finds j Q := by
  intro s hs
  obtain ⟨hresult, hjournal⟩ := hm s hs
  rw [run_bind]
  exact hf _ hresult _ hjournal

theorem Finds.foldM_span {I : α → Prop} {r : Span} {f : α → Int32 → Build α}
    (h : ∀ a i, I a → (f a i).Finds j I) {a : α} (ha : I a) : (r.foldM f a).Finds j I := by
  have hlist (l : List Int32) {a : α} (ha : I a) : (l.foldlM f a).Finds j I := by
    induction l generalizing a with
    | nil => exact finds_done ha
    | cons i l ih =>
        rw [List.foldlM_cons]
        exact (h a i ha).bind fun b hb => ih hb
  rw [Span.foldM_eq]
  exact hlist r.toList ha

theorem finds_isIn (S : BlockSet) (p : Pos) :
    (isIn S p).Finds j fun found => found = S.contains (j.idAt p) := by
  rintro s rfl
  exact ⟨rfl, rfl⟩

end Build

open Build

namespace LargeOak

variable {j : Journal}

/-- A limb can pass all cells from `a` to `b`. -/
def IsFree (j : Journal) (a b : Pos) : Prop :=
  ∀ q ∈ (Line.between a b).cells, passable.contains (j.idAt q)

theorem finds_blockedAt (a b : Pos) :
    (blockedAt a b).Finds j fun found => found = none → IsFree j a b := by
  let l := Line.between a b
  have hfrom (i n : Nat) : (l.findFrom (fun p => return !(← isIn passable p)) i n).Finds j
      fun found => found = none → ∀ q ∈ l.cellsFrom i n, passable.contains (j.idAt q) := by
    induction n generalizing i with
    | zero => exact finds_done fun _ q hq => absurd hq List.not_mem_nil
    | succ n ih =>
        refine ((finds_isIn passable (l.cell i)).bind (Q := fun blocked =>
          blocked = !passable.contains (j.idAt (l.cell i))) ?_).bind fun blocked hblocked => ?_
        · rintro _ rfl
          exact finds_done rfl
        · split
          · exact finds_done fun h => nomatch h
          · rename_i hpass
            refine (ih (i + 1)).mono fun found hrest hnone => ?_
            refine List.forall_mem_cons.2 ⟨?_, hrest hnone⟩
            simpa [hblocked] using hpass
  exact hfrom 0 l.size

namespace Stand

/-- Admitted clusters have a free limb. -/
theorem finds_admission (s : Stand) (t : LargeOak) (p : Pos) :
    (s.admit? t p).Finds j fun found => ∀ c, found = some c → IsFree j (s.limbStart c) c.base := by
  refine (finds_blockedAt _ _).bind fun column _ => ?_
  split
  · exact finds_done fun c h => nomatch h
  · refine (finds_blockedAt _ _).bind fun limb hlimb => ?_
    split
    · exact finds_done fun c h => nomatch h
    · rename_i hnone
      refine finds_done fun c hc => ?_
      cases hc
      exact hlimb (by simpa using hnone)

/-- The choice holds the top cluster and others with free limbs. -/
def Sound (s : Stand) (j : Journal) (top : Cluster) (cs : List Cluster) : Prop :=
  ∃ kept, cs = top :: kept ∧ ∀ c ∈ kept, IsFree j (s.limbStart c) c.base

variable {s : Stand} {top : Cluster}

theorem finds_tryCluster {c : Choice} (hc : s.Sound j top c.clusters.toList) (t : LargeOak)
    (layer : Int32) (size : Float32) :
    (s.tryCluster t layer size c).Finds j fun c => s.Sound j top c.clusters.toList := by
  refine (finds_admission s t _).bind fun found hfound => ?_
  cases found with
  | none => exact finds_done hc
  | some cluster =>
      obtain ⟨kept, hkept, hfree⟩ := hc
      refine finds_done ⟨kept ++ [cluster], ?_, ?_⟩
      · simp [hkept]
      · exact List.forall_mem_append.2 ⟨hfree, List.forall_mem_singleton.2 (hfound cluster rfl)⟩

theorem finds_tryLayer {c : Choice} (hc : s.Sound j top c.clusters.toList) (t : LargeOak)
    (layer : Int32) :
    (s.tryLayer t layer c).Finds j fun c => s.Sound j top c.clusters.toList := by
  rw [tryLayer]
  split
  · exact .foldM_span (fun _ _ hc => finds_tryCluster hc t layer _) hc
  · exact finds_done hc

/-- The top cluster of a tree. -/
def topCluster (s : Stand) (t : LargeOak) : Cluster := ⟨s.origin.up (s.topLayer t), s.topLimbY t⟩

theorem finds_clusters (s : Stand) (t : LargeOak) (stream : Stream) :
    (s.clusters t stream).Finds j (s.Sound j (s.topCluster t)) := by
  refine Finds.bind (.foldM_span (fun _ layer hc => finds_tryLayer hc t layer) ?_) fun c hc =>
    finds_done hc
  exact ⟨[], rfl, by simp⟩

end Stand

/-- Where a tree stands, and its clusters, the top one first. -/
def plan? (t : LargeOak) (p : Pos) : Build (Option (Stand × List Cluster)) := do
  let own ← Build.child
  let (extra, own) := own.bounded t.heightBound
  match ← stand? p (5 + extra) with
  | none => return none
  | some s => return some (s, ← s.clusters t own)

/-- Places a tree. -/
def grow (t : LargeOak) (s : Stand) (cs : List Cluster) : Build Unit := do
  cs.forM t.foliage
  t.trunk s
  cs.forM (limbTo s)

theorem build_eq (t : LargeOak) (p : Pos) :
    t.build p = t.plan? p >>= fun
      | none => return false
      | some (s, cs) => do
          t.grow s cs
          return true := by
  simp only [build, plan?, grow, bind_assoc]
  refine congrArg (Build.child >>= ·) (funext fun own => ?_)
  refine congrArg (stand? p _ >>= ·) (funext fun found => ?_)
  cases found with
  | none => rfl
  | some s => simp only [bind_assoc, pure_eq, done_bind]

theorem finds_plan (t : LargeOak) (p : Pos) :
    (t.plan? p).Finds j fun found =>
      ∀ s cs, found = some (s, cs) → s.Sound j (s.topCluster t) cs := by
  refine (finds_of_inspects (by simp)).bind fun own _ => ?_
  refine (finds_of_inspects (by simp)).bind fun found _ => ?_
  cases found with
  | none => exact finds_done fun s cs h => nomatch h
  | some s =>
      refine (s.finds_clusters t _).bind fun cs hcs => finds_done fun s' cs' h => ?_
      cases h
      exact hcs

/-! ## Placing -/

/-- Placing the logs of a line writes one log at each of its cells within the height. -/
theorem run_limb (a b : Pos) (s : Site) :
    ∃ ws, ((limb a b).run s).2.journal.writes.toList = s.journal.writes.toList ++ ws ∧
      ws.map (·.pos) = (Line.between a b).cells.filter (·.inHeight) ∧
      ∀ w ∈ ws, w.block = ⟨.log, logData a w.pos⟩ := by
  have hcells (cells : List Pos) (s : Site) :
      ∃ ws, ((forM cells fun p => place p ⟨.log, logData a p⟩).run s).2.journal.writes.toList =
          s.journal.writes.toList ++ ws ∧
        ws.map (·.pos) = cells.filter (·.inHeight) ∧
        ∀ w ∈ ws, w.block = ⟨.log, logData a w.pos⟩ := by
    induction cells generalizing s with
    | nil => exact ⟨[], by simp⟩
    | cons p cells ih =>
        obtain ⟨ws, hadded, hpos, hlogs⟩ := ih (s.place p ⟨.log, logData a p⟩ false)
        rw [List.forM_cons, run_bind, run_place]
        cases hp : p.inHeight with
        | true =>
            refine ⟨⟨p, ⟨.log, logData a p⟩, false, s.journal.get p⟩ :: ws, ?_, ?_, ?_⟩
            · rw [hadded, s.writes_place hp, List.append_assoc]
              rfl
            · simp [hp, hpos]
            · exact List.forall_mem_cons.2 ⟨rfl, hlogs⟩
        | false =>
            rw [s.place_of_not_inHeight hp] at hadded ⊢
            exact ⟨ws, hadded, by simp [hp, hpos], hlogs⟩
  rw [limb, Line.forM_eq, List.forM_eq_forM]
  exact hcells _ s

@[simp] theorem lays_limb (a b : Pos) : (limb a b).Only (Act.Lays passable) := by
  have hlog : passable.contains .log := by decide
  simp [limb, hlog]

@[simp] theorem lays_foliage (t : LargeOak) (c : Cluster) :
    (t.foliage c).Only (Act.Lays passable) := by
  have hleaf : passable.contains (Block.plain .leaves).id := by decide
  simp [foliage, leafDisc, replace, hleaf]

theorem adds_foliage (t : LargeOak) (c : Cluster) :
    (t.foliage c).Adds fun w =>
      w.block = .plain .leaves ∧ w.before.id ∈ [BlockId.air, .leaves] := by
  refine .forM_span fun dy => .forOffsets fun dx dz => .ite ?_ (adds_done ())
  refine adds_replace fun before hbefore => ⟨rfl, ?_⟩
  rwa [leafReplaceable, BlockSet.contains_ofList, decide_eq_true_eq] at hbefore

theorem adds_trunk (t : LargeOak) (s : Stand) : (t.trunk s).Adds fun w => w.block.id = .log := by
  have hlimb (a b : Pos) : (limb a b).Adds fun w => w.block.id = .log := by
    rw [limb, Line.forM_eq, List.forM_eq_forM]
    exact .forM fun p _ => adds_place fun _ => rfl
  refine (hlimb _ _).bind fun _ => .ite ?_ (adds_done ())
  exact (hlimb _ _).bind fun _ => (hlimb _ _).bind fun _ => hlimb _ _

namespace Stand

/-- The cells of the limb to a cluster, from the trunk on. Limbs that start in the lowest
fifth of the tree or right at the cluster are left out. -/
def limbCells (s : Stand) (c : Cluster) : List Pos :=
  if s.limbStart c ≠ c.base ∧ (c.limbY - s.origin.y).toFloat ≥ s.limit.toFloat * 0.2 then
    (Line.between (s.limbStart c) c.base).cells
  else []

/-- The writes are the logs of the limb to a cluster, as far as it is within the height. -/
def Draws (s : Stand) (c : Cluster) (ws : List Write) : Prop :=
  ws.map (·.pos) = (s.limbCells c).filter (·.inHeight) ∧
    ∀ w ∈ ws, w.block = ⟨.log, logData (s.limbStart c) w.pos⟩

variable {st : Stand} {c : Cluster}

theorem mem_line_of_mem_limbCells {q : Pos} (h : q ∈ st.limbCells c) :
    q ∈ (Line.between (st.limbStart c) c.base).cells := by
  rw [limbCells] at h
  split at h
  · exact h
  · exact absurd h List.not_mem_nil

theorem run_limbTo (st : Stand) (c : Cluster) (s : Site) :
    ∃ ws, ((limbTo st c).run s).2.journal.writes.toList = s.journal.writes.toList ++ ws ∧
      st.Draws c ws := by
  unfold limbTo Draws limbCells
  split
  · exact run_limb _ _ s
  · exact ⟨[], by simp⟩

@[simp] theorem lays_limbTo (st : Stand) (c : Cluster) :
    (limbTo st c).Only (Act.Lays passable) := by
  rw [limbTo]
  split
  · exact lays_limb _ _
  · exact .done ()

/-- Limbs whose cells can be passed replace nothing else. -/
theorem run_limbs (st : Stand) {V : Pos → Prop} {kept : List Cluster}
    (hV : ∀ c ∈ kept, ∀ q ∈ (Line.between (st.limbStart c) c.base).cells, V q) {s : Site}
    (hs : s.Holds passable V) :
    ∃ limbs, ((forM kept (limbTo st)).run s).2.journal.writes.toList =
        s.journal.writes.toList ++ limbs.flatten ∧
      List.Forall₂ (fun c ws => st.Draws c ws ∧ ∀ w ∈ ws, passable.contains w.before.id)
        kept limbs := by
  induction kept generalizing s with
  | nil => exact ⟨[], by simp, .nil⟩
  | cons c kept ih =>
      rw [List.forall_mem_cons] at hV
      obtain ⟨ws, hadded, hdraws⟩ := run_limbTo st c s
      obtain ⟨hheld, vs, hadded', hpass⟩ := (lays_limbTo st c).held hs
      have hsame : vs = ws := List.append_cancel_left (hadded'.symm.trans hadded)
      obtain ⟨limbs, hrest, hlimbs⟩ := ih hV.2 hheld
      refine ⟨ws :: limbs, ?_, .cons ⟨hdraws, fun w hw => ?_⟩ hlimbs⟩
      · rw [List.forM_cons, run_bind, hrest, hadded, List.flatten_cons, List.append_assoc]
      · have hcell : w.pos ∈ (st.limbCells c).filter (·.inHeight) :=
          hdraws.1 ▸ List.mem_map_of_mem hw
        have hline := mem_line_of_mem_limbCells (List.mem_filter.1 hcell).1
        exact hpass w (hsame ▸ hw) (hV.1 w.pos hline)

/-- What a large oak writes, in order: foliage over air and leaves, the trunk, the limb to
its top cluster, and the limbs to the others through passable blocks. -/
def Stamps (st : Stand) (top : Cluster) (kept : List Cluster) (ws : List Write) : Prop :=
  ∃ leaves logs first limbs, ws = leaves ++ (logs ++ (first ++ limbs.flatten)) ∧
    (∀ w ∈ leaves, w.block = .plain .leaves ∧ w.before.id ∈ [BlockId.air, .leaves]) ∧
    (∀ w ∈ logs, w.block.id = .log) ∧ st.Draws top first ∧
    List.Forall₂ (fun c ws => st.Draws c ws ∧ ∀ w ∈ ws, passable.contains w.before.id) kept limbs

end Stand

/-- A tree whose kept limbs are free writes in this way. -/
theorem run_grow (t : LargeOak) {st : Stand} (top : Cluster) {kept : List Cluster} {s : Site}
    (hfree : ∀ c ∈ kept, IsFree s.journal (st.limbStart c) c.base) :
    ∃ ws, ((t.grow st (top :: kept)).run s).2.journal.writes.toList =
      s.journal.writes.toList ++ ws ∧ st.Stamps top kept ws := by
  let V : Pos → Prop := fun q =>
    ∃ c ∈ kept, q ∈ (Line.between (st.limbStart c) c.base).cells
  have hs : s.Holds passable V := fun q ⟨c, hc, hq⟩ => hfree c hc q hq
  let s₁ := ((forM (top :: kept) t.foliage).run s).2
  let s₂ := ((t.trunk st).run s₁).2
  let s₃ := ((limbTo st top).run s₂).2
  have hrun : ((t.grow st (top :: kept)).run s).2 = ((forM kept (limbTo st)).run s₃).2 := by
    simp only [grow, List.forM_eq_forM, run_bind, List.forM_cons, s₁, s₂, s₃]
  -- Every phase lays leaves or logs, so the cells of `V` are passable after it.
  have hs₁ : s₁.Holds passable V := (Only.held (by simp) hs).1
  have hs₂ : s₂.Holds passable V := (Only.held (by simp [trunk]) hs₁).1
  have hs₃ : s₃.Holds passable V := (Only.held (by simp) hs₂).1
  obtain ⟨leaves, h₁, hleaves⟩ := Adds.forM (l := top :: kept) (fun c _ => t.adds_foliage c) s
  obtain ⟨logs, h₂, hlogs⟩ := t.adds_trunk st s₁
  obtain ⟨first, h₃, hfirst⟩ := st.run_limbTo top s₂
  obtain ⟨limbs, h₄, hlimbs⟩ := st.run_limbs (fun c hc q hq => ⟨c, hc, hq⟩) hs₃
  refine ⟨leaves ++ (logs ++ (first ++ limbs.flatten)), ?_,
    leaves, logs, first, limbs, rfl, hleaves, hlogs, hfirst, hlimbs⟩
  rw [hrun, h₄, h₃, h₂, h₁]
  simp only [List.append_assoc]

/-- A large oak that found no place changes nothing. Otherwise the line from the trunk to
each kept cluster was free before the call, and the log that is placed at each of its cells
replaces a block that limbs pass. -/
theorem limbs_pass_no_obstacle (t : LargeOak) (p : Pos) (s : Site) :
    let found := ((t.plan? p).run s).1
    let u := ((t.build p).run s).2
    ((t.build p).run s).1 = found.isSome ∧ (found = none → u.journal = s.journal) ∧
      ∀ st cs, found = some (st, cs) → ∃ kept ws, cs = st.topCluster t :: kept ∧
        (∀ c ∈ kept, IsFree s.journal (st.limbStart c) c.base) ∧
        u.journal.writes.toList = s.journal.writes.toList ++ ws ∧
        st.Stamps (st.topCluster t) kept ws := by
  obtain ⟨hsound, hjournal⟩ := t.finds_plan p s rfl
  rw [build_eq, run_bind]
  dsimp only
  cases hfound : ((t.plan? p).run s).1 with
  | none => exact ⟨rfl, fun _ => hjournal, fun _ _ h => nomatch h⟩
  | some plan =>
      obtain ⟨st, cs⟩ := plan
      refine ⟨by rw [run_bind]; rfl, fun h => (nomatch h), fun _ _ h => ?_⟩
      cases h
      obtain ⟨kept, rfl, hfree⟩ := hsound st cs hfound
      rw [← hjournal] at hfree
      obtain ⟨ws, hadded, hstamps⟩ := t.run_grow (st.topCluster t) hfree
      rw [hjournal] at hfree hadded
      refine ⟨kept, ws, rfl, hfree, ?_, hstamps⟩
      rw [run_bind]
      exact hadded

end LargeOak

end VoxelFeatures
