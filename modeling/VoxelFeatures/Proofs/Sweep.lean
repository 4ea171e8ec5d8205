import VoxelFeatures.Proofs.Retention
import VoxelFeatures.Proofs.Room

/-!
# Walks that change what they read

A walk that writes to its cells one after the other reads a world that is half done. Yet
if no step looks at a cell that an earlier step wrote to, each step finds what was there
at first, and the walk comes to what all its steps would do at once. `Cellwise` says of
the steps of a walk that each writes to a cell of its own, and that its outcome there
follows from the ids nearby. The order of the walk is then a matter of its list alone.
-/

namespace VoxelFeatures

/-- The act writes to cells of `C` alone. It may look elsewhere. -/
def Act.WritesIn (C : Pos → Prop) : Act → Prop
  | place p _ _ => C p
  | draw _ | look _ | report _ => True

namespace Act

variable {C : Pos → Prop}

@[simp] theorem writesIn_draw (d : Draw) : (draw d).WritesIn C := trivial

@[simp] theorem writesIn_look (p : Pos) : (look p).WritesIn C := trivial

@[simp] theorem writesIn_report (n : Note) : (report n).WritesIn C := trivial

@[simp] theorem writesIn_place (p : Pos) (b : Block) (notify : Bool) :
    (place p b notify).WritesIn C ↔ C p := Iff.rfl

end Act

/-- What is said of a world stays true when any cell but `p` is written to. -/
def Settles (p : Pos) (Q : Journal → Prop) : Prop :=
  ∀ (j : Journal) (q : Pos) (b : Block) (notify : Bool), q ≠ p → Q j → Q (j.set q b notify)

theorem settles_idAt (p : Pos) (Q : BlockId → Prop) : Settles p fun j => Q (j.idAt p) := by
  intro j q b notify hne hQ
  rwa [j.idAt_set, if_neg fun h => hne h.2.symm]

/-- The block at `p` is `b`, in a chunk that has been written. -/
def Settled (p : Pos) (b : Block) (j : Journal) : Prop := p.chunk ∈ j.world.chunks ∧ j.get p = b

/-- A written chunk does not change but by writes. -/
theorem settles_settled (p : Pos) (b : Block) : Settles p (Settled p b) := by
  intro j q c notify hne ⟨hchunk, hget⟩
  rw [Settled, j.world_set, j.get_set, j.world.get_set_of_mem_chunks hne.symm hchunk]
  refine ⟨?_, hget⟩
  cases hq : q.inHeight
  · rwa [j.world.set_of_not_inHeight hq]
  · exact (j.world.mem_chunks_set hq c p.chunk).2 (.inr hchunk)

theorem Site.settled_place_of_lt (s : Site) {p : Pos} (hp : p.inHeight) {b : Block}
    (hb : b.data < 16) {notify : Bool} : Settled p b (s.place p b notify).journal := by
  refine ⟨?_, ?_⟩
  · rw [s.journal_place hp, Journal.world_set]
    exact (s.journal.world.mem_chunks_set hp _ p.chunk).2 (.inl rfl)
  · rw [s.get_place_self hp, Block.stored_of_lt hb]

namespace Build

variable {α β ι : Type} {C : Pos → Prop}

theorem forM_flatMap (l : List α) (g : α → List β) (f : β → Build Unit) :
    forM (l.flatMap g) f = forM l fun a => forM (g a) f := by
  induction l with
  | nil => rfl
  | cons a l ih => simp [List.flatMap_cons, List.forM_append, List.forM_cons, ih]

/-- What settles at a cell outlasts a program that does not write there. -/
theorem Only.settled {m : Build α} (h : m.Only (Act.WritesIn C)) {p : Pos} (hp : ¬C p)
    {Q : Journal → Prop} (hQ : Settles p Q) (s : Site) (hs : Q s.journal) :
    Q (m.run s).2.journal := by
  refine Only.run (R := fun s t => Q s.journal → Q t.journal) (fun _ => id)
    (fun _ _ _ hst htu => htu ∘ hst) (fun a s ha hs => ?_) h s hs
  cases a with
  | draw d => exact hs
  | look q => exact hs
  | report n => exact hs
  | place q b notify =>
      rw [Act.perform, Site.place]
      split
      · exact hQ s.journal q b notify (fun hqp => hp (hqp ▸ ha)) hs
      · exact hs

theorem Only.idAt_run {m : Build α} (h : m.Only (Act.WritesIn C)) {p : Pos} (hp : ¬C p)
    (s : Site) : (m.run s).2.journal.idAt p = s.journal.idAt p :=
  h.settled hp (settles_idAt p (· = s.journal.idAt p)) s rfl

/-- Each step of a walk writes to its own cell. What comes of it there follows from the
ids that it finds nearby, and settles. -/
structure Cellwise (l : List ι) (f : ι → Build Unit) (cell : ι → Pos) (near : ι → Pos → Prop)
    (Out : ι → (Pos → BlockId) → Journal → Prop) : Prop where
  writes : ∀ i ∈ l, (f i).Only (Act.WritesIn (· = cell i))
  out : ∀ i ∈ l, ∀ s : Site, Out i s.journal.idAt ((f i).run s).2.journal
  congr : ∀ (i : ι) (ids ids' : Pos → BlockId) (j : Journal), (∀ q, near i q → ids q = ids' q) →
    Out i ids j → Out i ids' j
  settles : ∀ (i : ι) (ids : Pos → BlockId), Settles (cell i) (Out i ids)

namespace Cellwise

variable {l : List ι} {f : ι → Build Unit} {cell : ι → Pos} {near : ι → Pos → Prop}
  {Out : ι → (Pos → BlockId) → Journal → Prop}

theorem tail {i : ι} (h : Cellwise (i :: l) f cell near Out) : Cellwise l f cell near Out :=
  ⟨fun j hj => h.writes j (List.mem_cons_of_mem i hj),
    fun j hj => h.out j (List.mem_cons_of_mem i hj), h.congr, h.settles⟩

/-- The walk writes to its cells. -/
theorem only_forM (h : Cellwise l f cell near Out) :
    (forM l f).Only (Act.WritesIn fun q => ∃ i ∈ l, cell i = q) := by
  rw [Build.only_forM]
  refine fun i hi => (h.writes i hi).mono fun a ha => ?_
  cases a with
  | place p b notify => exact ⟨i, hi, Eq.symm ha⟩
  | draw d => trivial
  | look p => trivial
  | report n => trivial

/-- If no step looks at what earlier steps wrote, then each one has come to what it
would come to at first. -/
theorem out_forM (h : Cellwise l f cell near Out)
    (horder : l.Pairwise fun i j => cell i ≠ cell j ∧ ¬near j (cell i)) (s : Site) :
    ∀ i ∈ l, Out i s.journal.idAt ((forM l f).run s).2.journal := by
  induction l generalizing s with
  | nil => simp
  | cons i l ih =>
      rw [List.pairwise_cons] at horder
      rw [List.forM_cons, run_bind, List.forall_mem_cons]
      let t := ((f i).run s).2
      have hwrites : (f i).Only (Act.WritesIn (· = cell i)) := h.writes i List.mem_cons_self
      refine ⟨?_, fun j hj => ?_⟩
      · -- the rest of the walk leaves the cell alone
        have hcell : ¬∃ j ∈ l, cell j = cell i := fun ⟨j, hj, heq⟩ => (horder.1 j hj).1 heq.symm
        exact h.tail.only_forM.settled hcell (h.settles i _) t (h.out i List.mem_cons_self s)
      · refine h.congr j t.journal.idAt s.journal.idAt _ (fun q hq => ?_)
          (ih h.tail horder.2 t j hj)
        exact hwrites.idAt_run (fun heq => (horder.1 j hj).2 (heq ▸ hq)) s

end Cellwise

/-! ## Blocks put in place of others -/

theorem run_replace (S : BlockSet) (c : Pos) (b : Block) (s : Site) :
    ((replace S c b).run s).2 =
      if S.contains (s.journal.idAt c) then s.place c b false else s := by
  by_cases hin : S.contains (s.journal.idAt c)
  · simp [replace, isIn, run_bind, hin]
  · simp [replace, isIn, run_bind, hin]

/-- The block is at the cell, if the id that was there may be replaced, and the id is still
there otherwise. -/
def Replaced (S : BlockSet) (b : Block) (c : Pos) (ids : Pos → BlockId) (j : Journal) : Prop :=
  if S.contains (ids c) ∧ c.inHeight then Settled c b j else j.idAt c = ids c

theorem replaced_replace (S : BlockSet) {b : Block} (hb : b.data < 16) (c : Pos) (s : Site) :
    Replaced S b c s.journal.idAt ((replace S c b).run s).2.journal := by
  rw [Replaced, run_replace]
  by_cases hin : S.contains (s.journal.idAt c)
  · rw [if_pos hin]
    cases hc : c.inHeight with
    | true =>
        rw [if_pos ⟨hin, rfl⟩]
        exact s.settled_place_of_lt hc hb
    | false =>
        rw [if_neg fun h => absurd h.2 (by decide), s.place_of_not_inHeight hc]
  · rw [if_neg hin, if_neg fun h => hin h.1]

theorem cellwise_replace (S : BlockSet) {b : Block} (hb : b.data < 16) (cells : List Pos) :
    Cellwise cells (fun c => replace S c b) id (fun c q => q = c) (Replaced S b) where
  writes c _ := by simp [replace]
  out c _ s := replaced_replace S hb c s
  congr c ids ids' j hids h := by
    rwa [Replaced, ← hids c rfl]
  settles c ids j q d notify hne h := by
    rw [Replaced] at h ⊢
    split
    · rename_i hin
      rw [if_pos hin] at h
      exact settles_settled c b j q d notify hne h
    · rename_i hin
      rw [if_neg hin] at h
      exact settles_idAt c (· = ids c) j q d notify hne h

/-- A walk that puts a block in place of others at cells that are all different does so by
what was there at first, and nothing changes elsewhere. -/
theorem replaced_forM (S : BlockSet) {b : Block} (hb : b.data < 16) {cells : List Pos}
    (hcells : cells.Nodup) (s : Site) :
    let t := ((forM cells fun c => replace S c b).run s).2
    (∀ c ∈ cells, Replaced S b c s.journal.idAt t.journal) ∧
      ∀ q, q ∉ cells → t.journal.idAt q = s.journal.idAt q := by
  have hwise := cellwise_replace S hb cells
  refine ⟨hwise.out_forM (hcells.imp fun hne => ⟨hne, hne⟩) s, fun q hq => ?_⟩
  exact hwise.only_forM.idAt_run (fun ⟨c, hc, hcq⟩ => hq (hcq ▸ hc)) s

end Build

/-! ## Walks in order -/

/-- The cells of nested walks come by the outermost coordinate first. -/
theorem pairwise_nested {α β γ δ : Type} {R : α → α → Prop} {S : β → β → Prop} {T : γ → γ → Prop}
    {xs : List α} {ys : List β} {zs : List γ} (hx : xs.Pairwise R) (hy : ys.Pairwise S)
    (hz : zs.Pairwise T) (f : α → β → γ → δ) :
    (xs.flatMap fun x => ys.flatMap fun y => zs.map fun z => f x y z).Pairwise fun i j =>
      ∃ x y z x' y' z', i = f x y z ∧ j = f x' y' z' ∧
        (R x x' ∨ x = x' ∧ (S y y' ∨ y = y' ∧ T z z')) := by
  refine List.pairwise_flatMap.2 ⟨fun x _ => List.pairwise_flatMap.2 ⟨fun y _ => ?_, ?_⟩, ?_⟩
  · exact List.pairwise_map.2 (hz.imp fun {z z'} hlt =>
      ⟨x, y, z, x, y, z', rfl, rfl, .inr ⟨rfl, .inr ⟨rfl, hlt⟩⟩⟩)
  · refine hy.imp fun {y y'} hlt i hi j hj => ?_
    obtain ⟨z, -, rfl⟩ := List.mem_map.1 hi
    obtain ⟨z', -, rfl⟩ := List.mem_map.1 hj
    exact ⟨x, y, z, x, y', z', rfl, rfl, .inr ⟨rfl, .inl hlt⟩⟩
  · refine hx.imp fun {x x'} hlt i hi j hj => ?_
    simp only [List.mem_flatMap, List.mem_map] at hi hj
    obtain ⟨y, -, z, -, rfl⟩ := hi
    obtain ⟨y', -, z', -, rfl⟩ := hj
    exact ⟨x, y, z, x', y', z', rfl, rfl, .inl hlt⟩

namespace Span

theorem pairwise_listFrom {i : Int32} {n : Nat} (h : i.toInt + n ≤ 2147483648) :
    (listFrom 1 i n).Pairwise (· < ·) := by
  induction n generalizing i with
  | zero => exact .nil
  | succ n ih =>
      rw [listFrom, List.pairwise_cons]
      by_cases hn : n = 0
      · subst hn
        exact ⟨by simp [listFrom], .nil⟩
      · have hnext : (i + 1).toInt = i.toInt + 1 := toInt_add_one (by omega)
        refine ⟨fun x hx => ?_, ih (by omega)⟩
        rw [mem_listFrom (by omega), hnext] at hx
        rw [Int32.lt_iff_toInt_lt]
        omega

theorem pairwise_closed (a b : Int32) : (closed a b).toList.Pairwise (· < ·) := by
  have ha := toInt_range a
  have hb := toInt_range b
  have hn : a.toInt + (b.toInt - a.toInt + 1).toNat ≤ 2147483648 := by omega
  exact pairwise_listFrom hn

theorem pairwise_halfOpen (a b : Int32) : (halfOpen a b).toList.Pairwise (· < ·) := by
  have ha := toInt_range a
  have hb := toInt_range b
  have hn : a.toInt + (b.toInt - a.toInt).toNat ≤ 2147483648 := by omega
  exact pairwise_listFrom hn

end Span

end VoxelFeatures
