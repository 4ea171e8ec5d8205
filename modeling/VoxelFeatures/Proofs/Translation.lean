import Mathlib.Data.List.Forall2
import VoxelFeatures.Proofs.Agreement
import VoxelFeatures.Proofs.Moves
import VoxelFeatures.Proofs.Room

/-!
# Translated runs

Two sites are alongside each other at a distance `dx`, `dz` if they have the same
stream and every cell of the one holds the same id as the cell of the other that is
this far off. The distance is one of integers: a cell at the end of the coordinates
may have no counterpart, and programs that come to such a cell are not compared.

`Alike dx dz g m n s t` compares the run of `m` at `s` with the run of `n` at `t`. If
the sites are alongside each other and every cell of the first run has a counterpart,
then `n` returns what `g` makes of the result of `m`, the sites stay alongside each
other, and the writes are the same up to the distance. A moved program is alike by
itself; what remains are walks over coordinates, which are the moved ones where they
do not wrap. `After` and `Passed` say this of the walks that a run comes to.
-/

namespace VoxelFeatures

/-- The move by two integers. -/
def Move.ofInts (dx dz : Int) : Move := ⟨.ofInt dx, .ofInt dz⟩

namespace Pos

/-- The coordinates of `q` are those of `p`, with `dx` and `dz` added as integers. -/
structure Apart (dx dz : Int) (p q : Pos) : Prop where
  x : q.x.toInt = p.x.toInt + dx
  y : q.y = p.y
  z : q.z.toInt = p.z.toInt + dz

/-- Some position is that far from `p`. -/
structure Carried (dx dz : Int) (p : Pos) : Prop where
  x : -2147483648 ≤ p.x.toInt + dx ∧ p.x.toInt + dx < 2147483648
  z : -2147483648 ≤ p.z.toInt + dz ∧ p.z.toInt + dz < 2147483648

variable {dx dz : Int} {p q p' q' : Pos}

theorem toInt_add_ofInt {a : Int32} {d : Int}
    (h : -2147483648 ≤ a.toInt + d ∧ a.toInt + d < 2147483648) :
    (a + .ofInt d).toInt = a.toInt + d := by
  have hsize : Int32.size = 2 ^ 32 := rfl
  rw [Int32.toInt_add, Int32.toInt_ofInt, hsize, Int.add_bmod_bmod]
  exact Int.bmod_eq_of_le (by omega) (by omega)

theorem Apart.carried (h : p.Apart dx dz q) : p.Carried dx dz := by
  have hx := toInt_range q.x
  have hz := toInt_range q.z
  rw [h.x] at hx
  rw [h.z] at hz
  exact ⟨hx, hz⟩

theorem Carried.apart_moved (h : p.Carried dx dz) : p.Apart dx dz (p.moved (.ofInts dx dz)) :=
  ⟨toInt_add_ofInt h.x, rfl, toInt_add_ofInt h.z⟩

theorem eq_iff_toInt : p = q ↔ p.x.toInt = q.x.toInt ∧ p.y = q.y ∧ p.z.toInt = q.z.toInt := by
  cases p
  cases q
  rw [mk.injEq, Int32.toInt_inj, Int32.toInt_inj]

/-- Cells are the same where their counterparts are. -/
theorem Apart.eq_iff (h : p.Apart dx dz q) (h' : p'.Apart dx dz q') : p' = p ↔ q' = q := by
  rw [eq_iff_toInt, eq_iff_toInt, h.x, h'.x, h.y, h'.y, h.z, h'.z, Int.add_left_inj,
    Int.add_left_inj]

theorem Apart.eq_moved (h : p.Apart dx dz q) : q = p.moved (.ofInts dx dz) :=
  (h.carried.apart_moved.eq_iff h).1 rfl

theorem Apart.inHeight (h : p.Apart dx dz q) : q.inHeight = p.inHeight := by
  rw [Pos.inHeight, Pos.inHeight, h.y]

end Pos

/-- The same block is written, at cells that are `dx` and `dz` apart. -/
structure Write.Apart (dx dz : Int) (w v : Write) : Prop where
  pos : w.pos.Apart dx dz v.pos
  block : w.block = v.block
  notify : w.notify = v.notify

namespace Site

variable {dx dz : Int} {s t : Site}

/-- The streams are equal, and cells that are `dx` and `dz` apart hold the same ids. -/
structure Alongside (dx dz : Int) (s t : Site) : Prop where
  stream : s.stream = t.stream
  idAt : ∀ p q, p.Apart dx dz q → s.journal.idAt p = t.journal.idAt q

theorem Alongside.place (h : s.Alongside dx dz t) {p q : Pos} (hpq : p.Apart dx dz q) (b : Block)
    (notify : Bool) : (s.place p b notify).Alongside dx dz (t.place q b notify) where
  stream := by rw [stream_place, stream_place, h.stream]
  idAt p' q' hq := by
    simp only [idAt_place, h.idAt p' q' hq, hpq.inHeight, hpq.eq_iff hq]

/-- Untouched ground is the same everywhere. -/
theorem alongside_ofLayers (seed : Int64) (layers : List (Block × Nat)) (σ : Stream)
    (ns : Array Note) :
    Alongside dx dz ⟨.ofWorld (.ofLayers seed layers), σ, ns⟩
      ⟨.ofWorld (.ofLayers seed layers), σ, ns⟩ where
  stream := rfl
  idAt p q hpq := by
    have hlayer : q.layer = p.layer := by simp only [Pos.layer, hpq.y]
    simp [Journal.idAt, Journal.ofWorld, World.idAt, World.ofLayers, World.ofProfile,
      hpq.inHeight, hlayer]

/-- From `s` to `s'` and from `t` to `t'` the same writes were added, `dx` and `dz`
apart and in the same order. -/
def AddApart (dx dz : Int) (s s' t t' : Site) : Prop :=
  ∃ ws vs, s'.journal.writes.toList = s.journal.writes.toList ++ ws ∧
    t'.journal.writes.toList = t.journal.writes.toList ++ vs ∧
    List.Forall₂ (Write.Apart dx dz) ws vs

namespace AddApart

theorem nil {s' t' : Site} (hs : s'.journal = s.journal) (ht : t'.journal = t.journal) :
    AddApart dx dz s s' t t' :=
  ⟨[], [], by simp [hs], by simp [ht], .nil⟩

theorem trans {s₁ s₂ s₃ t₁ t₂ t₃ : Site} (h : AddApart dx dz s₁ s₂ t₁ t₂)
    (h' : AddApart dx dz s₂ s₃ t₂ t₃) : AddApart dx dz s₁ s₃ t₁ t₃ := by
  obtain ⟨ws, vs, hs, ht, hsame⟩ := h
  obtain ⟨ws', vs', hs', ht', hsame'⟩ := h'
  refine ⟨ws ++ ws', vs ++ vs', ?_, ?_, List.rel_append hsame hsame'⟩
  · rw [hs', hs, List.append_assoc]
  · rw [ht', ht, List.append_assoc]

theorem place (s t : Site) {p q : Pos} (h : p.Apart dx dz q) (b : Block) (notify : Bool) :
    AddApart dx dz s (s.place p b notify) t (t.place q b notify) := by
  rw [Site.place, Site.place, h.inHeight]
  split
  · exact ⟨[⟨p, b, notify, s.journal.world.get p⟩], [⟨q, b, notify, t.journal.world.get q⟩],
      by simp, by simp, .cons ⟨h, rfl, rfl⟩ .nil⟩
  · exact nil rfl rfl

end AddApart

end Site

namespace Build

variable {α β γ δ ι : Type} {dx dz : Int} {s t : Site}

theorem acts_bind (m : Build α) (f : α → Build β) (s : Site) :
    (m >>= f).acts s = m.acts s ++ (f (m.run s).1).acts (m.run s).2 := by
  induction m generalizing s with
  | done a => rfl
  | act a next ih => simp [acts, ih]

/-! ## Where a run comes to -/

/-- `k` holds of the result of the run and of the site that it leaves. -/
structure After (m : Build α) (k : α → Site → Prop) (s : Site) : Prop where
  holds : k (m.run s).1 (m.run s).2

/-- `k` holds of the site that a check leaves, if it succeeds. -/
def Passed (m : Build Bool) (k : Site → Prop) : Site → Prop :=
  m.After fun ok s => ok = true → k s

/-- `K` holds of every item that a walk comes to. The walk ends with the first item
that fails. -/
def EachReached (f : ι → Build Bool) (K : ι → Prop) : List ι → Site → Prop
  | [], _ => True
  | i :: l, s => K i ∧ (f i).Passed (EachReached f K l) s

theorem After.of_returns {m : Build α} {k : α → Site → Prop} (h : ∀ a, m.Returns a → ∀ s, k a s)
    (s : Site) : m.After k s :=
  ⟨h _ (m.returns_run s) _⟩

theorem Passed.of_forall {m : Build Bool} {k : Site → Prop} (h : ∀ s, k s) (s : Site) :
    m.Passed k s :=
  ⟨fun _ => h _⟩

theorem EachReached.of_forall {f : ι → Build Bool} {K : ι → Prop} (h : ∀ i, K i) (l : List ι)
    (s : Site) : EachReached f K l s := by
  induction l generalizing s with
  | nil => trivial
  | cons i l ih => exact ⟨h i, .of_forall ih s⟩

/-! ## Programs alike -/

/-- The runs of `m` at `s` and of `n` at `t` are the same, `dx` and `dz` apart. -/
def Alike (dx dz : Int) (g : α → β) (m : Build α) (n : Build β) (s t : Site) : Prop :=
  s.Alongside dx dz t → (∀ a ∈ m.acts s, a.In (Pos.Carried dx dz)) →
    (n.run t).1 = g (m.run s).1 ∧ (m.run s).2.Alongside dx dz (n.run t).2 ∧
      Site.AddApart dx dz s (m.run s).2 t (n.run t).2

variable {g : α → β} {h : γ → δ} {m : Build α} {n : Build β}

theorem alike_done {a : α} {b : β} (hab : b = g a) : Alike dx dz g (done a) (done b) s t :=
  fun hst _ => ⟨hab, hst, .nil rfl rfl⟩

/-- The second run may go on in a way that depends on where both have come to. -/
theorem Alike.bind {f : α → Build γ} {f' : β → Build δ} (hmn : Alike dx dz g m n s t)
    (hf : Alike dx dz h (f (m.run s).1) (f' (g (m.run s).1)) (m.run s).2 (n.run t).2) :
    Alike dx dz h (m >>= f) (n >>= f') s t := by
  intro hst hin
  rw [acts_bind, List.forall_mem_append] at hin
  obtain ⟨hresult, hafter, hadded⟩ := hmn hst hin.1
  obtain ⟨hresult', hafter', hadded'⟩ := hf hafter hin.2
  rw [run_bind, run_bind, hresult]
  exact ⟨hresult', hafter', hadded.trans hadded'⟩

/-! A moved program takes the same acts, as far as their cells have counterparts. -/

theorem alike_draw (d : Draw) (s t : Site) :
    Alike dx dz id (act (.draw d) done) (act (.draw d) done) s t := by
  intro hst _
  change (d.answer t.stream).1 = (d.answer s.stream).1 ∧
    Site.Alongside dx dz (s.draw d).2 (t.draw d).2 ∧ _
  refine ⟨by rw [hst.stream], ⟨?_, hst.idAt⟩, .nil rfl rfl⟩
  change (d.answer s.stream).2 = (d.answer t.stream).2
  rw [hst.stream]

theorem alike_look (p : Pos) (s t : Site) :
    Alike dx dz id (look p) (look (p.moved (.ofInts dx dz))) s t := by
  intro hst hin
  have hcell : p.Carried dx dz := hin (.look p) (List.mem_singleton_self _)
  exact ⟨(hst.idAt _ _ hcell.apart_moved).symm, hst, .nil rfl rfl⟩

theorem alike_place (p : Pos) (b : Block) (notify : Bool) (s t : Site) :
    Alike dx dz id (act (.place p b notify) done)
      (act (.place (p.moved (.ofInts dx dz)) b notify) done) s t := by
  intro hst hin
  have hcell : p.Carried dx dz := hin (.place p b notify) (List.mem_singleton_self _)
  exact ⟨rfl, hst.place hcell.apart_moved b notify, .place s t hcell.apart_moved b notify⟩

theorem alike_report (n n' : Note) (s t : Site) :
    Alike dx dz id (report n) (report n') s t :=
  fun hst _ => ⟨rfl, ⟨hst.stream, hst.idAt⟩, .nil rfl rfl⟩

theorem alike_moved (m : Build α) (s t : Site) :
    Alike dx dz id m (m.moved (.ofInts dx dz)) s t := by
  induction m generalizing s t with
  | done a => exact alike_done rfl
  | act a next ih =>
      cases a with
      | draw d => exact (alike_draw d s t).bind (ih _ _ _)
      | look p => exact (alike_look p s t).bind (ih _ _ _)
      | place p b notify => exact (alike_place p b notify s t).bind (ih _ _ _)
      | report n => exact (alike_report n _ s t).bind (ih _ _ _)

theorem alike_of_eq {m' : Build α} (hm : m.moved (.ofInts dx dz) = m') :
    Alike dx dz id m m' s t := by
  rw [← hm]
  exact alike_moved m s t

/-- A program that returns a cell of its own returns the moved one. -/
theorem alike_of_eq_map {m' : Build β}
    (hm : m' = m.moved (.ofInts dx dz) >>= fun a => done (g a)) : Alike dx dz g m m' s t := by
  have hresult : Alike dx dz g (m >>= done) (m.moved _ >>= fun a => done (g a)) s t :=
    (alike_moved m s t).bind (alike_done rfl)
  rwa [bind_done, ← hm] at hresult

/-! ## Sequences, branches and checks -/

/-- What holds after the first programs may be used for the second ones. -/
theorem Alike.bind_after {k k' : _ → Site → Prop} {f : α → Build γ} {f' : β → Build δ}
    (hmn : Alike dx dz g m n s t) (hs : m.After k s) (ht : n.After k' t)
    (hf : ∀ a s' t', k a s' → k' (g a) t' → Alike dx dz h (f a) (f' (g a)) s' t') :
    Alike dx dz h (m >>= f) (n >>= f') s t := by
  intro hst hin
  have hresult : (n.run t).1 = g (m.run s).1 :=
    (hmn hst fun a ha => hin a (by rw [acts_bind]; exact List.mem_append_left _ ha)).1
  have ht := ht.holds
  rw [hresult] at ht
  exact hmn.bind (hf _ _ _ hs.holds ht) hst hin

theorem Alike.ite {c c' : Prop} [Decidable c] [Decidable c'] (hc : c' ↔ c) {m' : Build α}
    {n' : Build β} (hm : c → Alike dx dz g m n s t) (hn : ¬c → Alike dx dz g m' n' s t) :
    Alike dx dz g (if c then m else m') (if c' then n else n') s t := by
  by_cases hcase : c
  · rw [if_pos hcase, if_pos (hc.2 hcase)]
    exact hm hcase
  · rw [if_neg hcase, if_neg (mt hc.1 hcase)]
    exact hn hcase

/-- Steps that are taken on a condition. -/
theorem Alike.optional {c : Prop} [Decidable c] {m n : Build Unit} {f f' : Unit → Build α}
    (hm : Alike dx dz id ((if c then m else done ()) >>= f)
      ((if c then n else done ()) >>= f') s t) :
    Alike dx dz id (if c then m >>= f else f ()) (if c then n >>= f' else f' ()) s t := by
  by_cases hc : c
  · rwa [if_pos hc, if_pos hc] at hm ⊢
  · rwa [if_neg hc, if_neg hc] at hm ⊢

/-- A condition on which a feature gives up. -/
theorem Alike.unless {c c' : Prop} [Decidable c] [Decidable c'] (hc : c' ↔ c) {m n : Build Bool}
    (hm : ¬c → Alike dx dz id m n s t) :
    Alike dx dz id (if c then done false else m) (if c' then done false else n) s t :=
  .ite hc (fun _ => alike_done rfl) hm

/-- A check on which a feature goes on. -/
theorem Alike.check {c c' m n : Build Bool} {k k' : Site → Prop} (hc : Alike dx dz id c c' s t)
    (hs : c.Passed k s) (ht : c'.Passed k' t)
    (hm : ∀ s' t', k s' → k' t' → Alike dx dz id m n s' t') :
    Alike dx dz id (c >>= fun b => if b = true then m else done false)
      (c' >>= fun b => if b = true then n else done false) s t :=
  hc.bind_after hs ht fun _ _ _ hk hk' =>
    .ite Iff.rfl (fun hb => hm _ _ (hk hb) (hk' hb)) fun _ => alike_done rfl

/-! ## Walks -/

theorem Alike.forM_span {f f' : Int32 → Build Unit} {r : Span}
    (hf : ∀ i ∈ r.toList, ∀ s t, Alike dx dz id (f i) (f' i) s t) :
    Alike dx dz id (r.forM f) (r.forM f') s t := by
  have hlist (l : List Int32) (hf : ∀ i ∈ l, ∀ s t, Alike dx dz id (f i) (f' i) s t)
      (s t : Site) : Alike dx dz id (forM l f) (forM l f') s t := by
    induction l generalizing s t with
    | nil => exact alike_done rfl
    | cons i l ih =>
        rw [List.forall_mem_cons] at hf
        rw [List.forM_cons, List.forM_cons]
        exact (hf.1 s t).bind (ih hf.2 _ _)
  rw [Span.forM_eq, Span.forM_eq, List.forM_eq_forM]
  exact hlist r.toList hf s t

/-- A walk that may stop is alike if each item that it comes to is. -/
theorem Alike.allM {f f' : ι → Build Bool} {K K' : ι → Prop} {l : List ι}
    (hs : EachReached f K l s) (ht : EachReached f' K' l t)
    (hf : ∀ i, K i → K' i → (f i).moved (.ofInts dx dz) = f' i) :
    Alike dx dz id (l.allM f) (l.allM f') s t := by
  induction l generalizing s t with
  | nil => exact alike_done rfl
  | cons i l ih =>
      refine (alike_of_eq (hf i hs.1 ht.1)).bind_after hs.2 ht.2 fun b s' t' hk hk' => ?_
      cases b with
      | false => exact alike_done rfl
      | true => exact ih (hk rfl) (hk' rfl)

theorem Alike.allM_span {f f' : Int32 → Build Bool} {K K' : Int32 → Prop} {r : Span}
    (hs : EachReached f K r.toList s) (ht : EachReached f' K' r.toList t)
    (hf : ∀ i, K i → K' i → (f i).moved (.ofInts dx dz) = f' i) :
    Alike dx dz id (r.allM f) (r.allM f') s t := by
  rw [Span.allM_eq, Span.allM_eq]
  exact .allM hs ht hf

end Build

end VoxelFeatures
