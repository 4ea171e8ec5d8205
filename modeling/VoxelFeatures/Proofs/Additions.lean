import VoxelFeatures.Proofs.Refusal

/-!
# The writes that a run adds

Runs only ever add to a journal. `s.Adds P t` says that the journal of `t` is
that of `s` with more writes at its end, all of which satisfy `P`; `m.Adds P`
says so of every run of a program. A write knows the block that it replaced, so
`P` can say what a program overwrites.
-/

namespace VoxelFeatures

namespace Site

variable {P : Write → Prop} {s t u : Site}

/-- The journal of `t` is that of `s` with some more writes, which satisfy `P`. -/
def Adds (P : Write → Prop) (s t : Site) : Prop :=
  ∃ ws, t.journal.writes.toList = s.journal.writes.toList ++ ws ∧ ∀ w ∈ ws, P w

theorem Adds.nil (h : t.journal = s.journal) : s.Adds P t :=
  ⟨[], by simp [h], by simp⟩

theorem Adds.trans (h : s.Adds P t) (h' : t.Adds P u) : s.Adds P u := by
  obtain ⟨ws, hs, hws⟩ := h
  obtain ⟨vs, ht, hvs⟩ := h'
  exact ⟨ws ++ vs, by rw [ht, hs, List.append_assoc], List.forall_mem_append.2 ⟨hws, hvs⟩⟩

theorem Adds.mono {Q : Write → Prop} (h : s.Adds P t) (hPQ : ∀ w, P w → Q w) : s.Adds Q t := by
  obtain ⟨ws, hs, hws⟩ := h
  exact ⟨ws, hs, fun w hw => hPQ w (hws w hw)⟩

/-- The writes that were added are known from the two journals. -/
theorem Adds.and {Q : Write → Prop} (h : s.Adds P t) (h' : s.Adds Q t) :
    s.Adds (fun w => P w ∧ Q w) t := by
  obtain ⟨ws, hs, hws⟩ := h
  obtain ⟨vs, hs', hvs⟩ := h'
  have hsame : vs = ws := List.append_cancel_left (hs'.symm.trans hs)
  exact ⟨ws, hs, fun w hw => ⟨hws w hw, hvs w (hsame ▸ hw)⟩⟩

/-- A placement adds its own write, if it is within the height. -/
theorem adds_place (s : Site) (p : Pos) (b : Block) (notify : Bool)
    (h : p.inHeight → P ⟨p, b, notify, s.journal.get p⟩) : s.Adds P (s.place p b notify) := by
  cases hp : p.inHeight
  · exact .nil (by rw [s.place_of_not_inHeight hp])
  · exact ⟨[⟨p, b, notify, s.journal.get p⟩], s.writes_place hp b notify, by simpa using h hp⟩

end Site

namespace Build

variable {α β ι : Type} {P : Write → Prop}

/-- Every run of the program adds writes that satisfy `P`. -/
def Adds (P : Write → Prop) (m : Build α) : Prop := ∀ s : Site, s.Adds P (m.run s).2

theorem adds_done (a : α) : (done a).Adds P := fun _ => .nil rfl

theorem Adds.mono {m : Build α} {Q : Write → Prop} (h : m.Adds P) (hPQ : ∀ w, P w → Q w) :
    m.Adds Q :=
  fun s => (h s).mono hPQ

theorem Adds.bind {m : Build α} (hm : m.Adds P) {f : α → Build β} (hf : ∀ a, (f a).Adds P) :
    (m >>= f).Adds P := by
  intro s
  rw [run_bind]
  exact (hm s).trans (hf _ _)

theorem Adds.ite {c : Prop} [Decidable c] {m n : Build α} (hm : m.Adds P) (hn : n.Adds P) :
    (if c then m else n).Adds P := by
  split
  · exact hm
  · exact hn

/-- A run adds some writes. -/
theorem adds_some (m : Build α) : m.Adds fun _ => True := by
  intro s
  induction m generalizing s with
  | done a => exact .nil rfl
  | act a next ih =>
      have hact : s.Adds (fun _ => True) (a.perform s).2 := by
        cases a with
        | draw d => exact .nil rfl
        | look p => exact .nil rfl
        | place p b notify => exact s.adds_place p b notify fun _ => trivial
        | report n => exact .nil rfl
      exact hact.trans (ih _ _)

/-- A program that only draws and looks adds nothing. -/
theorem adds_of_inspects {m : Build α} (h : m.Only Act.Inspects) : m.Adds P :=
  fun s => Only.run (R := Site.Adds P) (fun _ => .nil rfl) (fun _ _ _ => .trans)
    (fun _ s ha => .nil (Act.journal_perform ha.not_places s)) h s

/-- Nor does it change the journal in any other way. -/
theorem Only.journal_run {m : Build α} (h : m.Only Act.Inspects) (s : Site) :
    (m.run s).2.journal = s.journal :=
  Only.run (R := fun s t => t.journal = s.journal) (fun _ => rfl)
    (fun _ _ _ hst htu => htu.trans hst) (fun _ s ha => Act.journal_perform ha.not_places s) h s

/-- What is asked of the writes may depend on the result of a search and on the site
that it leaves. -/
theorem adds_bind_inspects {Q : α → Site → Write → Prop} {m : Build α} (hm : m.Only Act.Inspects)
    {f : α → Build β} (hf : ∀ a (s : Site), s.Adds (Q a s) ((f a).run s).2) (s : Site) :
    s.Adds (Q (m.run s).1 (m.run s).2) ((m >>= f).run s).2 := by
  rw [run_bind]
  exact Site.Adds.trans (adds_of_inspects hm s) (hf _ _)

theorem adds_draw (d : Draw) : (act (.draw d) done).Adds P := fun _ => .nil rfl

theorem adds_bounded (bound : Int32) : (bounded bound).Adds P := adds_draw _

theorem adds_report (n : Note) : (report n).Adds P := fun _ => .nil rfl

theorem Adds.forM {l : List ι} {f : ι → Build Unit} (h : ∀ i ∈ l, (f i).Adds P) :
    (forM l f).Adds P := by
  induction l with
  | nil => exact adds_done ()
  | cons i l ih =>
      rw [List.forall_mem_cons] at h
      rw [List.forM_cons]
      exact h.1.bind fun _ => ih h.2

theorem Adds.forM_span {s : Span} {f : Int32 → Build Unit} (h : ∀ i, (f i).Adds P) :
    (s.forM f).Adds P := by
  rw [Span.forM_eq, List.forM_eq_forM]
  exact .forM fun i _ => h i

theorem Adds.foldlM {l : List ι} {f : α → ι → Build α} (h : ∀ a, ∀ i ∈ l, (f a i).Adds P)
    (a : α) : (l.foldlM f a).Adds P := by
  induction l generalizing a with
  | nil => exact adds_done a
  | cons i l ih =>
      rw [List.foldlM_cons]
      exact (h a i List.mem_cons_self).bind
        (ih fun a j hj => h a j (List.mem_cons_of_mem i hj))

theorem Adds.foldM_span {s : Span} {f : α → Int32 → Build α} (h : ∀ a i, (f a i).Adds P) (a : α) :
    (s.foldM f a).Adds P := by
  rw [Span.foldM_eq]
  exact .foldlM (fun a i _ => h a i) a

theorem Adds.forSquare {xs zs : Span} {f : Int32 → Int32 → Build Unit} (h : ∀ x z, (f x z).Adds P) :
    (forSquare xs zs f).Adds P :=
  .forM_span fun x => .forM_span (h x)

theorem Adds.forOffsets {r : Int32} {f : Int32 → Int32 → Build Unit}
    (h : ∀ dx dz, (f dx dz).Adds P) : (forOffsets r f).Adds P :=
  .forSquare h

/-! ## Placements behind a look -/

/-- A program that starts from a cell whose id was found in a set. -/
theorem adds_isIn {S : BlockSet} {p : Pos} {m n : Build α}
    (hm : ∀ s : Site, S.contains (s.journal.idAt p) → s.Adds P (m.run s).2) (hn : n.Adds P) :
    (isIn S p >>= fun found => if found = true then m else n).Adds P := by
  intro s
  change s.Adds P ((if S.contains (s.journal.idAt p) = true then m else n).run s).2
  split
  · rename_i hfound
    exact hm s hfound
  · exact hn s

theorem adds_isAir {p : Pos} {m n : Build α}
    (hm : ∀ s : Site, s.journal.idAt p = .air → s.Adds P (m.run s).2) (hn : n.Adds P) :
    (isAir p >>= fun air => if air = true then m else n).Adds P := by
  intro s
  change s.Adds P ((if decide (s.journal.idAt p = .air) = true then m else n).run s).2
  split
  · rename_i hair
    exact hm s (of_decide_eq_true hair)
  · exact hn s

/-- A placement where the id that is replaced is known, and what goes on after it. -/
theorem adds_place_bind {p : Pos} {b : Block} {f : Unit → Build α} {s : Site}
    (hp : ∀ before, before.id = s.journal.idAt p → P ⟨p, b, false, before⟩) (hf : (f ()).Adds P) :
    s.Adds P ((place p b >>= f).run s).2 := by
  rw [run_bind]
  refine (s.adds_place p b false fun _ => hp _ ?_).trans (hf _)
  exact (s.journal.idAt_eq p).symm

theorem adds_place {p : Pos} {b : Block} (hp : ∀ before, P ⟨p, b, false, before⟩) :
    (place p b).Adds P :=
  fun s => s.adds_place p b false fun _ => hp _

theorem adds_replace {S : BlockSet} {p : Pos} {b : Block}
    (hp : ∀ before, S.contains before.id → P ⟨p, b, false, before⟩) : (replace S p b).Adds P := by
  refine adds_isIn (fun s hs => ?_) (adds_done ())
  rw [s.journal.idAt_eq p] at hs
  exact s.adds_place p b false fun _ => hp _ hs

end Build

end VoxelFeatures
