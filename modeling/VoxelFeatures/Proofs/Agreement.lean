import VoxelFeatures.Proofs.Walks

/-!
# Runs at agreeing sites

Two sites agree on some cells if their streams are equal and every one of these
cells holds the same id in both worlds. Metadata, journals and notes may differ:
no act answers from them.

A program whose acts look at and write to cells of `C` alone cannot tell sites
apart that agree on `C`: it returns the same result, makes the same writes, and
leaves sites that agree on `C` again. A program is pointwise if it keeps the
agreement on any cells whatsoever, also where it acts on others.
-/

namespace VoxelFeatures

/-- Every cell that the act looks at or writes to is in `C`. -/
def Act.In (C : Pos → Prop) : Act → Prop
  | draw _ | report _ => True
  | look p | place p _ _ => C p

namespace Act

variable {C : Pos → Prop}

@[simp] theorem in_draw (d : Draw) : (draw d).In C := trivial

@[simp] theorem in_report (n : Note) : (report n).In C := trivial

@[simp] theorem in_look (p : Pos) : (look p).In C ↔ C p := Iff.rfl

@[simp] theorem in_place (p : Pos) (b : Block) (notify : Bool) : (place p b notify).In C ↔ C p :=
  Iff.rfl

end Act

namespace Site

variable {C : Pos → Prop} {s t : Site}

/-- The streams are equal, and the cells of `C` hold the same ids. -/
structure AgreeOn (C : Pos → Prop) (s t : Site) : Prop where
  stream : s.stream = t.stream
  idAt : ∀ p, C p → s.journal.idAt p = t.journal.idAt p

@[simp] theorem stream_place (s : Site) (p : Pos) (b : Block) (notify : Bool) :
    (s.place p b notify).stream = s.stream := by
  rw [place]
  split <;> rfl

/-- A placement within the height changes the id of its own cell and no other. -/
theorem idAt_place (s : Site) (p q : Pos) (b : Block) (notify : Bool) :
    (s.place p b notify).journal.idAt q =
      if p.inHeight ∧ q = p then b.id else s.journal.idAt q := by
  rw [place]
  split
  · exact s.journal.idAt_set p q b notify
  · rename_i hp
    rw [if_neg fun h => hp h.1]

theorem idAt_place_self (s : Site) {p : Pos} (hp : p.inHeight) (b : Block) (notify : Bool) :
    (s.place p b notify).journal.idAt p = b.id := by
  rw [idAt_place, if_pos ⟨hp, rfl⟩]

/-- The same placement keeps an agreement, whether its cell belongs to it or not. -/
theorem AgreeOn.place (h : s.AgreeOn C t) (p : Pos) (b : Block) (notify : Bool) :
    (s.place p b notify).AgreeOn C (t.place p b notify) where
  stream := by rw [stream_place, stream_place, h.stream]
  idAt q hq := by rw [idAt_place, idAt_place, h.idAt q hq]

theorem AgreeOn.draw (h : s.AgreeOn C t) (d : Draw) :
    (s.draw d).1 = (t.draw d).1 ∧ (s.draw d).2.AgreeOn C (t.draw d).2 := by
  refine ⟨?_, ?_, h.idAt⟩
  · change (d.answer s.stream).1 = (d.answer t.stream).1
    rw [h.stream]
  · change (d.answer s.stream).2 = (d.answer t.stream).2
    rw [h.stream]

/-- From `s` to `s'` and from `t` to `t'` writes to cells of `C` were added, and
both times the same ones were asked for, in the same order. -/
def AddAlike (C : Pos → Prop) (s s' t t' : Site) : Prop :=
  ∃ ws ws', s'.journal.writes.toList = s.journal.writes.toList ++ ws ∧
    t'.journal.writes.toList = t.journal.writes.toList ++ ws' ∧
    ws.map Write.request = ws'.map Write.request ∧ ∀ w ∈ ws, C w.pos

namespace AddAlike

/-- Nothing added. -/
theorem nil {s' t' : Site} (hs : s'.journal = s.journal) (ht : t'.journal = t.journal) :
    AddAlike C s s' t t' :=
  ⟨[], [], by simp [hs], by simp [ht], rfl, by simp⟩

theorem trans {s₁ s₂ s₃ t₁ t₂ t₃ : Site} (h : AddAlike C s₁ s₂ t₁ t₂)
    (h' : AddAlike C s₂ s₃ t₂ t₃) : AddAlike C s₁ s₃ t₁ t₃ := by
  obtain ⟨ws, ws', hs, ht, hsame, hpos⟩ := h
  obtain ⟨vs, vs', hs', ht', hsame', hpos'⟩ := h'
  refine ⟨ws ++ vs, ws' ++ vs', ?_, ?_, ?_, List.forall_mem_append.2 ⟨hpos, hpos'⟩⟩
  · rw [hs', hs, List.append_assoc]
  · rw [ht', ht, List.append_assoc]
  · rw [List.map_append, List.map_append, hsame, hsame']

theorem place (s t : Site) {p : Pos} (hp : C p) (b : Block) (notify : Bool) :
    AddAlike C s (s.place p b notify) t (t.place p b notify) := by
  cases hin : p.inHeight
  · rw [s.place_of_not_inHeight hin, t.place_of_not_inHeight hin]
    exact nil rfl rfl
  · exact ⟨[⟨p, b, notify, s.journal.get p⟩], [⟨p, b, notify, t.journal.get p⟩],
      s.writes_place hin b notify, t.writes_place hin b notify, rfl, by simpa using hp⟩

end AddAlike

end Site

/-- An act in `C` gets the same answer at sites that agree on `C`, leaves them in
agreement and adds the same writes to both. -/
theorem Act.perform_agreeOn {C : Pos → Prop} {a : Act} (ha : a.In C) {s t : Site}
    (h : s.AgreeOn C t) :
    (a.perform s).1 = (a.perform t).1 ∧ (a.perform s).2.AgreeOn C (a.perform t).2 ∧
      Site.AddAlike C s (a.perform s).2 t (a.perform t).2 := by
  cases a with
  | draw d =>
      obtain ⟨hanswer, hafter⟩ := h.draw d
      exact ⟨hanswer, hafter, .nil rfl rfl⟩
  | look p => exact ⟨h.idAt p ha, h, .nil rfl rfl⟩
  | place p b notify => exact ⟨rfl, h.place p b notify, .place s t ha b notify⟩
  | report n => exact ⟨rfl, ⟨h.stream, h.idAt⟩, .nil rfl rfl⟩

namespace Build

variable {α β ι : Type} {C : Pos → Prop}

/-- The acts of a run, in order. -/
def acts : Build α → Site → List Act
  | done _, _ => []
  | act a next, s => a :: (next (a.perform s).1).acts (a.perform s).2

theorem Only.acts {P : Act → Prop} {m : Build α} (h : m.Only P) (s : Site) :
    ∀ a ∈ m.acts s, P a := by
  induction h generalizing s with
  | done a => simp [Build.acts]
  | @act a next head rest ih =>
      rw [Build.acts, List.forall_mem_cons]
      exact ⟨head, ih _ (a.allows_perform s) _⟩

/-- A run whose acts are in `C` is the same at every site that agrees on `C`. -/
theorem run_agreeOn {m : Build α} {s t : Site} (hin : ∀ a ∈ m.acts s, a.In C)
    (h : s.AgreeOn C t) :
    (m.run s).1 = (m.run t).1 ∧ (m.run s).2.AgreeOn C (m.run t).2 ∧
      Site.AddAlike C s (m.run s).2 t (m.run t).2 := by
  induction m generalizing s t with
  | done a => exact ⟨rfl, h, .nil rfl rfl⟩
  | act a next ih =>
      rw [acts, List.forall_mem_cons] at hin
      obtain ⟨hanswer, hafter, hadded⟩ := a.perform_agreeOn hin.1 h
      obtain ⟨hresult, hend, hrest⟩ := ih _ hin.2 hafter
      rw [run_act, run_act, ← hanswer]
      exact ⟨hresult, hend, hadded.trans hrest⟩

/-- Then the run also performs the same acts there, in the same order. -/
theorem acts_agreeOn {m : Build α} {s t : Site} (hin : ∀ a ∈ m.acts s, a.In C)
    (h : s.AgreeOn C t) : m.acts s = m.acts t := by
  induction m generalizing s t with
  | done a => rfl
  | act a next ih =>
      rw [acts, List.forall_mem_cons] at hin
      obtain ⟨hanswer, hafter, -⟩ := a.perform_agreeOn hin.1 h
      rw [acts, acts, ih _ hin.2 hafter, hanswer]

/-! ## Pointwise programs -/

/-- At sites that agree on some cells the program returns the same result and
leaves sites that agree on them, whatever the cells are. -/
def Pointwise (m : Build α) : Prop :=
  ∀ (C : Pos → Prop) (s t : Site), s.AgreeOn C t →
    (m.run s).1 = (m.run t).1 ∧ (m.run s).2.AgreeOn C (m.run t).2

theorem pointwise_done (a : α) : (done a).Pointwise :=
  fun _ _ _ h => ⟨rfl, h⟩

theorem Pointwise.bind {m : Build α} (hm : m.Pointwise) {f : α → Build β}
    (hf : ∀ a, (f a).Pointwise) : (m >>= f).Pointwise := by
  intro C s t h
  obtain ⟨hresult, hafter⟩ := hm C s t h
  rw [run_bind, run_bind, ← hresult]
  exact hf _ C _ _ hafter

theorem pointwise_draw (d : Draw) : (act (.draw d) done).Pointwise :=
  fun _ _ _ h => h.draw d

theorem pointwise_report (n : Note) : (report n).Pointwise :=
  fun _ _ _ h => ⟨rfl, h.stream, h.idAt⟩

theorem Pointwise.forM {l : List ι} {f : ι → Build Unit} (h : ∀ i, (f i).Pointwise) :
    (forM l f).Pointwise := by
  induction l with
  | nil => exact pointwise_done ()
  | cons i l ih =>
      rw [List.forM_cons]
      exact (h i).bind fun _ => ih

theorem Pointwise.forM_span {s : Span} {f : Int32 → Build Unit} (h : ∀ i, (f i).Pointwise) :
    (s.forM f).Pointwise := by
  rw [Span.forM_eq, List.forM_eq_forM]
  exact .forM h

end Build

end VoxelFeatures
