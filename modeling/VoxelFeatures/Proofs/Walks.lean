import VoxelFeatures.Proofs.Acts

/-!
# The acts of walks

The rules for the acts of every walk of the library. Walks over spans and lines
come down to the lists of their words and cells.
-/

namespace VoxelFeatures

namespace Build

variable {α β ι : Type} {P : Act → Prop}

/-! ## Lists -/

@[simp] theorem only_forM (l : List ι) (f : ι → Build Unit) :
    (forM l f).Only P ↔ ∀ i ∈ l, (f i).Only P := by
  induction l with
  | nil => simp
  | cons i l ih =>
      obtain ⟨u, hu⟩ := (f i).exists_returns
      simp only [List.forM_cons, only_bind, List.forall_mem_cons]
      exact and_congr_right fun _ => ⟨fun h => ih.1 (h u hu), fun h _ _ => ih.2 h⟩

theorem Only.allM {l : List ι} {f : ι → Build Bool} (h : ∀ i ∈ l, (f i).Only P) :
    (l.allM f).Only P := by
  induction l with
  | nil => exact .done true
  | cons i l ih =>
      rw [List.forall_mem_cons] at h
      refine .bind h.1 fun b => ?_
      cases b with
      | false => exact .done false
      | true => exact ih h.2

theorem Only.anyM {l : List ι} {f : ι → Build Bool} (h : ∀ i ∈ l, (f i).Only P) :
    (l.anyM f).Only P := by
  induction l with
  | nil => exact .done false
  | cons i l ih =>
      rw [List.forall_mem_cons] at h
      refine .bind h.1 fun b => ?_
      cases b with
      | false => exact ih h.2
      | true => exact .done true

theorem Only.mapM {l : List ι} {f : ι → Build α} (h : ∀ i ∈ l, (f i).Only P) :
    (l.mapM f).Only P := by
  induction l with
  | nil => exact .done []
  | cons i l ih =>
      rw [List.forall_mem_cons] at h
      simp [List.mapM_cons, h.1, ih h.2]

theorem Only.filterAuxM {l kept : List ι} {f : ι → Build Bool} (h : ∀ i ∈ l, (f i).Only P) :
    (l.filterAuxM f kept).Only P := by
  induction l generalizing kept with
  | nil => exact .done kept
  | cons i l ih =>
      rw [List.forall_mem_cons] at h
      exact .bind h.1 fun b => ih h.2

theorem Only.filterM {l : List ι} {f : ι → Build Bool} (h : ∀ i ∈ l, (f i).Only P) :
    (l.filterM f).Only P :=
  .bind (.filterAuxM h) fun kept => .done kept.reverse

theorem Only.foldlM {l : List ι} {f : α → ι → Build α} (h : ∀ a, ∀ i ∈ l, (f a i).Only P)
    (a : α) : (l.foldlM f a).Only P := by
  induction l generalizing a with
  | nil => exact .done a
  | cons i l ih =>
      rw [List.foldlM_cons]
      exact .bind (h a i (by simp)) fun b => ih (fun a j hj => h a j (by simp [hj])) b

/-- A fold keeps what each of its steps keeps, and satisfies `P` if its steps do from there. -/
theorem foldlM_invariant {I : α → Prop} {l : List ι} {f : α → ι → Build α}
    (h : ∀ a, I a → ∀ i ∈ l, (f a i).Only P ∧ ∀ b, (f a i).Returns b → I b) {a : α} (ha : I a) :
    (l.foldlM f a).Only P ∧ ∀ b, (l.foldlM f a).Returns b → I b := by
  induction l generalizing a with
  | nil =>
      refine ⟨.done a, fun b hb => ?_⟩
      cases hb
      exact ha
  | cons i l ih =>
      have hl := fun a ha => ih (fun a ha j hj => h a ha j (List.mem_cons_of_mem i hj)) (a := a) ha
      obtain ⟨honly, hreturns⟩ := h a ha i List.mem_cons_self
      simp only [List.foldlM_cons, only_bind, returns_bind]
      refine ⟨⟨honly, fun b hb => (hl b (hreturns b hb)).1⟩, fun c hc => ?_⟩
      obtain ⟨b, hb, hbc⟩ := hc
      exact (hl b (hreturns b hb)).2 c hbc

/-! ## Spans and lines -/

@[simp] theorem only_forM_span (s : Span) (f : Int32 → Build Unit) :
    (s.forM f).Only P ↔ ∀ i ∈ s.toList, (f i).Only P := by
  rw [Span.forM_eq, List.forM_eq_forM, only_forM]

theorem Only.allM_span {s : Span} {f : Int32 → Build Bool} (h : ∀ i ∈ s.toList, (f i).Only P) :
    (s.allM f).Only P := by
  rw [Span.allM_eq]
  exact .allM h

theorem Only.foldM_span {s : Span} {f : α → Int32 → Build α}
    (h : ∀ a, ∀ i ∈ s.toList, (f a i).Only P) (a : α) : (s.foldM f a).Only P := by
  rw [Span.foldM_eq]
  exact .foldlM h a

theorem foldM_span_invariant {I : α → Prop} {s : Span} {f : α → Int32 → Build α}
    (h : ∀ a, I a → ∀ i ∈ s.toList, (f a i).Only P ∧ ∀ b, (f a i).Returns b → I b) {a : α}
    (ha : I a) : (s.foldM f a).Only P ∧ ∀ b, (s.foldM f a).Returns b → I b := by
  rw [Span.foldM_eq]
  exact foldlM_invariant h ha

@[simp] theorem only_forM_line (l : Line) (f : Pos → Build Unit) :
    (l.forM f).Only P ↔ ∀ p ∈ l.cells, (f p).Only P := by
  rw [Line.forM_eq, List.forM_eq_forM, only_forM]

theorem Only.findFrom {l : Line} {f : Pos → Build Bool} {n i : Nat}
    (h : ∀ p ∈ l.cellsFrom i n, (f p).Only P) : (l.findFrom f i n).Only P := by
  induction n generalizing i with
  | zero => exact .done none
  | succ n ih =>
      rw [Line.cellsFrom, List.forall_mem_cons] at h
      simp [Line.findFrom, h.1, ih h.2]

theorem Only.findIndexM? {l : Line} {f : Pos → Build Bool} (h : ∀ p ∈ l.cells, (f p).Only P) :
    (l.findIndexM? f).Only P :=
  .findFrom h

/-! ## Squares, descents and trials -/

@[simp] theorem only_forSquare (xs zs : Span) (f : Int32 → Int32 → Build Unit) :
    (forSquare xs zs f).Only P ↔ ∀ x ∈ xs.toList, ∀ z ∈ zs.toList, (f x z).Only P := by
  simp [forSquare]

theorem Only.allSquare {xs zs : Span} {f : Int32 → Int32 → Build Bool}
    (h : ∀ x ∈ xs.toList, ∀ z ∈ zs.toList, (f x z).Only P) : (allSquare xs zs f).Only P :=
  .allM_span fun x hx => .allM_span (h x hx)

@[simp] theorem only_forOffsets (r : Int32) (f : Int32 → Int32 → Build Unit) :
    (forOffsets r f).Only P ↔
      ∀ dx ∈ (Span.around 0 r).toList, ∀ dz ∈ (Span.around 0 r).toList, (f dx dz).Only P := by
  simp [forOffsets]

theorem Only.repeated {m : Build Unit} (h : m.Only P) (n : Nat) : (repeated m n).Only P := by
  induction n with
  | zero => exact .done ()
  | succ n ih => exact .bind h fun _ => ih

theorem Only.anyRepeated {m : Build Bool} (h : m.Only P) (n : Nat) : (anyRepeated m n).Only P := by
  induction n with
  | zero => exact .done false
  | succ n ih => simp [Build.anyRepeated, h, ih]

end Build

end VoxelFeatures
