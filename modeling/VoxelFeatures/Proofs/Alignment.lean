import Mathlib.Logic.Function.Iterate
import VoxelFeatures.Proofs.Walks

/-!
# Runs abreast

Two runs are abreast if they leave the same stream whenever they start from the
same one, whatever the worlds and the origins are. Nothing but draws moves the
stream, so programs that do not draw are abreast of each other. A draw has the same
value in both runs, so programs that do not look at the world are abreast of
themselves. What remains are the places where a draw stands behind a look: there
both runs have to come to the draw.

Features that may give up have runs in step: they leave the same stream if both
succeed. Programs of a fixed number of draws advance the stream by that number,
also where they fail; a draw below a power of two counts as one, for it never
rejects.
-/

namespace VoxelFeatures

namespace Act

/-- The act does not draw. -/
def Still : Act → Prop
  | draw _ => False
  | look _ | place .. | report _ => True

/-- The act does not look at the world. -/
def Blind : Act → Prop
  | look _ => False
  | draw _ | place .. | report _ => True

@[simp] theorem still_look (p : Pos) : (look p).Still := trivial

@[simp] theorem still_place (p : Pos) (b : Block) (notify : Bool) : (place p b notify).Still :=
  trivial

@[simp] theorem still_report (n : Note) : (report n).Still := trivial

@[simp] theorem blind_draw (d : Draw) : (draw d).Blind := trivial

@[simp] theorem blind_place (p : Pos) (b : Block) (notify : Bool) : (place p b notify).Blind :=
  trivial

@[simp] theorem blind_report (n : Note) : (report n).Blind := trivial

/-- Nothing but a draw moves the stream. -/
theorem Still.stream_perform {a : Act} (h : a.Still) (s : Site) :
    (a.perform s).2.stream = s.stream := by
  cases a with
  | draw d => exact h.elim
  | look p => rfl
  | place p b notify =>
      rw [perform, Site.place]
      split <;> rfl
  | report n => rfl

end Act

namespace Build

variable {α β γ δ ι : Type}

/-- A run without draws leaves the stream as it is. -/
theorem Only.stream_run {m : Build α} (h : m.Only Act.Still) (s : Site) :
    (m.run s).2.stream = s.stream := by
  exact Only.run (R := fun s t => t.stream = s.stream) (fun _ => rfl)
    (fun _ _ _ hst htu => htu.trans hst) (fun _ s ha => ha.stream_perform s) h s

/-! ## Programs abreast -/

/-- From sites with the same stream, the results of both programs are related by
`R`, and the streams are the same again. -/
def Abreast (R : α → β → Prop) (m : Build α) (n : Build β) : Prop :=
  ∀ s t : Site, s.stream = t.stream →
    R (m.run s).1 (n.run t).1 ∧ (m.run s).2.stream = (n.run t).2.stream

/-- Both programs only have the stream in common. -/
abbrev Parallel (m : Build α) (n : Build β) : Prop := Abreast (fun _ _ => True) m n

variable {R : α → β → Prop} {S : γ → δ → Prop} {m : Build α} {n : Build β}

theorem abreast_done {a : α} {b : β} (h : R a b) : Abreast R (done a) (done b) :=
  fun _ _ hst => ⟨h, hst⟩

theorem Abreast.mono {R' : α → β → Prop} (h : Abreast R m n) (hR : ∀ a b, R a b → R' a b) :
    Abreast R' m n :=
  fun s t hst => ⟨hR _ _ (h s t hst).1, (h s t hst).2⟩

theorem Abreast.bind (h : Abreast R m n) {f : α → Build γ} {g : β → Build δ}
    (hfg : ∀ a b, R a b → Abreast S (f a) (g b)) : Abreast S (m >>= f) (n >>= g) := by
  intro s t hst
  obtain ⟨hresult, hafter⟩ := h s t hst
  rw [run_bind, run_bind]
  exact hfg _ _ hresult _ _ hafter

/-- Programs without draws are abreast, with any of their results. -/
theorem abreast_still (hm : m.Only Act.Still) (hn : n.Only Act.Still) :
    Abreast (fun a b => m.Returns a ∧ n.Returns b) m n := by
  intro s t hst
  rw [hm.stream_run, hn.stream_run]
  exact ⟨⟨m.returns_run s, n.returns_run t⟩, hst⟩

theorem parallel_still (hm : m.Only Act.Still) (hn : n.Only Act.Still) : Parallel m n :=
  (abreast_still hm hn).mono fun _ _ _ => trivial

/-- A program that does not look has one result for each stream. -/
theorem Only.abreast {m : Build α} (h : m.Only Act.Blind) : Abreast Eq m m := by
  induction h with
  | done a => exact abreast_done rfl
  | @act a next head rest ih =>
      intro s t hst
      have hanswer : (a.perform s).1 = (a.perform t).1 ∧
          (a.perform s).2.stream = (a.perform t).2.stream := by
        cases a with
        | draw d =>
            change (d.answer s.stream).1 = (d.answer t.stream).1 ∧
              (d.answer s.stream).2 = (d.answer t.stream).2
            rw [hst]
            exact ⟨rfl, rfl⟩
        | look p => exact head.elim
        | place p b notify =>
            have hstill : (Act.place p b notify).Still := trivial
            exact ⟨rfl, (hstill.stream_perform s).trans (hst.trans (hstill.stream_perform t).symm)⟩
        | report n => exact ⟨rfl, hst⟩
      rw [run_act, run_act, ← hanswer.1]
      exact ih _ (a.allows_perform s) _ _ hanswer.2

/-- Both runs draw the same number. -/
theorem abreast_bounded (bound : Int32) : Abreast Eq (bounded bound) (bounded bound) :=
  Only.abreast (by simp)

theorem Abreast.ite {c c' : Prop} [Decidable c] [Decidable c'] (hc : c ↔ c') {m n : Build α}
    {m' n' : Build β} (hm : c → Abreast R m m') (hn : ¬c → Abreast R n n') :
    Abreast R (if c then m else n) (if c' then m' else n') := by
  by_cases h : c
  · rw [if_pos h, if_pos (hc.1 h)]
    exact hm h
  · rw [if_neg h, if_neg (mt hc.2 h)]
    exact hn h

/-! Walks over the same list are abreast if their bodies are. -/

theorem Abreast.forM {l : List ι} {f g : ι → Build Unit}
    (h : ∀ i ∈ l, Parallel (f i) (g i)) : Parallel (forM l f) (forM l g) := by
  induction l with
  | nil => exact abreast_done trivial
  | cons i l ih =>
      rw [List.forall_mem_cons] at h
      rw [List.forM_cons, List.forM_cons]
      exact h.1.bind fun _ _ _ => ih h.2

theorem Abreast.forM_span {s : Span} {f g : Int32 → Build Unit}
    (h : ∀ i ∈ s.toList, Parallel (f i) (g i)) : Parallel (s.forM f) (s.forM g) := by
  rw [Span.forM_eq, Span.forM_eq, List.forM_eq_forM]
  exact .forM h

theorem Abreast.forSquare {xs zs : Span} {f g : Int32 → Int32 → Build Unit}
    (h : ∀ x ∈ xs.toList, ∀ z ∈ zs.toList, Parallel (f x z) (g x z)) :
    Parallel (forSquare xs zs f) (forSquare xs zs g) :=
  .forM_span fun x hx => .forM_span (h x hx)

/-! ## Programs in step -/

/-- From sites with the same stream, both programs leave the same stream if both
succeed. -/
def InStep (m n : Build Bool) : Prop :=
  ∀ s t : Site, s.stream = t.stream → (m.run s).1 = true → (n.run t).1 = true →
    (m.run s).2.stream = (n.run t).2.stream

theorem Abreast.inStep {R : Bool → Bool → Prop} {m n : Build Bool} (h : Abreast R m n) :
    InStep m n :=
  fun s t hst _ _ => (h s t hst).2

theorem inStep_still {m n : Build Bool} (hm : m.Only Act.Still) (hn : n.Only Act.Still) :
    InStep m n :=
  (parallel_still hm hn).inStep

theorem inStep_refused_left (n : Build Bool) : InStep (done false) n :=
  fun _ _ _ h => by cases h

theorem inStep_refused_right (m : Build Bool) : InStep m (done false) :=
  fun _ _ _ _ h => by cases h

theorem InStep.bind (h : Abreast R m n) {f : α → Build Bool} {g : β → Build Bool}
    (hfg : ∀ a b, R a b → InStep (f a) (g b)) : InStep (m >>= f) (n >>= g) := by
  intro s t hst
  obtain ⟨hresult, hafter⟩ := h s t hst
  rw [run_bind, run_bind]
  exact hfg _ _ hresult _ _ hafter

/-- A draw in both runs. -/
theorem InStep.draw {bound : Int32} {f g : Int32 → Build Bool}
    (h : ∀ u, (Draw.bounded bound).Allows u → InStep (f u) (g u)) :
    InStep (bounded bound >>= f) (bounded bound >>= g) := by
  intro s t hst
  obtain ⟨hvalue, hafter⟩ := abreast_bounded bound s t hst
  have hallows := (returns_bounded bound _).1 ((bounded bound).returns_run s)
  rw [run_bind, run_bind, ← hvalue]
  exact h _ hallows _ _ hafter

/-- Searches and placements without draws may differ. -/
theorem InStep.bind_still (hm : m.Only Act.Still) (hn : n.Only Act.Still) {f : α → Build Bool}
    {g : β → Build Bool} (hfg : ∀ a b, m.Returns a → n.Returns b → InStep (f a) (g b)) :
    InStep (m >>= f) (n >>= g) :=
  .bind (abreast_still hm hn) fun a b h => hfg a b h.1 h.2

/-- A condition on which a feature goes on counts where it holds in both runs. -/
theorem InStep.guard {c c' : Prop} [Decidable c] [Decidable c'] {m n : Build Bool}
    (h : c → c' → InStep m n) :
    InStep (if c then m else done false) (if c' then n else done false) := by
  by_cases hc : c
  · by_cases hc' : c'
    · rw [if_pos hc, if_pos hc']
      exact h hc hc'
    · rw [if_neg hc']
      exact inStep_refused_right _
  · rw [if_neg hc]
    exact inStep_refused_left _

/-- A condition on which a feature gives up counts where it fails in both runs. -/
theorem InStep.unless {c c' : Prop} [Decidable c] [Decidable c'] {m n : Build Bool}
    (h : ¬c → ¬c' → InStep m n) :
    InStep (if c then done false else m) (if c' then done false else n) := by
  rw [← ite_not, ← ite_not (p := c')]
  exact .guard h

/-- A check without draws that both runs pass. -/
theorem InStep.check {c c' : Build Bool} (hc : c.Only Act.Still) (hc' : c'.Only Act.Still)
    {m n : Build Bool} (h : InStep m n) :
    InStep (c >>= fun b => if b = true then m else done false)
      (c' >>= fun b => if b = true then n else done false) :=
  .bind_still hc hc' fun _ _ _ _ => .guard fun _ _ => h

/-- Steps without draws that one run may take and the other not. -/
theorem InStep.optional {c c' : Prop} [Decidable c] [Decidable c'] {m m' : Build Unit}
    (hm : m.Only Act.Still) (hm' : m'.Only Act.Still) {f g : Unit → Build Bool}
    (h : InStep (f ()) (g ())) :
    InStep (if c then m >>= f else f ()) (if c' then m' >>= g else g ()) := by
  have hbind {m : Build Unit} (hm : m.Only Act.Still) (f : Unit → Build Bool) (s : Site) :
      ∃ s' : Site, s'.stream = s.stream ∧ (m >>= f).run s = (f ()).run s' :=
    ⟨(m.run s).2, hm.stream_run s, run_bind m f s⟩
  have hite {c : Prop} [Decidable c] {m : Build Unit} (hm : m.Only Act.Still)
      (f : Unit → Build Bool) (s : Site) : ∃ s' : Site, s'.stream = s.stream ∧
        (if c then m >>= f else f ()).run s = (f ()).run s' := by
    split
    · exact hbind hm f s
    · exact ⟨s, rfl, rfl⟩
  intro s t hst
  obtain ⟨s', hs', hrun⟩ := hite (c := c) hm f s
  obtain ⟨t', ht', hrun'⟩ := hite (c := c') hm' g t
  rw [hrun, hrun']
  exact h s' t' (hs'.trans (hst.trans ht'.symm))

/-! ## Programs of a fixed number of draws -/

/-- Every run advances the stream by `n` steps. -/
def Advances (n : Nat) (m : Build α) : Prop :=
  ∀ s : Site, (m.run s).2.stream = Stream.step^[n] s.stream

variable {k l : Nat} {m : Build α}

theorem Only.advances (h : m.Only Act.Still) : m.Advances 0 :=
  h.stream_run

theorem Advances.bind (hm : m.Advances k) {f : α → Build β} (hf : ∀ a, (f a).Advances l) :
    (m >>= f).Advances (l + k) := by
  intro s
  rw [run_bind, hf, hm, ← Function.iterate_add_apply]

/-- A draw below a power of two takes one step. -/
theorem advances_bounded {bound : Int32} (hb : 0 < bound) (hpower : bound &&& -bound = bound) :
    (bounded bound).Advances 1 := by
  intro s
  change (s.stream.bounded bound).2 = s.stream.step
  rw [Stream.bounded, if_neg (Int32.not_le.2 hb), if_pos hpower]

theorem Advances.repeated {m : Build Unit} (h : m.Advances k) (n : Nat) :
    (repeated m n).Advances (k * n) := by
  induction n with
  | zero => exact fun _ => rfl
  | succ n ih => exact h.bind fun _ => ih

theorem Advances.anyRepeated {m : Build Bool} (h : m.Advances k) (n : Nat) :
    (anyRepeated m n).Advances (k * n) := by
  induction n with
  | zero => exact fun _ => rfl
  | succ n ih =>
      refine h.bind (l := k * n) fun first => ?_
      rw [← Nat.zero_add (k * n)]
      exact ih.bind fun rest => Only.advances (.done _)

end Build

end VoxelFeatures
