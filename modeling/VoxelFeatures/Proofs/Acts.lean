import VoxelFeatures.Build.Walk
import VoxelFeatures.Grid.Line
import VoxelFeatures.Proofs.Draw

/-!
# The acts and results of a program

`m.Only P` says that every act of `m` satisfies `P`, and `m.Returns a` that `a`
is one of its results. Both are read off the tree, for all answers that its acts
allow: any id for a look, the range of the bound for a bounded draw. So they hold
at every site, and each combinator has one rule for each of them.

A walk that goes over all its cells satisfies `P` exactly if each of its bodies
does. One that may stop early has the sufficient direction only.
-/

namespace VoxelFeatures

namespace Act

/-- The answers that an act can get, whatever the site. -/
def Allows : (a : Act) → a.Answer → Prop
  | draw d, u => d.Allows u
  | look _, _ | place .., _ | report _, _ => True

theorem allows_perform (a : Act) (s : Site) : a.Allows (a.perform s).1 := by
  cases a with
  | draw d => exact d.allows_answer s.stream
  | look p => trivial
  | place p b notify => trivial
  | report n => trivial

/-- Every act has an answer: zero is in the range of every draw. -/
theorem exists_allows (a : Act) : ∃ r, a.Allows r := by
  cases a with
  | draw d =>
      refine ⟨(0 : Int32), ?_⟩
      cases d with
      | bits n => trivial
      | bounded bound => exact ⟨fun hb => ⟨Int32.le_refl 0, hb⟩, fun _ => rfl⟩
  | look p => exact ⟨BlockId.air, trivial⟩
  | place p b notify => exact ⟨(), trivial⟩
  | report n => exact ⟨(), trivial⟩

end Act

namespace Build

variable {α β ι : Type} {P Q : Act → Prop}

/-- Every act of the program satisfies `P`. -/
inductive Only (P : Act → Prop) : Build α → Prop
  | done (a : α) : Only P (done a)
  | act {a : Act} {next : a.Answer → Build α} (head : P a)
      (rest : ∀ r, a.Allows r → Only P (next r)) : Only P (act a next)

/-- The program can end with the result `b`. -/
def Returns : Build α → α → Prop
  | done a, b => b = a
  | act a next, b => ∃ r, a.Allows r ∧ (next r).Returns b

/-! ## Sequences and branches -/

@[simp] theorem only_done (a : α) : (done a).Only P := .done a

@[simp] theorem only_act (a : Act) (next : a.Answer → Build α) :
    (act a next).Only P ↔ P a ∧ ∀ r, a.Allows r → (next r).Only P :=
  ⟨fun | .act head rest => ⟨head, rest⟩, fun ⟨head, rest⟩ => .act head rest⟩

@[simp] theorem returns_done (a b : α) : (done a).Returns b ↔ b = a := Iff.rfl

@[simp] theorem returns_act (a : Act) (next : a.Answer → Build α) (b : α) :
    (act a next).Returns b ↔ ∃ r, a.Allows r ∧ (next r).Returns b := Iff.rfl

/-- The second program of a sequence counts for the results of the first only. -/
@[simp] theorem only_bind (m : Build α) (f : α → Build β) :
    (m >>= f).Only P ↔ m.Only P ∧ ∀ a, m.Returns a → (f a).Only P := by
  induction m with
  | done a => simp
  | act a next ih =>
      simp only [act_bind, only_act, returns_act, ih]
      constructor
      · intro ⟨ha, h⟩
        exact ⟨⟨ha, fun r hr => (h r hr).1⟩, fun b ⟨r, hr, hb⟩ => (h r hr).2 b hb⟩
      · intro ⟨⟨ha, h⟩, hf⟩
        exact ⟨ha, fun r hr => ⟨h r hr, fun b hb => hf b ⟨r, hr, hb⟩⟩⟩

@[simp] theorem returns_bind (m : Build α) (f : α → Build β) (b : β) :
    (m >>= f).Returns b ↔ ∃ a, m.Returns a ∧ (f a).Returns b := by
  induction m with
  | done a => simp
  | act a next ih =>
      simp only [act_bind, returns_act, ih]
      constructor
      · intro ⟨r, hr, a, ha, hb⟩
        exact ⟨a, ⟨r, hr, ha⟩, hb⟩
      · intro ⟨a, ⟨r, hr, ha⟩, hb⟩
        exact ⟨r, hr, a, ha, hb⟩

@[simp] theorem only_ite (c : Prop) [Decidable c] (m n : Build α) :
    (if c then m else n).Only P ↔ (c → m.Only P) ∧ (¬c → n.Only P) := by
  split <;> simp [*]

theorem Only.mono {m : Build α} (h : m.Only P) (hPQ : ∀ a, P a → Q a) : m.Only Q := by
  induction h with
  | done a => exact .done a
  | act head rest ih => exact .act (hPQ _ head) ih

/-- A sequence whose second program keeps to `P` whatever the first one returns. -/
theorem Only.bind {m : Build α} (hm : m.Only P) {f : α → Build β} (hf : ∀ a, (f a).Only P) :
    (m >>= f).Only P :=
  (only_bind m f).2 ⟨hm, fun a _ => hf a⟩

/-- The second program may rely on what holds of the results of the first. -/
theorem Only.bind_of {m : Build α} {R : α → Prop} (hm : m.Only P ∧ ∀ a, m.Returns a → R a)
    {f : α → Build β} (hf : ∀ a, R a → (f a).Only P) : (m >>= f).Only P :=
  (only_bind m f).2 ⟨hm.1, fun a ha => hf a (hm.2 a ha)⟩

theorem Only.ite {c : Prop} [Decidable c] {m n : Build α} (hm : m.Only P) (hn : n.Only P) :
    (if c then m else n).Only P :=
  (only_ite c m n).2 ⟨fun _ => hm, fun _ => hn⟩

/-- A program has a result. -/
theorem exists_returns (m : Build α) : ∃ a, m.Returns a := by
  induction m with
  | done a => exact ⟨a, rfl⟩
  | act a next ih =>
      obtain ⟨r, hr⟩ := a.exists_allows
      obtain ⟨b, hb⟩ := ih r
      exact ⟨b, r, hr, hb⟩

/-! ## Runs -/

/-- The result of a run is one of the results of the program. -/
theorem returns_run (m : Build α) (s : Site) : m.Returns (m.run s).1 := by
  induction m generalizing s with
  | done a => rfl
  | act a next ih => exact ⟨_, a.allows_perform s, ih _ _⟩

/-- What joins up along runs and holds of each act holds of the whole run. -/
theorem Only.run {R : Site → Site → Prop} (refl : ∀ s, R s s)
    (trans : ∀ s t u, R s t → R t u → R s u) (step : ∀ a s, P a → R s (a.perform s).2)
    {m : Build α} (h : m.Only P) (s : Site) : R s (m.run s).2 := by
  induction h generalizing s with
  | done a => exact refl s
  | @act a next head rest ih =>
      exact trans _ _ _ (step a s head) (ih _ (a.allows_perform s) _)

/-! ## Single acts -/

theorem only_act_done (a : Act) : (act a done).Only P ↔ P a := by
  simp

@[simp] theorem only_bits (n : Nat) : (bits n).Only P ↔ P (.draw (.bits n)) := only_act_done _

@[simp] theorem only_bounded (bound : Int32) :
    (bounded bound).Only P ↔ P (.draw (.bounded bound)) := only_act_done _

@[simp] theorem returns_bounded (bound u : Int32) :
    (bounded bound).Returns u ↔ (Draw.bounded bound).Allows u := by
  constructor
  · rintro ⟨r, hr, rfl⟩
    exact hr
  · exact fun hu => ⟨u, hu, rfl⟩

@[simp] theorem only_coin : coin.Only P ↔ P (.draw (.bits 1)) := by
  simp [coin]

@[simp] theorem only_single : single.Only P ↔ P (.draw (.bits 24)) := by
  simp [single]

@[simp] theorem only_child : child.Only P ↔ P (.draw (.bits 32)) := by
  simp [child]

@[simp] theorem only_look (p : Pos) : (look p).Only P ↔ P (.look p) := only_act_done _

@[simp] theorem only_isBlock (p : Pos) (id : BlockId) : (isBlock p id).Only P ↔ P (.look p) := by
  simp [isBlock]

@[simp] theorem only_isAir (p : Pos) : (isAir p).Only P ↔ P (.look p) := by
  simp [isAir]

@[simp] theorem only_isIn (s : BlockSet) (p : Pos) : (isIn s p).Only P ↔ P (.look p) := by
  simp [isIn]

@[simp] theorem only_place (p : Pos) (b : Block) : (place p b).Only P ↔ P (.place p b false) :=
  only_act_done _

@[simp] theorem only_placeNotify (p : Pos) (b : Block) :
    (placeNotify p b).Only P ↔ P (.place p b true) := only_act_done _

@[simp] theorem only_report (n : Note) : (report n).Only P ↔ P (.report n) := only_act_done _

end Build

end VoxelFeatures
