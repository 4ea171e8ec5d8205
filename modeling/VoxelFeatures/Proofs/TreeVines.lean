import Mathlib.Data.List.GetD
import VoxelFeatures.Proofs.AlignedTrees
import VoxelFeatures.Proofs.LegalWrites
import VoxelFeatures.Proofs.Retention

/-!
# The vines of trees

Swamp oaks and jungle trees hang vines while the tree is still being built. A vine is
placed in air only, beside a log or a leaf or below a leaf or another vine. `Hung` says so
of a write, in a journal that may be later than the write.

What is placed after a vine could still take away what bears it. The crown of a jungle tree
and the vines of a swamp oak only fill air, but the trunks of jungle trees go through other
blocks. `Site.Keeps` therefore sets aside the cells where a trunk stands: there logs stay
logs, and elsewhere every block stays. A vine never hangs inside the trunk, and if a cell of
the trunk bears it, then as a log.
-/

namespace VoxelFeatures

/-- The block at `q` bears a vine `b` at `p`. It is a log or leaf across the side of the
vine, or a leaf above it, or the same vine above it. -/
def Bears (j : Journal) (p : Pos) (b : Block) (q : Pos) : Prop :=
  (∃ f ∈ Face.horizontal, f.vineBit = b.data ∧ q = p.offset f.opposite 1 ∧
      j.idAt q ∈ [BlockId.log, .leaves]) ∨
    q = p.up 1 ∧ (j.idAt q = .leaves ∨ j.get q = b)

/-- The metadata of vines on one side. -/
def vineSides : List UInt8 := [1, 2, 4, 8]

theorem vineSides_lt {data : UInt8} (h : data ∈ vineSides) : data < 16 := by
  simp only [vineSides, List.mem_cons, List.not_mem_nil, or_false] at h
  obtain rfl | rfl | rfl | rfl := h <;> decide

theorem Face.vineBit_mem {f : Face} (hf : f ∈ horizontal) : f.vineBit ∈ vineSides := by
  cases f with
  | negY | posY => exact absurd hf (by decide)
  | negZ | posZ | negX | posX => simp [vineBit, vineSides]

theorem JungleTree.hangingData_mem {i : Int32} (hi : i < 4) : hangingData i ∈ vineSides := by
  have hfour : (4 : Int32).toInt = 4 := by decide
  have hlength : i.toInt.toNat < vineSides.length := by
    rw [Int32.lt_iff_toInt_lt, hfour] at hi
    exact (Int.toNat_lt' (by decide)).2 hi
  change vineSides.getD i.toInt.toNat 0 ∈ vineSides
  rw [List.getD_eq_getElem _ _ hlength]
  exact List.getElem_mem hlength

/-- The written vine is still there, on one side, and some block bears it. -/
def Hung (w : Write) (j : Journal) : Prop :=
  j.get w.pos = w.block ∧ w.block.data ∈ vineSides ∧ ∃ q, Bears j w.pos w.block q

namespace Site

variable {T : Pos → Prop} {s t u : Site}

/-- From `s` to `t` no block was replaced but air, except that logs were placed in the
cells of `T`. -/
structure Keeps (T : Pos → Prop) (s t : Site) : Prop where
  packed : t.journal.world.Packed
  kept : ∀ q, ¬T q → s.journal.idAt q ≠ .air → t.journal.get q = s.journal.get q
  logs : ∀ q, T q → s.journal.idAt q = .log → t.journal.idAt q = .log

namespace Keeps

theorem nil (hs : s.journal.world.Packed) (h : t.journal = s.journal) : s.Keeps T t :=
  ⟨h ▸ hs, fun _ _ _ => by rw [h], fun _ _ hq => by rwa [h]⟩

/-- A block outside of `T` stays, and so does a log. -/
theorem idAt_eq (h : s.Keeps T t) {q : Pos} (hT : T q → s.journal.idAt q = .log)
    (hq : s.journal.idAt q ≠ .air) : t.journal.idAt q = s.journal.idAt q := by
  by_cases hmem : T q
  · rw [h.logs q hmem (hT hmem), hT hmem]
  · rw [t.journal.idAt_eq, s.journal.idAt_eq, h.kept q hmem hq]

theorem trans (h : s.Keeps T t) (h' : t.Keeps T u) : s.Keeps T u := by
  refine ⟨h'.packed, fun q hT hq => ?_, fun q hT hq => h'.logs q hT (h.logs q hT hq)⟩
  have hsolid : t.journal.idAt q ≠ .air := by
    rwa [h.idAt_eq (fun hmem => absurd hmem hT) hq]
  rw [h'.kept q hT hsolid, h.kept q hT hq]

/-- Where nothing but air is replaced, the cells of a trunk make no difference. -/
theorem mono (h : s.Keeps (fun _ => False) t) : s.Keeps T t := by
  refine ⟨h.packed, fun q _ => h.kept q not_false, fun q _ hq => ?_⟩
  rw [h.idAt_eq False.elim (by rw [hq]; decide), hq]

end Keeps

theorem keeps_place (hs : s.journal.world.Packed) {p : Pos} {b : Block}
    (h : s.journal.idAt p = .air ∨ T p ∧ b.id = .log) (notify : Bool) :
    s.Keeps T (s.place p b notify) := by
  obtain ⟨ws, hgrows⟩ := s.grows_place hs p b notify
  have hother (q : Pos) (hq : q ≠ p) (hsolid : s.journal.idAt q ≠ .air) :
      (s.place p b notify).journal.get q = s.journal.get q := by
    cases hp : p.inHeight
    · rw [s.place_of_not_inHeight hp]
    · rw [s.journal_place hp, Journal.get_set]
      exact hs.get_set hq hsolid b
  refine ⟨hgrows.packed, fun q hT hsolid => hother q ?_ hsolid, fun q hT hq => ?_⟩
  · rintro rfl
    exact h.elim hsolid fun hlog => hT hlog.1
  · rw [idAt_place]
    split
    · rename_i hp
      obtain ⟨-, rfl⟩ := hp
      exact h.elim (fun hair => absurd (hair.symm.trans hq) (by decide)) And.right
    · exact hq

end Site

/-- What bears a vine goes on to bear it. -/
theorem Bears.keeps {T : Pos → Prop} {s t : Site} (h : s.Keeps T t) {p q : Pos} {b : Block}
    (hb : b.id = .vine) (hT : T q → s.journal.idAt q = .log) (hq : Bears s.journal p b q) :
    Bears t.journal p b q := by
  rcases hq with ⟨f, hf, hbit, hpos, hmem⟩ | ⟨hpos, hleaf | hvine⟩
  · refine .inl ⟨f, hf, hbit, hpos, ?_⟩
    rwa [h.idAt_eq hT fun hair => absurd (hair ▸ hmem) (by decide)]
  · refine .inr ⟨hpos, .inl ?_⟩
    rwa [h.idAt_eq hT (by rw [hleaf]; decide)]
  · have hid : s.journal.idAt q = .vine := by rw [s.journal.idAt_eq, hvine, hb]
    have houtside : ¬T q := fun hmem => absurd (hid.symm.trans (hT hmem)) (by decide)
    exact .inr ⟨hpos, .inr ((h.kept q houtside (by rw [hid]; decide)).trans hvine)⟩

/-- The written vine hangs outside of `T`, on a block that is also outside of `T` or a log. -/
def Held (T : Pos → Prop) (w : Write) (j : Journal) : Prop :=
  j.get w.pos = w.block ∧ w.block.data ∈ vineSides ∧ ¬T w.pos ∧
    ∃ q, Bears j w.pos w.block q ∧ (T q → j.idAt q = .log)

theorem Held.hung {T : Pos → Prop} {w : Write} {j : Journal} (h : Held T w j) : Hung w j :=
  ⟨h.1, h.2.1, h.2.2.2.imp fun _ hq => hq.1⟩

theorem Held.keeps {T : Pos → Prop} {s t : Site} (h : s.Keeps T t) {w : Write}
    (hw : w.block.id = .vine) (hheld : Held T w s.journal) : Held T w t.journal := by
  obtain ⟨hread, hdata, hout, q, hbears, hT⟩ := hheld
  have hid : s.journal.idAt w.pos = .vine := by rw [s.journal.idAt_eq, hread, hw]
  refine ⟨?_, hdata, hout, q, hbears.keeps h hw hT, fun hmem => h.logs q hmem (hT hmem)⟩
  rw [h.kept w.pos hout (by rw [hid]; decide), hread]

namespace Site

variable {T : Pos → Prop} {s t u : Site}

/-- From `s` to `t` vines were placed in air alone, and in the end they are held. -/
structure Hangs (T : Pos → Prop) (s t : Site) : Prop where
  keeps : s.Keeps T t
  adds : s.Adds (fun w => w.block.id = .vine → w.before.id = .air ∧ Held T w t.journal) t

namespace Hangs

theorem nil (hs : s.journal.world.Packed) (h : t.journal = s.journal) : s.Hangs T t :=
  ⟨.nil hs h, .nil h⟩

theorem trans (h : s.Hangs T t) (h' : t.Hangs T u) : s.Hangs T u := by
  refine ⟨h.keeps.trans h'.keeps, Adds.trans (t := t) (h.adds.mono fun w hw hvine => ?_) h'.adds⟩
  exact ⟨(hw hvine).1, (hw hvine).2.keeps h'.keeps hvine⟩

end Hangs

/-- Blocks other than vines. -/
theorem hangs_place (hs : s.journal.world.Packed) {p : Pos} {b : Block} (hb : b.id ≠ .vine)
    (h : s.journal.idAt p = .air ∨ T p ∧ b.id = .log) :
    s.Hangs T (s.place p b false) :=
  ⟨keeps_place hs h false, s.adds_place p b false fun _ hvine => absurd hvine hb⟩

theorem get_place_vine (s : Site) {p : Pos} (hp : p.inHeight) {data : UInt8}
    (hdata : data ∈ vineSides) :
    (s.place p ⟨.vine, data⟩ false).journal.get p = ⟨.vine, data⟩ :=
  (s.get_place_self hp ⟨.vine, data⟩ false).trans (Block.stored_of_lt (vineSides_lt hdata))

/-- A vine in air that a block bears is held. -/
theorem hangs_vine (hs : s.journal.world.Packed) {p : Pos} (hair : s.journal.idAt p = .air)
    (hp : ¬T p) {data : UInt8} (hdata : data ∈ vineSides)
    (h : p.inHeight → ∃ q, Bears s.journal p ⟨.vine, data⟩ q ∧ (T q → s.journal.idAt q = .log)) :
    s.Hangs T (s.place p ⟨.vine, data⟩ false) := by
  have hkeeps : s.Keeps T (s.place p ⟨.vine, data⟩ false) := keeps_place hs (.inl hair) false
  refine ⟨hkeeps, s.adds_place p _ false fun hin _ => ?_⟩
  obtain ⟨q, hbears, hT⟩ := h hin
  refine ⟨(s.journal.idAt_eq p).symm.trans hair, s.get_place_vine hin hdata, hdata, hp, q, ?_, ?_⟩
  · exact hbears.keeps hkeeps rfl hT
  · exact fun hmem => hkeeps.logs q hmem (hT hmem)

end Site

namespace Build

variable {α β ι : Type} {T : Pos → Prop} {I : Journal → Prop}

/-- What `I` says goes on to hold. -/
def Lasts (T : Pos → Prop) (I : Journal → Prop) : Prop :=
  ∀ s t : Site, s.Keeps T t → I s.journal → I t.journal

theorem lasts_true : Lasts T fun _ => True := fun _ _ _ _ => trivial

/-- Where nothing but air is replaced, a block goes on to be there. -/
theorem lasts_idAt {id : BlockId} (hid : id ≠ .air) (p : Pos) :
    Lasts (fun _ => False) fun j => j.idAt p = id :=
  fun _ _ h hp => (h.idAt_eq False.elim (hp ▸ hid)).trans hp

/-- A log goes on to be there, also inside a trunk. -/
theorem lasts_log (T : Pos → Prop) (p : Pos) :
    Lasts T fun j => p.inHeight → j.idAt p = .log :=
  fun _ _ h hp hin => (h.idAt_eq (fun _ => hp hin) (by rw [hp hin]; decide)).trans (hp hin)

/-- From every site where `I` holds, the program places vines that are held. -/
def Hangs (T : Pos → Prop) (I : Journal → Prop) (m : Build α) : Prop :=
  ∀ s : Site, s.journal.world.Packed → I s.journal → s.Hangs T (m.run s).2

theorem hangs_done (a : α) : (done a).Hangs T I := fun _ hs _ => .nil hs rfl

theorem hangs_of_inspects {m : Build α} (hm : m.Only Act.Inspects) : m.Hangs T I :=
  fun s hs _ => .nil hs (hm.journal_run s)

namespace Hangs

theorem ite {c : Prop} [Decidable c] {m n : Build α} (hm : m.Hangs T I) (hn : n.Hangs T I) :
    (if c then m else n).Hangs T I := by
  split
  · exact hm
  · exact hn

theorem bind (hI : Lasts T I) {m : Build α} (hm : m.Hangs T I) {f : α → Build β}
    (hf : ∀ a, m.Returns a → (f a).Hangs T I) : (m >>= f).Hangs T I := by
  intro s hs hi
  have hfirst := hm s hs hi
  rw [run_bind]
  exact hfirst.trans (hf _ (returns_run m s) _ hfirst.keeps.packed (hI _ _ hfirst.keeps hi))

theorem forM (hI : Lasts T I) {l : List ι} {f : ι → Build Unit}
    (h : ∀ i ∈ l, (f i).Hangs T I) : (forM l f).Hangs T I := by
  induction l with
  | nil => exact hangs_done ()
  | cons i l ih =>
      rw [List.forall_mem_cons] at h
      rw [List.forM_cons]
      exact h.1.bind hI fun _ _ => ih h.2

theorem forM_span (hI : Lasts T I) {r : Span} {f : Int32 → Build Unit}
    (h : ∀ i ∈ r.toList, (f i).Hangs T I) : (r.forM f).Hangs T I := by
  rw [Span.forM_eq, List.forM_eq_forM]
  exact .forM hI h

theorem forSquare (hI : Lasts T I) {xs zs : Span} {f : Int32 → Int32 → Build Unit}
    (h : ∀ x z, (f x z).Hangs T I) : (forSquare xs zs f).Hangs T I :=
  .forM_span hI fun x _ => .forM_span hI fun z _ => h x z

end Hangs

theorem hangs_isBlock {p : Pos} {id : BlockId} {m n : Build α}
    (hm : m.Hangs T fun j => I j ∧ j.idAt p = id) (hn : n.Hangs T I) :
    (isBlock p id >>= fun found => if found = true then m else n).Hangs T I := by
  intro s hs hi
  rw [run_bind, run_isBlock]
  split
  · rename_i hfound
    exact hm s hs ⟨hi, of_decide_eq_true hfound⟩
  · exact hn s hs hi

/-- From every site, the vines that the program places are hung in the end. -/
def Adorns (m : Build α) : Prop :=
  ∀ s : Site, s.journal.world.Packed →
    s.Adds (fun w => w.block.id = .vine → w.before.id = .air ∧ Hung w (m.run s).2.journal)
      (m.run s).2

theorem adds_plain_place {p : Pos} {b : Block} (hb : b.id ≠ .vine) :
    (place p b).Adds fun w => w.block.id ≠ .vine :=
  adds_place fun _ => hb

theorem adds_plain_replace {S : BlockSet} {p : Pos} {b : Block} (hb : b.id ≠ .vine) :
    (replace S p b).Adds fun w => w.block.id ≠ .vine :=
  adds_replace fun _ _ => hb

theorem adorns_done (a : α) : (done a).Adorns := fun _ _ => .nil rfl

theorem Adorns.ite {c : Prop} [Decidable c] {m n : Build α} (hm : m.Adorns) (hn : n.Adorns) :
    (if c then m else n).Adorns := by
  split
  · exact hm
  · exact hn

/-- What is placed before the first vine does not matter. -/
theorem Adorns.after {m : Build α} (hm : m.Adds fun w => w.block.id ≠ .vine) {f : α → Build β}
    (hf : ∀ a, m.Returns a → (f a).Adorns) : (m >>= f).Adorns := by
  intro s hs
  obtain ⟨ws, hgrows⟩ := m.grows hs
  rw [run_bind]
  refine Site.Adds.trans ((hm s).mono fun w hw hvine => absurd hvine hw) ?_
  exact hf _ (returns_run m s) _ hgrows.packed

/-- Vines that were held stay where they are while air is filled. -/
theorem Hangs.adorns_bind {m : Build α} (hm : m.Hangs T fun _ => True) {f : α → Build β}
    (hf : ∀ a, (f a).Hangs (fun _ => False) fun _ => True) : (m >>= f).Adorns := by
  intro s hs
  have hfirst := hm s hs trivial
  have hsecond := hf (m.run s).1 _ hfirst.keeps.packed trivial
  rw [run_bind]
  refine Site.Adds.trans (t := (m.run s).2) ?_ ?_
  · exact hfirst.adds.mono fun w hw hvine =>
      ⟨(hw hvine).1, ((hw hvine).2.keeps hsecond.keeps.mono hvine).hung⟩
  · exact hsecond.adds.mono fun w hw hvine => ⟨(hw hvine).1, (hw hvine).2.hung⟩

end Build

open Build

/-! ## Swamp oaks -/

namespace SwampOak

/-- From the bottom layer down nothing is written. -/
theorem hangs_extendVine_low (data : UInt8) {p : Pos} {n : Nat}
    (hp : n - 2147483648 ≤ p.y.toInt ∧ p.y.toInt ≤ 0) :
    (extendVine data p n).Hangs (fun _ => False) fun _ => True := by
  induction n generalizing p with
  | zero => exact hangs_done ()
  | succ n ih =>
      have hdown : (p.down 1).y.toInt = p.y.toInt - 1 := toInt_sub_one_of_lt (by omega)
      have hout : (p.down 1).inHeight = false := by
        rw [← Bool.not_eq_true, Pos.inHeight_iff_toInt]
        omega
      refine hangs_isBlock (fun s hs _ => ?_) (hangs_done ())
      rw [run_bind, run_place, s.place_of_not_inHeight hout]
      exact ih (by omega) s hs trivial

/-- A vine is extended downwards from itself. -/
theorem hangs_extendVine {data : UInt8} (hdata : data ∈ vineSides) (p : Pos) {n : Nat}
    (hn : n < 2147483648) :
    (extendVine data p n).Hangs (fun _ => False) fun j => j.get p = ⟨.vine, data⟩ := by
  induction n generalizing p with
  | zero => exact hangs_done ()
  | succ n ih =>
      refine hangs_isBlock (fun s hs ⟨hvine, hair⟩ => ?_) (hangs_done ())
      have habove : Bears s.journal (p.down 1) ⟨.vine, data⟩ p :=
        .inr ⟨(p.up_down 1).symm, .inr hvine⟩
      have hfirst := Site.hangs_vine (T := fun _ => False) hs hair not_false hdata
        fun _ => ⟨p, habove, False.elim⟩
      rw [run_bind, run_place]
      refine hfirst.trans ?_
      cases hin : (p.down 1).inHeight with
      | true =>
          exact ih (p.down 1) (by omega) _ hfirst.keeps.packed (s.get_place_vine hin hdata)
      | false =>
          have hid : s.journal.idAt p = .vine := by rw [s.journal.idAt_eq, hvine]
          have hp : p.inHeight := s.journal.inHeight_of_idAt_ne (by rw [hid]; decide)
          rw [Pos.inHeight_iff_toInt] at hp
          have hdown : (p.down 1).y.toInt = p.y.toInt - 1 := toInt_sub_one_of_lt (by omega)
          rw [← Bool.not_eq_true, Pos.inHeight_iff_toInt, hdown] at hin
          exact hangs_extendVine_low data (by omega) _ hfirst.keeps.packed trivial

theorem hangs_vineBeside (leaf : Pos) {f : Face} (hf : f ∈ Face.horizontal) :
    (vineBeside leaf f).Hangs (fun _ => False) fun j => j.idAt leaf = .leaves := by
  have hlasts : Lasts (fun _ => False) fun j => j.idAt leaf = .leaves :=
    lasts_idAt (by decide) leaf
  refine (hangs_of_inspects (by simp)).bind hlasts fun draw _ => .ite ?_ (hangs_done ())
  refine hangs_isBlock (fun s hs ⟨hleaf, hair⟩ => ?_) (hangs_done ())
  have hbeside : Bears s.journal (leaf.offset f 1) ⟨.vine, f.vineBit⟩ leaf :=
    .inl ⟨f, hf, rfl, (leaf.offset_opposite f).symm, by simp [hleaf]⟩
  have hfirst := Site.hangs_vine (T := fun _ => False) hs hair not_false (Face.vineBit_mem hf)
    fun _ => ⟨leaf, hbeside, False.elim⟩
  have hin : (leaf.offset f 1).inHeight := by
    rw [Pos.inHeight_offset hf]
    exact s.journal.inHeight_of_idAt_ne (by rw [hleaf]; decide)
  rw [hangVine, run_bind, run_place]
  exact hfirst.trans (hangs_extendVine (Face.vineBit_mem hf) _ (by decide) _ hfirst.keeps.packed
    (s.get_place_vine hin (Face.vineBit_mem hf)))

theorem hangs_vineLayer (p : Pos) (top y : Int32) :
    (vineLayer p top y).Hangs (fun _ => False) fun _ => True := by
  refine .forSquare lasts_true fun x z => hangs_isBlock ?_ (hangs_done ())
  have hfaces : ∀ f ∈ vineFaces, f ∈ Face.horizontal := by decide
  have hlasts : Lasts (fun _ => False) fun j => j.idAt ⟨x, y, z⟩ = .leaves :=
    lasts_idAt (by decide) ⟨x, y, z⟩
  have hvines := Hangs.forM hlasts fun f hf => hangs_vineBeside ⟨x, y, z⟩ (hfaces f hf)
  exact fun s hs ⟨_, hleaf⟩ => hvines s hs hleaf

theorem adorns_build (origin : Pos) : (build origin).Adorns := by
  refine .after (adds_bounded _) fun extra _ => .after (adds_of_inspects (by simp)) fun p _ => ?_
  refine .ite (adorns_done _) ?_
  refine .after (adds_of_inspects (by simp)) fun clear _ => .ite ?_ (adorns_done _)
  refine .after (adds_of_inspects (by simp)) fun rooted _ => .ite ?_ (adorns_done _)
  refine .ite (adorns_done _) (.after (adds_plain_place (by decide)) fun _ _ => ?_)
  refine .after (.forM_span fun y => .forOffsets fun dx dz => ?_) fun _ _ => ?_
  · exact (adds_of_inspects (by simp)).bind fun kept =>
      .ite (adds_plain_place (by decide)) (adds_done ())
  · refine .after (.forM_span fun dy => adds_plain_replace (by decide)) fun _ _ => ?_
    exact Hangs.adorns_bind (.forM_span lasts_true fun y _ => hangs_vineLayer _ _ _) fun _ =>
      hangs_done _

end SwampOak

/-! ## Jungle trees -/

/-- The pairs of `sides` are the neighbours across the horizontal faces. -/
theorem JungleTree.eq_offset_of_mem_sides {p : Pos} {c : Pos × Face} (hc : c ∈ sides p) :
    c.2 ∈ Face.horizontal ∧ c.1 = p.offset c.2 1 := by
  have hadd (q : Pos) : p + q = ⟨p.x + q.x, p.y + q.y, p.z + q.z⟩ := rfl
  simp only [sides, List.mem_cons, List.not_mem_nil, or_false] at hc
  obtain rfl | rfl | rfl | rfl := hc
  all_goals
    simp [Face.horizontal, Pos.west, Pos.east, Pos.north, Pos.south, Pos.offset, Face.delta,
      Pos.scale, hadd, Int32.sub_eq_add_neg]

section Trunk

variable {T : Pos → Prop} {p : Pos}

theorem hangs_tryVine {c : Pos × Face} (hc : c ∈ JungleTree.sides p) (hT : ¬T c.1) :
    (tryVine c.1 c.2).Hangs T fun j => p.inHeight → j.idAt p = .log := by
  obtain ⟨hf, hpos⟩ := JungleTree.eq_offset_of_mem_sides hc
  refine (hangs_of_inspects (by simp)).bind (lasts_log T p) fun draw _ => .ite ?_ (hangs_done ())
  refine hangs_isBlock (fun s hs ⟨hlog, hair⟩ => ?_) (hangs_done ())
  refine Site.hangs_vine hs hair hT (Face.vineBit_mem hf) fun hin => ?_
  rw [hpos, Pos.inHeight_offset hf] at hin
  refine ⟨p, .inl ⟨c.2, hf, rfl, ?_, by simp [hlog hin]⟩, fun _ => hlog hin⟩
  rw [hpos, Pos.offset_opposite]

/-- A log in a trunk, with vines on some of its sides. -/
theorem hangs_log (hp : T p) {vines : List (Pos × Face)}
    (hvines : ∀ c ∈ vines, c ∈ JungleTree.sides p ∧ ¬T c.1) (hasVines : Prop) [Decidable hasVines] :
    (do
      place p Species.jungle.trunk
      if hasVines then vines.forM fun (q, f) => tryVine q f : Build Unit).Hangs T
      fun _ => True := by
  intro s hs _
  have hfirst := Site.hangs_place (T := T) (p := p) (b := Species.jungle.trunk) hs (by decide)
    (.inr ⟨hp, rfl⟩)
  rw [run_bind, run_place]
  refine hfirst.trans ?_
  split
  · rw [List.forM_eq_forM]
    refine Hangs.forM (lasts_log T p) (fun c hc => hangs_tryVine (hvines c hc).1 (hvines c hc).2) _
      hfirst.keeps.packed fun hin => ?_
    exact s.idAt_place_self hin _ false
  · exact .nil hfirst.keeps.packed rfl

end Trunk

namespace JungleTree

/-- The cells of a trunk of one column. -/
def InTrunk (base q : Pos) : Prop := q.x = base.x ∧ q.z = base.z

theorem hangs_trunkLayer (t : JungleTree) (base : Pos) (dy : Int32) :
    (t.trunkLayer base dy).Hangs (InTrunk base) fun _ => True := by
  refine hangs_log (T := InTrunk base) (p := base.up dy) ⟨rfl, rfl⟩ (fun c hc => ⟨hc, ?_⟩)
    (t.vines ∧ 0 < dy)
  simp only [sides, List.mem_cons, List.not_mem_nil, or_false] at hc
  obtain rfl | rfl | rfl | rfl := hc
  all_goals
    simp only [InTrunk, Pos.west, Pos.east, Pos.north, Pos.south, Pos.up]
    lia

/-- A vine is hung downwards from a leaf, or from itself. -/
theorem hangs_hang {data : UInt8} (hdata : data ∈ vineSides) (p : Pos) (n : Nat) :
    (hang data p.x p.y p.z n).Hangs (fun _ => False) fun j =>
      j.idAt (p.up 1) = .leaves ∨ j.get (p.up 1) = ⟨.vine, data⟩ := by
  induction n generalizing p with
  | zero => exact hangs_done ()
  | succ n ih =>
      unfold hang
      split
      · rename_i hy
        refine hangs_isBlock (fun s hs hfound => ?_) (hangs_done ())
        obtain ⟨habove, hair⟩ := hfound
        have hfirst := Site.hangs_vine (T := fun _ => False) hs hair not_false hdata
          fun _ => ⟨p.up 1, .inr ⟨rfl, habove⟩, False.elim⟩
        have hup : (p.up 1).inHeight := by
          refine s.journal.inHeight_of_idAt_ne ?_
          rcases habove with hleaf | hvine
          · rw [hleaf]
            decide
          · rw [s.journal.idAt_eq, hvine]
            exact (by decide : BlockId.vine ≠ .air)
        have hin : p.inHeight := by
          rw [Pos.inHeight_iff] at hup ⊢
          simp only [Pos.up] at hup
          lia
        rw [run_bind, run_place]
        refine hfirst.trans (ih (p.down 1) _ hfirst.keeps.packed (.inr ?_))
        rw [Pos.up_down]
        exact s.get_place_vine hin hdata
      · exact hangs_done ()

theorem hangs_vineBelow (leaf : Pos) :
    (vineBelow leaf).Hangs (fun _ => False) fun j => j.idAt leaf = .leaves := by
  have hlasts : Lasts (fun _ => False) fun j => j.idAt leaf = .leaves :=
    lasts_idAt (by decide) leaf
  refine (hangs_of_inspects (by simp)).bind hlasts fun rare _ => .ite ?_ (hangs_done ())
  refine (hangs_of_inspects (by simp)).bind hlasts fun side hside => ?_
  refine (hangs_of_inspects (by simp)).bind hlasts fun length _ => ?_
  have hdata : hangingData side ∈ vineSides :=
    hangingData_mem ((returns_bounded _ _).1 hside |>.1 (by decide)).2
  have hhang := hangs_hang hdata (leaf.down 1) (length + 1).toInt.toNat
  rw [Pos.up_down] at hhang
  exact fun s hs hleaf => hhang s hs (.inl hleaf)

theorem hangs_crownLayer (t : JungleTree) (p : Pos) {top y : Int32} (hy : isLayer y) :
    (t.crownLayer p top y).Hangs (fun _ => False) fun _ => True := by
  refine .forSquare lasts_true fun dx dz => ?_
  refine (hangs_of_inspects (by simp)).bind lasts_true fun kept _ => .ite ?_ (hangs_done ())
  refine hangs_isBlock (fun s hs ⟨_, hair⟩ => ?_) (hangs_done ())
  have hfirst := Site.hangs_place (T := fun _ => False) (b := Species.jungle.leaf) hs
    (by decide) (.inl hair)
  rw [run_bind, run_place]
  refine hfirst.trans ?_
  split
  · have hleaf := s.idAt_place_self (p := ⟨p.x + dx, y, p.z + dz⟩) hy Species.jungle.leaf false
    exact hangs_vineBelow _ _ hfirst.keeps.packed hleaf
  · exact .nil hfirst.keeps.packed rfl

theorem adorns_build (t : JungleTree) (p : Pos) : (t.build p).Adorns := by
  refine .after (adds_bounded _) fun tall htall => ?_
  refine .after (adds_of_inspects (by simp)) fun found hfound => ?_
  cases found with
  | none => exact adorns_done _
  | some ground =>
      dsimp only
      split
      · exact adorns_done _
      · rename_i hhigh
        refine .after (adds_of_inspects (by simp)) fun rooted _ => .ite ?_ (adorns_done _)
        refine .after (adds_plain_place (by decide)) fun _ _ => ?_
        refine Hangs.adorns_bind (.forM_span lasts_true fun dy _ => t.hangs_trunkLayer _ dy)
          fun _ => ?_
        refine .bind lasts_true (.forM_span lasts_true fun y hy => t.hangs_crownLayer p ?_)
          fun _ _ => hangs_done true
        have hground := Ground.one_le_of_returns_below hfound
        have htall := (returns_bounded _ _).1 htall |>.1 (by decide)
        rw [Span.mem_closed] at hy
        simp only [isLayer, Bool.and_eq_true, decide_eq_true_eq]
        lia

end JungleTree

namespace GiantJungle

/-- The cells of a trunk of two by two columns. -/
def InTrunk (p q : Pos) : Prop := (q.x = p.x ∨ q.x = p.x + 1) ∧ (q.z = p.z ∨ q.z = p.z + 1)

theorem hangs_log {p q : Pos} (hq : InTrunk p q) (dy : Int32) {vines : List (Pos × Face)}
    (hvines : ∀ c ∈ vines, c ∈ JungleTree.sides q ∧ ¬InTrunk p c.1) :
    (log q dy vines).Hangs (InTrunk p) fun _ => True :=
  (hangs_of_inspects (by simp)).bind lasts_true fun _ _ =>
    .ite (VoxelFeatures.hangs_log hq hvines (0 < dy)) (hangs_done ())

theorem hangs_trunkLayer (p : Pos) (height dy : Int32) :
    (trunkLayer p height dy).Hangs (InTrunk p) fun _ => True := by
  have hwest : ¬(p.x - 1 = p.x ∨ p.x - 1 = p.x + 1) := by lia
  have heast : ¬(p.x + 1 + 1 = p.x ∨ p.x + 1 + 1 = p.x + 1) := by lia
  have hnorth : ¬(p.z - 1 = p.z ∨ p.z - 1 = p.z + 1) := by lia
  have hsouth : ¬(p.z + 1 + 1 = p.z ∨ p.z + 1 + 1 = p.z + 1) := by lia
  have hcell {q : Pos} (hq : InTrunk p q) {c d : Pos × Face}
      (hsides : c ∈ JungleTree.sides q ∧ d ∈ JungleTree.sides q)
      (hout : ¬InTrunk p c.1 ∧ ¬InTrunk p d.1) :
      (log q dy [c, d]).Hangs (InTrunk p) fun _ => True :=
    hangs_log hq dy (by simp [hsides, hout])
  refine (hcell (q := p.up dy) ⟨.inl rfl, .inl rfl⟩ ?_ ?_).bind lasts_true fun _ _ => ?_
  · simp [JungleTree.sides]
  · exact ⟨fun h => hwest h.1, fun h => hnorth h.2⟩
  refine .ite ?_ (hangs_done ())
  refine (hcell (q := (p.up dy).east 1) ⟨.inr rfl, .inl rfl⟩ ?_ ?_).bind lasts_true fun _ _ => ?_
  · simp [JungleTree.sides]
  · exact ⟨fun h => heast h.1, fun h => hnorth h.2⟩
  refine (hcell (q := ((p.up dy).south 1).east 1) ⟨.inr rfl, .inr rfl⟩ ?_ ?_).bind lasts_true
    fun _ _ => hcell (q := (p.up dy).south 1) ⟨.inl rfl, .inr rfl⟩ ?_ ?_
  · simp [JungleTree.sides]
  · exact ⟨fun h => heast h.1, fun h => hsouth h.2⟩
  · simp [JungleTree.sides]
  · exact ⟨fun h => hwest h.1, fun h => hsouth h.2⟩

theorem adds_plain_branches (p : Pos) (height y : Int32) (n : Nat) :
    (branches p height y n).Adds fun w => w.block.id ≠ .vine := by
  induction n generalizing y with
  | zero => exact adds_done ()
  | succ n ih =>
      refine .ite (Adds.bind ?_ fun _ => (adds_bounded _).bind fun more => ih _) (adds_done ())
      refine (adds_of_inspects (by simp)).bind fun turn => ?_
      refine Adds.bind (.forM_span fun i => adds_plain_place (by decide)) fun _ => ?_
      refine (adds_bounded _).bind fun less => .forM_span fun ly => .forOffsets fun dx dz => ?_
      exact .ite (adds_done ()) (adds_plain_replace (by decide))

theorem adorns_build (p : Pos) : (build p).Adorns := by
  refine .after (adds_bounded _) fun tall _ => .ite (adorns_done _) ?_
  refine .after (adds_of_inspects (.allM fun q _ => by simp)) fun rooted _ => ?_
  refine .ite ?_ (adorns_done _)
  refine .after (.forM fun q _ => adds_plain_place (by decide)) fun _ _ => ?_
  refine .after (.forM_span fun dy => .forOffsets fun dx dz =>
    .ite (adds_plain_replace (by decide)) (adds_done ())) fun _ _ => ?_
  refine .after (adds_bounded _) fun less _ => ?_
  refine .after (adds_plain_branches _ _ _ _) fun _ _ => ?_
  exact Hangs.adorns_bind (.forM_span lasts_true fun dy _ => hangs_trunkLayer p _ dy) fun _ =>
    hangs_done true

end GiantJungle

namespace Tree

/-- The trees that carry vines. -/
def carriesVines : Tree → Bool
  | swampOak | jungle _ | giantJungle => true
  | small _ | largeOak _ | darkOak | pine | spruce | acacia | giantPine _
  | jungleBush _ => false

/-- The vines of a tree. Each was placed in air. In the end it is still there, on one side,
and there is a log or a leaf across that side, or a leaf or the same vine above it. -/
theorem vines_stay_hung {t : Tree} (h : t.carriesVines) (p : Pos) {s : Site}
    (hs : s.journal.world.Made) :
    let u := ((t.build p).run s).2
    s.Adds (fun w => w.block.id = .vine → w.before.id = .air ∧ Hung w u.journal) u := by
  cases t with
  | swampOak => exact SwampOak.adorns_build p s hs.packed
  | jungle tree => exact tree.adorns_build p s hs.packed
  | giantJungle => exact GiantJungle.adorns_build p s hs.packed
  | _ => cases h

/-- A jungle tree with vines along its trunk and below its leaves. -/
theorem jungle_tree_in_vines :
    let w := World.ofLayers 0 [(.plain .dirt, 1), (.plain .grass, 1)]
    let s : Site := ⟨.ofWorld w, .ofSeed 11, #[]⟩
    let tree : Tree := .jungle ⟨true⟩
    let u := ((tree.build ⟨0, 2, 0⟩).run s).2
    tree.carriesVines = true ∧ s.journal.world.Made ∧
      s.Adds (fun w => w.block.id = .vine → w.before.id = .air ∧ Hung w u.journal) u ∧
      u.journal.writes.any fun w => w.block.id = .vine := by
  intro w s tree u
  have hmade : s.journal.world.Made := ⟨0, _, [], rfl⟩
  exact ⟨rfl, hmade, vines_stay_hung (t := tree) rfl ⟨0, 2, 0⟩ hmade, by decide +kernel⟩

end Tree

end VoxelFeatures
