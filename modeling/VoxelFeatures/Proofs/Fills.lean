import VoxelFeatures.Proofs.Cells
import VoxelFeatures.Proofs.Sweep

/-!
# Boxes filled at once

A fill addresses the bottom cell of each column of its box and goes on upwards by cell
number, and it packs the metadata byte as it is. In a column that is a run of layers, of
which the high half of the byte goes into the next layer where the two share a byte of the
column (`Column.overlay`, `Column.get_putFrom`). The layers of a box that fits stay within
their columns (`Chunk.fill?_eq`), and a run that is written again, to a column that the box
meets again sixteen words on, changes nothing. So a fill and the writes of its cells one by
one differ on the lid of the box alone, by the high half of the byte
(`Chunk.fill_agrees_off_lid`).
-/

namespace VoxelFeatures

namespace Column

/-- What becomes of the block `old` in layer `z` when `n` layers from `y` on are written with
the metadata byte as it is. The high half of the byte is added to the layer above the run, if
that one shares a byte with the last layer of the run. -/
def overlay (b : Block) (y n : Nat) (z : Fin 256) (old : Block) : Block :=
  if y ≤ z ∧ z < y + n then b.stored
  else if 0 < n ∧ z.val = y + n ∧ isEven z = false then ⟨old.id, old.data ||| HalfByte.high b.data⟩
  else old

theorem overlay_zero (b : Block) (y : Nat) (z : Fin 256) (old : Block) :
    overlay b y 0 z old = old := by
  rw [overlay, if_neg (by omega), if_neg fun h => Nat.lt_irrefl 0 h.1]

theorem overlay_of_mem (b : Block) {y n : Nat} {z : Fin 256} (hz : y ≤ z ∧ z < y + n)
    (old : Block) : overlay b y n z old = b.stored :=
  if_pos hz

theorem overlay_of_not_mem (b : Block) {y n : Nat} {z : Fin 256} (hz : z < y ∨ y + n < z)
    (old : Block) : overlay b y n z old = old := by
  rw [overlay, if_neg (by omega), if_neg (by omega)]

theorem overlay_id (b : Block) (y n : Nat) (z : Fin 256) (old : Block) :
    (overlay b y n z old).id = if y ≤ z ∧ z < y + n then b.id else old.id := by
  rw [overlay]
  split
  · rfl
  · split
    · rfl
    · rfl

/-- A run goes on upwards. What its first layer adds to the second one is written over. -/
theorem overlay_succ (b : Block) (y n : Nat) (z : Fin 256) (old : Block) :
    overlay b (y + 1) n z (overlay b y 1 z old) = overlay b y (n + 1) z old := by
  cases n with
  | zero => rw [overlay_zero]
  | succ n =>
      rcases Nat.lt_trichotomy z y with hlow | hfirst | hhigh
      · rw [overlay_of_not_mem b (by omega), overlay_of_not_mem b (by omega),
          overlay_of_not_mem b (by omega)]
      · rw [overlay_of_not_mem b (by omega), overlay_of_mem b (by omega),
          overlay_of_mem b (by omega)]
      · by_cases hrun : z < y + (n + 1 + 1)
        · rw [overlay_of_mem b (by omega), overlay_of_mem b (by omega)]
        · have hlength : y + 1 + (n + 1) = y + (n + 1 + 1) := by omega
          have hold : overlay b y 1 z old = old := overlay_of_not_mem b (by omega) old
          have hout : ¬(y ≤ z ∧ z < y + (n + 1 + 1)) := by omega
          rw [hold, overlay, overlay, hlength, if_neg (by omega), if_neg hout]
          simp

/-- A run is the same when it is written again. -/
theorem overlay_overlay (b : Block) (y n : Nat) (z : Fin 256) (old : Block) :
    overlay b y n z (overlay b y n z old) = overlay b y n z old := by
  unfold overlay
  split
  · rfl
  · split
    · simp [UInt8.or_assoc]
    · rfl

/-- Two layers that share a byte are an even one and the odd one above it. -/
theorem eq_add_one_of_slot_eq {y z : Fin 256} (hs : slot y = slot z) (hy : isEven y)
    (hz : z ≠ y) : z.val = y.val + 1 := by
  rw [ne_eq, ← Fin.val_inj] at hz
  simp only [slot, isEven, Fin.mk.injEq, decide_eq_true_eq] at hs hy
  omega

/-- A whole byte of metadata, written to one layer. -/
theorem dataAt_put (c : Column) (y z : Fin 256) (b : Block) :
    (c.put y b).dataAt z = (overlay b y 1 z (c.get z)).data := by
  by_cases hz : z = y
  · subst hz
    have hlow : b.stored.data = HalfByte.low b.data := rfl
    rw [overlay_of_mem b (by omega), hlow]
    cases h : isEven z <;>
      simp [put, dataAt, pack, h, HalfByte.low_withLow_byte, HalfByte.high_withHigh]
  · have hout : ¬(y.val ≤ z.val ∧ z.val < y.val + 1) := fun h => hz (Fin.ext (by omega))
    rw [overlay, if_neg hout]
    by_cases hs : slot y = slot z
    · cases hy : isEven y with
      | true =>
          have habove : z.val = y.val + 1 := eq_add_one_of_slot_eq hs hy hz
          have hodd : isEven z = false := by
            simp only [isEven, decide_eq_true_eq, decide_eq_false_iff_not] at hy ⊢
            omega
          simp [put, get, dataAt, pack, hs, hy, hodd, habove, HalfByte.high_withLow_byte]
      | false =>
          have heven : isEven z = true := by
            rw [← Bool.not_eq_false]
            exact fun h => hz (eq_of_slot_eq hs (hy.trans h.symm)).symm
          simp [put, get, dataAt, pack, hs, hy, heven, HalfByte.low_withHigh]
    · have hne : (slot y).val ≠ (slot z).val := fun h => hs (Fin.ext h)
      have habove : ¬(0 < 1 ∧ z.val = y.val + 1 ∧ isEven z = false) := by
        rintro ⟨-, habove, hodd⟩
        simp only [isEven, slot, decide_eq_false_iff_not] at hodd hne
        omega
      rw [if_neg habove]
      simp [put, get, dataAt, Vector.getElem_set_ne, hne]

theorem get_put (c : Column) (y z : Fin 256) (b : Block) :
    (c.put y b).get z = overlay b y 1 z (c.get z) := by
  have hlayer : (y.val ≤ z.val ∧ z.val < y.val + 1) ↔ z = y := by
    rw [← Fin.val_inj]
    omega
  have hid : (c.put y b).idAt z = (overlay b y 1 z (c.get z)).id := by
    rw [idAt_put, overlay_id]
    simp only [hlayer]
    rfl
  rw [get, dataAt_put, hid]

/-- Writes `n` layers from layer `y` on, with the metadata byte as it is. -/
def putFrom (b : Block) : (n y : Nat) → Column → Column
  | 0, _, c => c
  | n + 1, y, c => if h : y < 256 then putFrom b n (y + 1) (c.put ⟨y, h⟩ b) else c

/-- The layers of a run hold the block, and the layer above it gets the high half of the
metadata byte if it is odd. -/
theorem get_putFrom (b : Block) {n y : Nat} (hn : y + n ≤ 256) (c : Column) (z : Fin 256) :
    (putFrom b n y c).get z = overlay b y n z (c.get z) := by
  induction n generalizing y c with
  | zero => rw [putFrom, overlay_zero]
  | succ n ih =>
      have hy : y < 256 := by omega
      rw [putFrom, dif_pos hy, ih (by omega), get_put, overlay_succ]

end Column

namespace Chunk

/-! ## One column -/

theorem modifyColumn_id (c : Chunk) (k : Fin 256) : (c.modifyColumn k fun col => col) = c := by
  rw [modifyColumn, modifyEntry]
  exact congrArg Chunk.mk (Vector.set_getElem_self k.isLt)

theorem modifyColumn_modifyColumn (c : Chunk) (k : Fin 256) (f g : Column → Column) :
    (c.modifyColumn k f).modifyColumn k g = c.modifyColumn k fun col => g (f col) := by
  simp [modifyColumn, modifyEntry]

theorem get_modifyColumn {f : Column → Column} {g : Fin 256 → Block → Block}
    (hf : ∀ col z, (f col).get z = g z (col.get z)) (c : Chunk) (k : Fin 256) (q : Pos) :
    (c.modifyColumn k f).get q = if q.column = k then g q.layer (c.get q) else c.get q := by
  by_cases h : q.column = k
  · simp [get, modifyColumn, modifyEntry, h, hf]
  · have hne : k.val ≠ q.column.val := fun e => h (Fin.ext e.symm)
    simp [get, modifyColumn, modifyEntry, h, Vector.getElem_set_ne, hne]

/-- Cell numbers that stay within a column are the layers of that column. -/
theorem fillFrom_eq (b : Block) (k : Fin 256) {n y : Nat} (hn : y + n ≤ 256) (c : Chunk) :
    fillFrom b n (k.val * 256 + y) c = some (c.modifyColumn k (Column.putFrom b n y)) := by
  induction n generalizing y c with
  | zero => exact congrArg some (c.modifyColumn_id k).symm
  | succ n ih =>
      have hcell : k.val * 256 + y < 65536 := by omega
      have hy : y < 256 := by omega
      have hcolumn : (⟨(k.val * 256 + y) / 256, by omega⟩ : Fin 256) = k := Fin.ext (by simp; omega)
      have hlayer : (⟨(k.val * 256 + y) % 256, by omega⟩ : Fin 256) = ⟨y, hy⟩ :=
        Fin.ext (by simp; omega)
      rw [fillFrom, dif_pos hcell, hcolumn, hlayer, Nat.add_assoc, ih (by omega),
        modifyColumn_modifyColumn]
      refine congrArg some (congrArg (c.modifyColumn k) (funext fun col => ?_))
      rw [Column.putFrom, dif_pos hy]

/-! ## All columns -/

/-- What is made of the columns over some positions, if making it again changes nothing. -/
theorem get_foldl_modifyColumn {f : Column → Column} {g : Fin 256 → Block → Block}
    (hf : ∀ col z, (f col).get z = g z (col.get z)) (hg : ∀ z old, g z (g z old) = g z old)
    (ps : List Pos) (c : Chunk) (q : Pos) :
    (ps.foldl (fun c p => c.modifyColumn p.column f) c).get q =
      if ∃ p ∈ ps, q.column = p.column then g q.layer (c.get q) else c.get q := by
  induction ps generalizing c with
  | nil => simp
  | cons p ps ih =>
      rw [List.foldl_cons, ih, get_modifyColumn hf]
      by_cases hp : q.column = p.column
      · simp [hp, hg]
      · simp [hp]

/-- One block, written to some positions one by one. -/
theorem get_setAll_map (c : Chunk) (ps : List Pos) (b : Block) (q : Pos) :
    (c.setAll (ps.map fun p => (p, b))).get q =
      if ∃ p ∈ ps, p.SameCell q then b.stored else c.get q := by
  induction ps generalizing c with
  | nil => simp
  | cons p ps ih =>
      rw [List.map_cons, setAll_cons, ih, get_set]
      by_cases hp : p.SameCell q
      · simp [hp]
      · simp only [Pos.SameCell] at hp
        simp [hp]

/-! ## Boxes -/

/-- No size of the box is negative, its ends are words, and its layers are stored. -/
structure BoxFits (start size : Pos) : Prop where
  x : 0 ≤ size.x.toInt ∧ start.x.toInt + size.x.toInt ≤ 2147483647
  y : 0 ≤ start.y.toInt ∧ 0 ≤ size.y.toInt ∧ start.y.toInt + size.y.toInt ≤ 256
  z : 0 ≤ size.z.toInt ∧ start.z.toInt + size.z.toInt ≤ 2147483647

/-- The position is in the box. -/
structure InBox (start size p : Pos) : Prop where
  x : start.x.toInt ≤ p.x.toInt ∧ p.x.toInt < start.x.toInt + size.x.toInt
  y : start.y.toInt ≤ p.y.toInt ∧ p.y.toInt < start.y.toInt + size.y.toInt
  z : start.z.toInt ≤ p.z.toInt ∧ p.z.toInt < start.z.toInt + size.z.toInt

/-- The position names a cell of the box. -/
def NamesCell (start size q : Pos) : Prop := ∃ p, InBox start size p ∧ p.SameCell q

/-- The position names a cell right above the box that shares a byte of metadata with the
cell of the box below it. -/
def OnLid (start size q : Pos) : Prop :=
  ∃ p, InBox start size p ∧ p.y.toInt + 1 = start.y.toInt + size.y.toInt ∧
    p.y.toInt % 2 = 0 ∧ (p.up 1).SameCell q

/-- The cells of a box, in the order of a fill. -/
def boxCells (start size : Pos) : List Pos :=
  (boxFloor start size).flatMap fun p =>
    (Span.halfOpen start.y (start.y + size.y)).toList.map fun y => ⟨p.x, y, p.z⟩

/-- A side of a box. -/
theorem mem_side {a n v : Int32} (hn : 0 ≤ n.toInt) (hend : a.toInt + n.toInt ≤ 2147483647) :
    v ∈ (Span.halfOpen a (a + n)).toList ↔ a.toInt ≤ v.toInt ∧ v.toInt < a.toInt + n.toInt := by
  have ha := toInt_range a
  have hsum : (a + n).toInt = a.toInt + n.toInt := toInt_add_of_fits (by omega) (by omega)
  rw [Span.mem_halfOpen, Int32.le_iff_toInt_le, Int32.lt_iff_toInt_lt, hsum]

theorem mem_boxFloor {start size : Pos} (h : BoxFits start size) {p : Pos} :
    p ∈ boxFloor start size ↔
      (start.x.toInt ≤ p.x.toInt ∧ p.x.toInt < start.x.toInt + size.x.toInt) ∧
        p.y = start.y ∧ start.z.toInt ≤ p.z.toInt ∧ p.z.toInt < start.z.toInt + size.z.toInt := by
  rcases p with ⟨x, y, z⟩
  simp only [boxFloor, List.mem_flatMap, List.mem_map, mem_side h.x.1 h.x.2,
    mem_side h.z.1 h.z.2, Pos.mk.injEq]
  constructor
  · rintro ⟨x', hx, z', hz, rfl, rfl, rfl⟩
    exact ⟨hx, rfl, hz⟩
  · rintro ⟨hx, rfl, hz⟩
    exact ⟨x, hx, z, hz, rfl, rfl, rfl⟩

theorem mem_boxCells {start size : Pos} (h : BoxFits start size) {p : Pos} :
    p ∈ boxCells start size ↔ InBox start size p := by
  have hend : start.y.toInt + size.y.toInt ≤ 2147483647 := by
    have := h.y
    omega
  rcases p with ⟨x, y, z⟩
  simp only [boxCells, List.mem_flatMap, List.mem_map, mem_boxFloor h, mem_side h.y.2.1 hend,
    Pos.mk.injEq]
  constructor
  · rintro ⟨p, ⟨hx, -, hz⟩, y', hy, rfl, rfl, rfl⟩
    exact ⟨hx, hy, hz⟩
  · intro hp
    exact ⟨⟨x, start.y, z⟩, ⟨hp.x, rfl, hp.z⟩, y, hp.y, rfl, rfl, rfl⟩

/-- The columns of a fill are those over the floor of its box, and its layers those of the box. -/
theorem namesCell_iff {start size : Pos} (h : BoxFits start size) {q : Pos} :
    NamesCell start size q ↔
      (∃ p ∈ boxFloor start size, q.column = p.column) ∧
        start.y.toInt.toNat ≤ q.layer ∧ q.layer < start.y.toInt.toNat + size.y.toInt.toNat := by
  have hy := h.y
  constructor
  · rintro ⟨p, hp, hcolumn, hlayer⟩
    have hpy := hp.y
    have hval : q.layer.val = p.y.toInt.toNat := by
      rw [hlayer]
      exact Pos.layer_val (Pos.inHeight_iff_toInt.2 (by omega))
    exact ⟨⟨⟨p.x, start.y, p.z⟩, (mem_boxFloor h).2 ⟨hp.x, rfl, hp.z⟩, hcolumn⟩, by omega⟩
  · rintro ⟨⟨p, hp, hcolumn⟩, hlayer⟩
    rcases (mem_boxFloor h).1 hp with ⟨hx, -, hz⟩
    rcases World.stored_layer p.x p.z q.layer.isLt with ⟨-, hsame, hint⟩
    have hy' : start.y.toInt ≤ (Int32.ofNat q.layer).toInt ∧
        (Int32.ofNat q.layer).toInt < start.y.toInt + size.y.toInt := by
      rw [hint]
      omega
    exact ⟨⟨p.x, .ofNat q.layer, p.z⟩, ⟨hx, hy', hz⟩, hcolumn, hsame.symm⟩

/-- The cells on the lid of a box. -/
theorem onLid_iff {start size : Pos} (h : BoxFits start size) {q : Pos} :
    OnLid start size q ↔ (∃ p ∈ boxFloor start size, q.column = p.column) ∧
      0 < size.y.toInt.toNat ∧ q.layer.val = start.y.toInt.toNat + size.y.toInt.toNat ∧
        Column.isEven q.layer = false := by
  have hy := h.y
  simp only [Column.isEven, decide_eq_false_iff_not]
  constructor
  · rintro ⟨p, hp, htop, heven, hcolumn, hlayer⟩
    have hpy := hp.y
    have hup : (p.up 1).y.toInt = p.y.toInt + 1 := toInt_add_one (by omega)
    have hval : q.layer.val = (p.y.toInt + 1).toNat := by
      rw [hlayer, Pos.layer_val (Pos.inHeight_iff_toInt.2 (by omega)), hup]
    exact ⟨⟨⟨p.x, start.y, p.z⟩, (mem_boxFloor h).2 ⟨hp.x, rfl, hp.z⟩, hcolumn⟩,
      by omega, by omega, by omega⟩
  · rintro ⟨⟨p, hp, hcolumn⟩, hsome, hlayer, hodd⟩
    rcases (mem_boxFloor h).1 hp with ⟨hx, -, hz⟩
    have hlt := q.layer.isLt
    obtain ⟨y, hint⟩ : ∃ y : Int32, y.toInt = (q.layer.val : Int) - 1 :=
      ⟨.ofInt (q.layer.val - 1), Int32.toInt_ofInt_of_le (by omega) (by omega)⟩
    have hup : (y + 1).toInt = q.layer.val := by
      rw [toInt_add_one (by omega)]
      omega
    have hin : (⟨p.x, y + 1, p.z⟩ : Pos).inHeight := by
      rw [Pos.inHeight_iff_toInt, hup]
      omega
    have hsame : q.layer = (⟨p.x, y + 1, p.z⟩ : Pos).layer := by
      rw [← Fin.val_inj, Pos.layer_val hin, hup]
      rfl
    have hrange : start.y.toInt ≤ y.toInt ∧ y.toInt < start.y.toInt + size.y.toInt := by omega
    have htop : y.toInt + 1 = start.y.toInt + size.y.toInt := by omega
    have heven : y.toInt % 2 = 0 := by omega
    exact ⟨⟨p.x, y, p.z⟩, ⟨hx, hrange, hz⟩, htop, heven, hcolumn, hsame⟩

/-- A fill of a box that fits writes a run to each column over the floor of the box. -/
theorem fill?_eq {start size : Pos} (h : BoxFits start size) (c : Chunk) (b : Block) :
    c.fill? start size b = some ((boxFloor start size).foldl (fun c p => c.modifyColumn p.column
      (Column.putFrom b size.y.toInt.toNat start.y.toInt.toNat)) c) := by
  have hy := h.y
  have htall : (Span.halfOpen start.y (start.y + size.y)).size = size.y.toInt.toNat := by
    rw [Span.halfOpen, toInt_add_of_fits (by omega) (by omega)]
    exact congrArg Int.toNat (by omega)
  have hcolumn (p : Pos) (hp : p ∈ boxFloor start size) (c : Chunk) :
      fillFrom b size.y.toInt.toNat p.cellNumber c = some (c.modifyColumn p.column
        (Column.putFrom b size.y.toInt.toNat start.y.toInt.toNat)) := by
    rcases Nat.eq_zero_or_pos size.y.toInt.toNat with h0 | hpos
    · rw [h0]
      exact congrArg some (c.modifyColumn_id p.column).symm
    · have hpy : p.y = start.y := ((mem_boxFloor h).1 hp).2.1
      have hlayer : p.layer.val = start.y.toInt.toNat := by
        rw [Pos.layer_val (Pos.inHeight_iff_toInt.2 (by rw [hpy]; omega)), hpy]
      rw [Pos.cellNumber, hlayer, fillFrom_eq b p.column (by omega)]
  rw [fill?, htall]
  generalize boxFloor start size = ps at hcolumn
  induction ps generalizing c with
  | nil => rfl
  | cons p ps ih =>
      rw [List.forall_mem_cons] at hcolumn
      rw [List.foldlM_cons, hcolumn.1]
      exact ih _ hcolumn.2

/-- What a fill leaves in the cells of its box, on the lid, and elsewhere. -/
theorem get_fill {start size : Pos} (h : BoxFits start size) (c : Chunk) (b : Block) :
    ∃ filled, c.fill? start size b = some filled ∧
      (∀ q, NamesCell start size q → filled.get q = b.stored) ∧
      (∀ q, OnLid start size q →
        filled.get q = ⟨(c.get q).id, (c.get q).data ||| b.data >>> 4⟩) ∧
      ∀ q, ¬NamesCell start size q → ¬OnLid start size q →
        filled.get q = c.get q := by
  have hy := h.y
  refine ⟨_, fill?_eq h c b, ?_⟩
  have hget := get_foldl_modifyColumn
    (Column.get_putFrom b (n := size.y.toInt.toNat) (y := start.y.toInt.toNat) (by omega))
    (Column.overlay_overlay b _ _) (boxFloor start size) c
  simp only [namesCell_iff h, onLid_iff h, hget]
  refine ⟨fun q hq => ?_, fun q hq => ?_, fun q hout hlid => ?_⟩
  · rw [if_pos hq.1, Column.overlay_of_mem b hq.2]
  · rw [if_pos hq.1, Column.overlay, if_neg (by omega), if_pos hq.2]
    rfl
  · by_cases hfloor : ∃ p ∈ boxFloor start size, q.column = p.column
    · rw [if_pos hfloor, Column.overlay, if_neg fun hrun => hout ⟨hfloor, hrun⟩,
        if_neg fun habove => hlid ⟨hfloor, habove⟩]
    · rw [if_neg hfloor]

/-- No cell of a box is on its lid. -/
theorem not_namesCell_of_onLid {start size : Pos} (h : BoxFits start size) {q : Pos}
    (hq : OnLid start size q) : ¬NamesCell start size q := by
  rw [onLid_iff h] at hq
  rw [namesCell_iff h]
  omega

section Cellwise

variable {start size : Pos} {cells : List Pos} (hcells : ∀ p, p ∈ cells ↔ InBox start size p)

include hcells

/-- The writes of the cells of a box, one by one and in any order. -/
theorem get_setAll_of_namesCell (c : Chunk) (b : Block) {q : Pos}
    (hq : NamesCell start size q) :
    (c.setAll (cells.map fun p => (p, b))).get q = b.stored := by
  rw [get_setAll_map, if_pos (by simp only [hcells]; exact hq)]

theorem get_setAll_of_not_namesCell (c : Chunk) (b : Block) {q : Pos}
    (hq : ¬NamesCell start size q) :
    (c.setAll (cells.map fun p => (p, b))).get q = c.get q := by
  rw [get_setAll_map, if_neg (by simp only [hcells]; exact hq)]

/-- A fill does what the writes of its cells do one by one, in any order, but for the cells on
the lid of the box: there the high half of the metadata byte is added to the metadata. So the
two agree exactly if it has no bit that such a cell lacks, and always if the byte has four bits. -/
theorem fill_agrees_off_lid (h : BoxFits start size) (c : Chunk) (b : Block) :
    ∃ filled, c.fill? start size b = some filled ∧
      let cellwise := c.setAll (cells.map fun p => (p, b))
      (∀ q, ¬OnLid start size q → filled.get q = cellwise.get q) ∧
      (∀ q, OnLid start size q → cellwise.get q = c.get q ∧
        filled.get q = ⟨(c.get q).id, (c.get q).data ||| b.data >>> 4⟩) ∧
      (∀ p, InBox start size p → filled.get p = ⟨b.id, b.data &&& 0x0F⟩) ∧
      (∀ q, ¬NamesCell start size q →
        filled.idAt q = c.idAt q ∧ (¬OnLid start size q → filled.get q = c.get q)) ∧
      ((∀ q, filled.get q = cellwise.get q) ↔
        ∀ q, OnLid start size q → (c.get q).data ||| b.data >>> 4 = (c.get q).data) ∧
      (b.data < 16 → ∀ q, filled.get q = cellwise.get q) := by
  rcases get_fill h c b with ⟨filled, hfill, hbox, hlid, hrest⟩
  have hoff (q : Pos) (hq : ¬OnLid start size q) :
      filled.get q = (c.setAll (cells.map fun p => (p, b))).get q := by
    by_cases hin : NamesCell start size q
    · rw [hbox q hin, get_setAll_of_namesCell hcells c b hin]
    · rw [hrest q hin hq, get_setAll_of_not_namesCell hcells c b hin]
  have hkept (q : Pos) (hq : OnLid start size q) :
      (c.setAll (cells.map fun p => (p, b))).get q = c.get q :=
    get_setAll_of_not_namesCell hcells c b (not_namesCell_of_onLid h hq)
  have hagree : (∀ q, filled.get q = (c.setAll (cells.map fun p => (p, b))).get q) ↔
      ∀ q, OnLid start size q → (c.get q).data ||| b.data >>> 4 = (c.get q).data := by
    constructor
    · intro hall q hq
      have hcell := hall q
      rw [hlid q hq, hkept q hq] at hcell
      exact congrArg Block.data hcell
    · intro hall q
      by_cases hq : OnLid start size q
      · rw [hlid q hq, hkept q hq, hall q hq]
      · exact hoff q hq
  have hid (q : Pos) (hout : ¬NamesCell start size q) :
      filled.idAt q = c.idAt q := by
    rw [idAt_eq, idAt_eq]
    by_cases hq : OnLid start size q
    · rw [hlid q hq]
    · rw [hrest q hout hq]
  have hfour (hdata : b.data < 16) (q : Pos) :
      filled.get q = (c.setAll (cells.map fun p => (p, b))).get q := by
    have hhigh : b.data >>> 4 = 0 := HalfByte.high_eq_zero hdata
    exact hagree.2 (fun q _ => by rw [hhigh, UInt8.or_zero]) q
  exact ⟨filled, hfill, hoff, fun q hq => ⟨hkept q hq, hlid q hq⟩,
    fun p hp => hbox p ⟨p, hp, rfl, rfl⟩, fun q hout => ⟨hid q hout, hrest q hout⟩, hagree, hfour⟩

end Cellwise

/-- A box that goes round the chunk along `x`. Its top layer is even. -/
theorem fill_of_wrapping_box :
    BoxFits ⟨-3, 10, 5⟩ ⟨20, 3, 1⟩ ∧
      (∀ p, p ∈ boxCells ⟨-3, 10, 5⟩ ⟨20, 3, 1⟩ ↔ InBox ⟨-3, 10, 5⟩ ⟨20, 3, 1⟩ p) ∧
      ∃ filled, empty.fill? ⟨-3, 10, 5⟩ ⟨20, 3, 1⟩ ⟨.stone, 0x1F⟩ = some filled ∧
        filled.get ⟨16, 12, 5⟩ = ⟨.stone, 15⟩ ∧ filled.get ⟨0, 13, 5⟩ = ⟨.air, 1⟩ := by
  have hfits : BoxFits ⟨-3, 10, 5⟩ ⟨20, 3, 1⟩ := by constructor <;> decide
  have hcells (p : Pos) : p ∈ boxCells ⟨-3, 10, 5⟩ ⟨20, 3, 1⟩ ↔ InBox ⟨-3, 10, 5⟩ ⟨20, 3, 1⟩ p :=
    mem_boxCells hfits
  rcases fill_agrees_off_lid hcells hfits empty ⟨.stone, 0x1F⟩ with
    ⟨filled, hfill, -, hlid, hbox, -⟩
  have hin : InBox ⟨-3, 10, 5⟩ ⟨20, 3, 1⟩ ⟨16, 12, 5⟩ := by constructor <;> decide
  have hon : OnLid ⟨-3, 10, 5⟩ ⟨20, 3, 1⟩ ⟨0, 13, 5⟩ := ⟨⟨16, 12, 5⟩, hin, by decide⟩
  refine ⟨hfits, hcells, filled, hfill, hbox _ hin, ?_⟩
  rw [(hlid _ hon).2, get_empty]
  decide

/-- A byte of five bits gets into the cell above the filled one, which writes keep as it is. -/
theorem fill_changes_cell_above :
    BoxFits ⟨0, 0, 0⟩ ⟨1, 1, 1⟩ ∧ boxCells ⟨0, 0, 0⟩ ⟨1, 1, 1⟩ = [⟨0, 0, 0⟩] ∧
      (empty.fill? ⟨0, 0, 0⟩ ⟨1, 1, 1⟩ ⟨.stone, 0x1F⟩).map (·.get ⟨0, 1, 0⟩) = some ⟨.air, 1⟩ ∧
      (empty.setAll [(⟨0, 0, 0⟩, ⟨.stone, 0x1F⟩)]).get ⟨0, 1, 0⟩ = .air := by
  have hfits : BoxFits ⟨0, 0, 0⟩ ⟨1, 1, 1⟩ := by constructor <;> decide
  exact ⟨hfits, by decide, by decide +kernel, by decide +kernel⟩

end Chunk

end VoxelFeatures
