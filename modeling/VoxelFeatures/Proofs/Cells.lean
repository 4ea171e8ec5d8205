import Mathlib.Data.Int.ModEq
import VoxelFeatures.Proofs.Height

/-!
# Chunks after a history of writes

Every position of the world names a cell of a chunk, so a chunk is a map on the
remainders of two coordinates and on the layer. Positions that are far apart may
name one cell, and cells that are not the same never share more than a byte of
metadata, of which a write leaves the other half alone. So what a cell reads as
is what the newest write left in it, whatever was written around it
(`blockAfter`), and the height of a column is one above the highest of its cells
that is not air.
-/

namespace VoxelFeatures

namespace Pos

/-- The positions name the same cell of a chunk. -/
abbrev SameCell (p q : Pos) : Prop := q.column = p.column ∧ q.layer = p.layer

/-- The columns of a chunk come again every sixteen words along both axes. -/
theorem column_eq_iff {p q : Pos} :
    p.column = q.column ↔
      p.x.toInt ≡ q.x.toInt [ZMOD 16] ∧ p.z.toInt ≡ q.z.toInt [ZMOD 16] := by
  rw [column, column, Fin.mk.injEq, Int.ModEq, Int.ModEq]
  constructor
  · intro h
    constructor <;> omega
  · rintro ⟨hx, hz⟩
    rw [hx, hz]

theorem layer_eq_iff {p q : Pos} (hp : p.inHeight) (hq : q.inHeight) :
    p.layer = q.layer ↔ p.y = q.y := by
  rw [← Fin.val_inj, layer_val hp, layer_val hq, ← Int32.toInt_inj]
  rw [inHeight_iff_toInt] at hp hq
  omega

theorem sameCell_iff {p q : Pos} (hp : p.inHeight) (hq : q.inHeight) :
    p.SameCell q ↔ q.y = p.y ∧
      q.x.toInt ≡ p.x.toInt [ZMOD 16] ∧ q.z.toInt ≡ p.z.toInt [ZMOD 16] := by
  rw [SameCell, column_eq_iff, layer_eq_iff hq hp, and_comm]

end Pos

namespace Chunk

/-- The chunk after some writes, the oldest first. -/
def setAll (c : Chunk) (ws : List (Pos × Block)) : Chunk :=
  ws.foldl (fun c w => c.set w.1 w.2) c

@[simp] theorem setAll_nil (c : Chunk) : c.setAll [] = c := rfl

theorem setAll_cons (c : Chunk) (w : Pos × Block) (ws : List (Pos × Block)) :
    c.setAll (w :: ws) = (c.set w.1 w.2).setAll ws := rfl

/-- What a write leaves in the cell of a position, if it is a write to that cell. -/
def leftIn? (q : Pos) (w : Pos × Block) : Option Block :=
  if w.1.SameCell q then some w.2.stored else none

theorem get_set_eq (c : Chunk) (w : Pos × Block) (q : Pos) :
    (c.set w.1 w.2).get q = (leftIn? q w).getD (c.get q) := by
  rw [get_set, leftIn?]
  split
  · rfl
  · rfl

/-- A cell reads as what the newest write left in it. -/
theorem get_setAll (c : Chunk) (ws : List (Pos × Block)) (q : Pos) :
    (c.setAll ws).get q = (ws.reverse.findSome? (leftIn? q)).getD (c.get q) := by
  induction ws generalizing c with
  | nil => rfl
  | cons w ws ih =>
      rw [setAll_cons, ih, get_set_eq, List.reverse_cons, List.findSome?_append,
        List.findSome?_singleton]
      cases ws.reverse.findSome? (leftIn? q) with
      | none => rfl
      | some b => rfl

theorem get_empty (q : Pos) : empty.get q = .air := by
  have hid : Column.empty.idAt q.layer = .air := by simp [Column.empty, Column.idAt]
  have hdata : Column.empty.dataAt q.layer = 0 := by
    simp [Column.empty, Column.dataAt, HalfByte.low, HalfByte.high]
  rw [empty, get_uniform, Column.get, hid, hdata]
  rfl

/-- The id and the low four bits of the metadata that the newest of some writes, the oldest
first, has for a position of the layer of `q` that is a multiple of sixteen off along both
axes, and air if there is none. -/
def blockAfter (ws : List (Pos × Block)) (q : Pos) : Block :=
  (ws.reverse.findSome? fun w =>
    if q.y = w.1.y ∧ q.x.toInt ≡ w.1.x.toInt [ZMOD 16] ∧ q.z.toInt ≡ w.1.z.toInt [ZMOD 16]
    then some ⟨w.2.id, w.2.data &&& 0x0F⟩ else none).getD .air

theorem get_setAll_empty {ws : List (Pos × Block)} (hws : ∀ w ∈ ws, w.1.inHeight) {q : Pos}
    (hq : q.inHeight) : (empty.setAll ws).get q = blockAfter ws q := by
  have hleft (vs : List (Pos × Block)) (hvs : ∀ w ∈ vs, w.1.inHeight) :
      vs.findSome? (leftIn? q) = vs.findSome? fun w =>
        if q.y = w.1.y ∧ q.x.toInt ≡ w.1.x.toInt [ZMOD 16] ∧ q.z.toInt ≡ w.1.z.toInt [ZMOD 16]
        then some ⟨w.2.id, w.2.data &&& 0x0F⟩ else none := by
    induction vs with
    | nil => rfl
    | cons w vs ih =>
        rw [List.forall_mem_cons] at hvs
        simp only [List.findSome?_cons, ih hvs.2, leftIn?, Pos.sameCell_iff hvs.1 hq]
        rfl
  rw [get_setAll, get_empty, blockAfter, hleft]
  exact fun w hw => hws w (List.mem_reverse.1 hw)

/-- The height over a position is one above the greatest `y` whose cell there is not air, and
zero over a column of air. -/
theorem height_isGreatest (c : Chunk) (p : Pos) :
    (c.height p = 0 ∧ ∀ y, (⟨p.x, y, p.z⟩ : Pos).inHeight → c.idAt ⟨p.x, y, p.z⟩ = .air) ∨
      ∃ y, IsGreatest {y | (⟨p.x, y, p.z⟩ : Pos).inHeight ∧ c.idAt ⟨p.x, y, p.z⟩ ≠ .air} y ∧
        (c.height p : Int) = y.toInt + 1 :=
  World.column_height_isGreatest c.columns[p.column] p.x p.z

/-- A new chunk after some writes is a map on the remainders of two coordinates and on the
layer. A position reads as what the newest write to its cell left there, id and metadata, and
as air if no write went there. The height over a position is one above the greatest `y` whose
id there is not air. -/
theorem written_chunk_refines_map {ws : List (Pos × Block)} (hws : ∀ w ∈ ws, w.1.inHeight) :
    let c := empty.setAll ws
    (∀ q, q.inHeight → c.get q = blockAfter ws q ∧ c.idAt q = (blockAfter ws q).id) ∧
    ∀ p : Pos,
      (c.height p = 0 ∧ ∀ y, (⟨p.x, y, p.z⟩ : Pos).inHeight → c.idAt ⟨p.x, y, p.z⟩ = .air) ∨
        ∃ y, IsGreatest {y | (⟨p.x, y, p.z⟩ : Pos).inHeight ∧ c.idAt ⟨p.x, y, p.z⟩ ≠ .air} y ∧
          (c.height p : Int) = y.toInt + 1 := by
  intro c
  constructor
  · intro q hq
    have hget : c.get q = blockAfter ws q := get_setAll_empty hws hq
    exact ⟨hget, by rw [idAt_eq, hget]⟩
  · exact c.height_isGreatest

/-- Two cells of one byte of metadata, one of them written again from another chunk. -/
theorem map_of_neighbouring_cells :
    let ws : List (Pos × Block) :=
      [(⟨-1, 254, 17⟩, ⟨.stone, 7⟩), (⟨-1, 255, 17⟩, ⟨.log, 19⟩), (⟨31, 254, -15⟩, ⟨.air, 12⟩)]
    (∀ w ∈ ws, w.1.inHeight) ∧
      (empty.setAll ws).get ⟨15, 254, 1⟩ = ⟨.air, 12⟩ ∧
      (empty.setAll ws).get ⟨15, 255, 1⟩ = ⟨.log, 3⟩ ∧
      (empty.setAll ws).get ⟨15, 254, 2⟩ = .air := by
  intro ws
  have hws : ∀ w ∈ ws, w.1.inHeight := by decide
  have hget := (written_chunk_refines_map hws).1
  refine ⟨hws, ?_, ?_, ?_⟩
  · rw [(hget _ (by decide)).1]
    decide
  · rw [(hget _ (by decide)).1]
    decide
  · rw [(hget _ (by decide)).1]
    decide

end Chunk

end VoxelFeatures
