import VoxelFeatures.Proofs.Inspection

/-!
# Legal acts and traced writes

A placement is legal if its metadata fits in four bits, a report if it does not
claim a placement. The height is not the business of the act: the site skips what
lies outside the world, and its note with it. A run of legal acts adds writes to
the journal and notes to the site, and the notes of placements among the added
ones are those of the added writes, in the same order.
-/

namespace VoxelFeatures

/-- Whether a note tells of a placed block. -/
def Note.isPlacement : Note → Bool
  | placed .. => true
  | _ => false

/-- The note of a write. -/
def Write.note (w : Write) : Note := .placed w.pos w.block

/-- A placed block has metadata of four bits, and only placements are noted as such. -/
def Act.Legal : Act → Prop
  | draw _ | look _ => True
  | place _ b _ => b.data < 16
  | report n => n.isPlacement = false

namespace Act

@[simp] theorem legal_draw (d : Draw) : (draw d).Legal := trivial

@[simp] theorem legal_look (p : Pos) : (look p).Legal := trivial

@[simp] theorem legal_place (p : Pos) (b : Block) (notify : Bool) :
    (place p b notify).Legal ↔ b.data < 16 := Iff.rfl

@[simp] theorem legal_report (n : Note) : (report n).Legal ↔ n.isPlacement = false := Iff.rfl

theorem Inspects.legal {a : Act} (h : a.Inspects) : a.Legal := by
  cases a with
  | draw d => trivial
  | look p => trivial
  | place p b notify => exact h.elim
  | report n => exact h.elim

end Act

namespace Site

/-- From `s` to `t` the writes `ws` and the notes `ns` were added. The writes are
within the height of the world and have metadata of four bits, and the notes of
placements at trace level are theirs, one for one and in order. -/
structure Traced (s t : Site) (ws : List Write) (ns : List Note) : Prop where
  writes : t.journal.writes.toList = s.journal.writes.toList ++ ws
  notes : t.notes.toList = s.notes.toList ++ ns
  inHeight : ∀ w ∈ ws, 0 ≤ w.pos.y ∧ w.pos.y ≤ 255
  data_lt : ∀ w ∈ ws, w.block.data < 16
  placements : ns.filter (fun n => n.isPlacement && n.level == "TRACE") = ws.map Write.note

namespace Traced

/-- Nothing added. -/
theorem nil {s t : Site} (hw : t.journal.writes = s.journal.writes) (hn : t.notes = s.notes) :
    s.Traced t [] [] :=
  ⟨by simp [hw], by simp [hn], by simp, by simp, rfl⟩

theorem append {s t u : Site} {ws ws' : List Write} {ns ns' : List Note}
    (h : s.Traced t ws ns) (h' : t.Traced u ws' ns') : s.Traced u (ws ++ ws') (ns ++ ns') where
  writes := by rw [h'.writes, h.writes, List.append_assoc]
  notes := by rw [h'.notes, h.notes, List.append_assoc]
  inHeight := List.forall_mem_append.2 ⟨h.inHeight, h'.inHeight⟩
  data_lt := List.forall_mem_append.2 ⟨h.data_lt, h'.data_lt⟩
  placements := by rw [List.filter_append, List.map_append, h.placements, h'.placements]

end Traced

/-- A placement adds one write and its note, or nothing outside the height. -/
theorem traced_place (s : Site) (p : Pos) (b : Block) (notify : Bool) (hb : b.data < 16) :
    ∃ ws ns, s.Traced (s.place p b notify) ws ns := by
  rw [place]
  split
  · rename_i hp
    obtain ⟨hlow, hhigh⟩ := Pos.inHeight_iff.1 hp
    have hle : p.y ≤ 255 := by
      rw [Int32.lt_iff_toInt_lt] at hhigh
      rw [Int32.le_iff_toInt_le]
      exact Int.le_of_lt_add_one hhigh
    refine ⟨[⟨p, b, notify, s.journal.world.get p⟩], [.placed p b], ?_, ?_, ?_, ?_, rfl⟩
    · simp
    · simp
    · simpa using ⟨hlow, hle⟩
    · simpa using hb
  · exact ⟨[], [], .nil rfl rfl⟩

end Site

theorem Act.traced_perform {a : Act} (h : a.Legal) (s : Site) :
    ∃ ws ns, s.Traced (a.perform s).2 ws ns := by
  cases a with
  | draw d => exact ⟨[], [], .nil rfl rfl⟩
  | look p => exact ⟨[], [], .nil rfl rfl⟩
  | place p b notify => exact s.traced_place p b notify h
  | report n =>
      refine ⟨[], [n], by simp [perform], by simp [perform], by simp, by simp, ?_⟩
      rw [legal_report] at h
      simp [h]

namespace Build

variable {α : Type}

/-- A run of legal acts is traced. -/
theorem Only.traced_run {m : Build α} (h : m.Only Act.Legal) (s : Site) :
    ∃ ws ns, s.Traced (m.run s).2 ws ns := by
  refine Only.run (R := fun s t => ∃ ws ns, s.Traced t ws ns) (fun s => ⟨[], [], .nil rfl rfl⟩)
    ?_ (fun a s ha => a.traced_perform ha s) h s
  rintro s t u ⟨ws, ns, h⟩ ⟨ws', ns', h'⟩
  exact ⟨_, _, h.append h'⟩

@[simp low] theorem Only.legal {m : Build α} (h : m.Only Act.Inspects) : m.Only Act.Legal :=
  h.mono fun _ => Act.Inspects.legal

@[simp] theorem legal_replace {b : Block} (hb : b.data < 16) (s : BlockSet) (p : Pos) :
    (replace s p b).Only Act.Legal := by
  simp [replace, hb]

end Build

end VoxelFeatures
