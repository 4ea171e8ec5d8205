import VoxelFeatures.Proofs.Allocation
import VoxelFeatures.World.Journal

/-!
# What a journal tells

A journal of a world that it was opened on tells four things. Its writes are
the calls that reached the world, each with the block that it replaced. Its diff
has the blocks that the written positions hold now. Done again on the first
world the writes lead to the present one, and put back in reverse order the
replaced blocks lead to the first one.

The last holds of all ids, and of metadata with one exception. The first write
into a chunk also clears the metadata of its layers of air (see the module on
allocation), and the journal does not tell of that: a later write into the chunk
takes the cleared block for the one it replaces. What cannot be put back is
therefore a layer of air with metadata, at a position whose chunk was made by
an earlier write elsewhere.
-/

namespace VoxelFeatures

theorem Column.stored_get (c : Column) (y : Fin 256) : (c.get y).stored = c.get y := by
  have hlow (v : UInt8) : HalfByte.low v &&& 0x0F = HalfByte.low v := HalfByte.low_low v
  have hhigh (v : UInt8) : HalfByte.high v &&& 0x0F = HalfByte.high v := by
    apply HalfByte.byte_ext
    rintro i (rfl | rfl | rfl | rfl | rfl | rfl | rfl | rfl) <;> simp [HalfByte.high]
  rw [Column.get, Block.stored, Column.dataAt]
  split
  · rw [hlow]
  · rw [hhigh]

namespace Write

/-- The edit that writes some block at the position of a write. -/
def edit (f : Write → Block) (w : Write) : Edit := .write w.pos (f w) w.notify

/-- The edit that does a write again. -/
abbrev redo : Write → Edit := edit block

/-- The edit that puts back what a write replaced. -/
abbrev undo : Write → Edit := edit before

theorem apply_edit (f : Write → Block) (v : Write) (w : World) :
    (v.edit f).apply w = w.set v.pos (f v) :=
  w.write_snd v.pos (f v) v.notify

end Write

namespace World

theorem edit_append (w : World) (es es' : List Edit) : w.edit (es ++ es') = (w.edit es).edit es' :=
  List.foldl_append

/-- The last of some writes is done in the world that the others lead to. -/
theorem edit_concat (w : World) (f : Write → Block) (ws : List Write) (v : Write) :
    w.edit ((ws ++ [v]).map (Write.edit f)) =
      (w.edit (ws.map (Write.edit f))).set v.pos (f v) := by
  rw [List.map_append, edit_append, List.map_singleton, edit_cons, edit_nil, Write.apply_edit]

/-- No world that was made from layers holds metadata of more than four bits. -/
theorem stored_get (seed : Int64) (layers : List (Block × Nat)) (es : List Edit) (p : Pos) :
    (((ofLayers seed layers).edit es).get p).stored = ((ofLayers seed layers).edit es).get p := by
  have hprofile : ((ofLayers seed layers).edit es).profile = .ofLayers layers :=
    profile_edit (ofLayers seed layers) es
  rw [get]
  split
  · split
    · exact Column.stored_get _ _
    · have hlayer : (Profile.ofLayers layers)[p.layer] = Profile.layerAt layers p.layer.val :=
        Profile.getElem_ofLayers layers p.layer.isLt
      rw [hprofile, hlayer, Profile.stored_layerAt]
  · rfl

theorem mem_chunks_set (w : World) {p : Pos} (hp : p.inHeight) (b : Block) (k : ChunkPos) :
    k ∈ (w.set p b).chunks ↔ k = p.chunk ∨ k ∈ w.chunks := by
  rw [set_eq_alter w hp]
  simp only [Std.TreeMap.mem_alter, Std.LawfulEqCmp.compare_eq_iff_eq]
  by_cases hk : p.chunk = k
  · simp [hk]
  · simp [hk, Ne.symm hk]

/-- A chunk that has been written changes at the written position alone. -/
theorem get_set_of_mem_chunks (w : World) {p q : Pos} (hne : q ≠ p) (hq : q.chunk ∈ w.chunks)
    (b : Block) : (w.set p b).get q = w.get q := by
  cases hp : p.inHeight
  · rw [set_of_not_inHeight w hp]
  · rw [get_set w hp, if_neg hne, if_neg fun hfresh => hfresh.2.2 (hfresh.2.1 ▸ hq)]

theorem ground_set (w : World) (p : Pos) (b : Block) : (w.set p b).ground = w.ground := by
  cases hp : p.inHeight
  · rw [set_of_not_inHeight w hp]
  · rw [set_eq_alter w hp]
    rfl

/-- Writes elsewhere change a position only by making its chunk. -/
theorem get_edit_of_ne (w : World) (f : Write → Block) (ws : List Write) {q : Pos}
    (hne : ∀ v ∈ ws, v.pos ≠ q) :
    (w.edit (ws.map (Write.edit f))).get q =
      if q.inHeight ∧ q.chunk ∉ w.chunks ∧ ∃ v ∈ ws, v.pos.inHeight ∧ v.pos.chunk = q.chunk
      then w.ground.get q else w.get q := by
  induction ws generalizing w with
  | nil => simp
  | cons v ws ih =>
      rw [List.forall_mem_cons] at hne
      rw [List.map_cons, edit_cons, Write.apply_edit, ih _ hne.2, ground_set]
      cases hv : v.pos.inHeight
      · simp [hv]
      · rw [get_set w hv, if_neg (Ne.symm hne.1)]
        by_cases hc : q.chunk = v.pos.chunk
        · simp [mem_chunks_set w hv, hv, hc]
        · simp [mem_chunks_set w hv, hv, hc, Ne.symm hc]

end World

namespace Journal

/-! ## Calls -/

/-- A call on the world through its journal. -/
inductive Call where
  /-- A raw write. -/
  | set (p : Pos) (b : Block) (notify : Bool)
  /-- A placement, with or without notice to the neighbours. -/
  | place (p : Pos) (b : Block) (notify : Bool)

namespace Call

/-- The journal after a call. -/
def apply (j : Journal) : Call → Journal
  | set p b notify => (j.write p b notify).2
  | place p b notify => (j.place p b notify).2

/-- What a call asks for. -/
def request : Call → Pos × Block × Bool
  | set p b notify | place p b notify => (p, b, notify)

/-- Whether a call comes down to a raw write. -/
def reaches : Call → Bool
  | set .. => true
  | place p .. => p.inHeight

/-- A call that reaches the world is a raw write, and no other call does anything. -/
theorem apply_eq (j : Journal) (c : Call) :
    c.apply j = if c.reaches then j.set c.request.1 c.request.2.1 c.request.2.2 else j := by
  cases c with
  | set p b notify => rfl
  | place p b notify => rw [apply, place_eq]; rfl

end Call

/-- The journal after some calls, the first one first. -/
def after (j : Journal) (cs : List Call) : Journal := cs.foldl Call.apply j

theorem after_cons (j : Journal) (c : Call) (cs : List Call) :
    j.after (c :: cs) = (c.apply j).after cs := rfl

theorem writes_after (j : Journal) (cs : List Call) :
    (j.after cs).writes.toList.map Write.request =
      j.writes.toList.map Write.request ++ (cs.filter Call.reaches).map Call.request := by
  induction cs generalizing j with
  | nil => simp [after]
  | cons c cs ih =>
      rw [after_cons, ih, Call.apply_eq]
      by_cases hc : c.reaches
      · simp [hc, Write.request]
      · simp [hc]

/-- What every raw write keeps is kept by any calls. -/
theorem after_induction {P : Journal → Prop}
    (hset : ∀ (j : Journal) p b notify, P j → P (j.set p b notify)) {j : Journal} (h : P j)
    (cs : List Call) : P (j.after cs) := by
  induction cs generalizing j with
  | nil => exact h
  | cons c cs ih =>
      rw [after_cons, Call.apply_eq]
      split
      · exact ih (hset j _ _ _ h)
      · exact ih h

/-- The journal tells what happened to its world since `w₀`: its writes, done on
`w₀`, lead to its world, and each says what was there when it was done. -/
structure Since (j : Journal) (w₀ : World) : Prop where
  world : w₀.edit (j.writes.toList.map Write.redo) = j.world
  before : ∀ earlier w later, j.writes.toList = earlier ++ w :: later →
    w.before = (w₀.edit (earlier.map Write.redo)).get w.pos

theorem since_ofWorld (w₀ : World) : (ofWorld w₀).Since w₀ :=
  ⟨rfl, fun earlier w later h => by simp at h⟩

namespace Since

variable {w₀ : World} {j : Journal}

theorem set (h : j.Since w₀) (p : Pos) (b : Block) (notify : Bool) :
    (j.set p b notify).Since w₀ := by
  refine ⟨?_, fun earlier w later hsplit => ?_⟩
  · rw [writes_set, Array.toList_push, World.edit_concat, h.world, world_set]
  · rw [writes_set, Array.toList_push] at hsplit
    cases later using List.reverseRecOn with
    | nil =>
        obtain ⟨hearlier, hw⟩ := List.append_inj' hsplit rfl
        rw [← hearlier, h.world, ← List.singleton_inj.1 hw]
    | append_singleton later v =>
        rw [← List.cons_append, ← List.append_assoc] at hsplit
        exact h.before earlier w later (List.append_inj' hsplit rfl).1

theorem after (h : j.Since w₀) (cs : List Call) : (j.after cs).Since w₀ :=
  after_induction (P := (Since · w₀)) (fun _ p b notify hj => hj.set p b notify) h cs

end Since

/-! ## The diff -/

/-- The positions of the writes, in order. -/
def positions (j : Journal) : List Pos := j.writes.toList.map Write.pos

theorem positions_set (j : Journal) (p : Pos) (b : Block) (notify : Bool) :
    (j.set p b notify).positions = j.positions ++ [p] := by
  simp [positions]

/-- A write brings at most one new key, its own position, and that comes last. -/
theorem keys_diff_set (j : Journal) (p : Pos) (b : Block) (notify : Bool) :
    (j.set p b notify).diff.keys =
      if p.inHeight ∧ p ∉ j.diff.keys then j.diff.keys ++ [p] else j.diff.keys := by
  rw [diff_set]
  by_cases hp : p.inHeight
  · rw [if_pos hp, InsertionMap.keys_insert, ← ite_not]
    simp only [hp, true_and]
  · rw [if_neg hp, if_neg fun h => hp h.1]

/-- The diff sums the writes up. Its keys are the positions written within the height, in
the order of their first writes. Each key has the block that the world holds there, in a
chunk that has been written, so that no write elsewhere changes it. -/
structure SummedUp (j : Journal) : Prop where
  mem_keys : ∀ q, q ∈ j.diff.keys ↔ q ∈ j.positions ∧ q.inHeight
  ordered : j.diff.keys.Pairwise fun p q => j.positions.idxOf p < j.positions.idxOf q
  holds : ∀ e ∈ j.diff.toList, e.1.chunk ∈ j.world.chunks ∧ e.2 = j.get e.1

theorem summedUp_ofWorld (w₀ : World) : (ofWorld w₀).SummedUp :=
  ⟨fun q => by simp [InsertionMap.keys, positions], .nil, fun e he => by simp at he⟩

namespace SummedUp

variable {j : Journal}

theorem mem_keys_set (h : j.SummedUp) (p : Pos) (b : Block) (notify : Bool) (q : Pos) :
    q ∈ (j.set p b notify).diff.keys ↔ q ∈ (j.set p b notify).positions ∧ q.inHeight := by
  rw [keys_diff_set, positions_set, List.mem_append, List.mem_singleton]
  split
  · rename_i hnew
    rw [List.mem_append, List.mem_singleton, h.mem_keys, or_and_right]
    exact or_congr_right (iff_self_and.2 fun hq => hq ▸ hnew.1)
  · rename_i hold
    rw [h.mem_keys, or_and_right]
    refine (or_iff_left_of_imp ?_).symm
    rintro ⟨rfl, hq⟩
    exact (h.mem_keys q).1 (not_not.1 fun hmem => hold ⟨hq, hmem⟩)

theorem ordered_set (h : j.SummedUp) (p : Pos) (b : Block) (notify : Bool) :
    (j.set p b notify).diff.keys.Pairwise fun q r =>
      (j.set p b notify).positions.idxOf q < (j.set p b notify).positions.idxOf r := by
  rw [positions_set]
  have hfirst : ∀ q ∈ j.diff.keys, (j.positions ++ [p]).idxOf q = j.positions.idxOf q :=
    fun q hq => List.idxOf_append_of_mem ((h.mem_keys q).1 hq).1
  have hkeys : j.diff.keys.Pairwise fun q r =>
      (j.positions ++ [p]).idxOf q < (j.positions ++ [p]).idxOf r :=
    h.ordered.imp_of_mem fun hq hr hlt => by rwa [hfirst _ hq, hfirst _ hr]
  rw [keys_diff_set]
  split
  · rename_i hnew
    have hp : p ∉ j.positions := fun hp => hnew.2 ((h.mem_keys p).2 ⟨hp, hnew.1⟩)
    refine List.pairwise_append.2 ⟨hkeys, List.pairwise_singleton _ _, fun q hq r hr => ?_⟩
    rw [List.mem_singleton.1 hr, hfirst q hq, List.idxOf_append_of_notMem hp]
    exact Nat.lt_add_right _ (List.idxOf_lt_length_iff.2 ((h.mem_keys q).1 hq).1)
  · exact hkeys

theorem holds_set (h : j.SummedUp) (p : Pos) (b : Block) (notify : Bool) :
    ∀ e ∈ (j.set p b notify).diff.toList,
      e.1.chunk ∈ (j.set p b notify).world.chunks ∧ e.2 = (j.set p b notify).get e.1 := by
  intro e he
  rw [diff_set] at he
  rw [world_set, get_set]
  by_cases hp : p.inHeight
  · rw [if_pos hp, InsertionMap.mem_toList_insert] at he
    rcases he with rfl | ⟨hne, he⟩
    · exact ⟨(World.mem_chunks_set _ hp _ _).2 (.inl rfl), rfl⟩
    · obtain ⟨hchunk, hget⟩ := h.holds e he
      rw [World.get_set_of_mem_chunks _ hne hchunk]
      exact ⟨(World.mem_chunks_set _ hp _ _).2 (.inr hchunk), hget⟩
  · rw [if_neg hp] at he
    rw [World.set_of_not_inHeight _ (by simpa using hp)]
    exact h.holds e he

theorem set (h : j.SummedUp) (p : Pos) (b : Block) (notify : Bool) :
    (j.set p b notify).SummedUp :=
  ⟨h.mem_keys_set p b notify, h.ordered_set p b notify, h.holds_set p b notify⟩

theorem after (h : j.SummedUp) (cs : List Call) : (j.after cs).SummedUp :=
  after_induction (fun _ p b notify hj => hj.set p b notify) h cs

end SummedUp

/-! ## Undoing -/

/-- Putting back what the writes replaced restores every id. -/
theorem idAt_edit_undo (w₀ : World) {ws : List Write} {u : World}
    (hbefore : ∀ earlier w later, ws = earlier ++ w :: later →
      w.before = (w₀.edit (earlier.map Write.redo)).get w.pos)
    (hu : ∀ q, u.idAt q = (w₀.edit (ws.map Write.redo)).idAt q) (q : Pos) :
    (u.edit (ws.reverse.map Write.undo)).idAt q = w₀.idAt q := by
  induction ws using List.reverseRecOn generalizing u with
  | nil => exact hu q
  | append_singleton ws w ih =>
      rw [List.reverse_concat, List.map_cons, World.edit_cons, Write.apply_edit]
      -- undoing `w` leads to some world with the ids that were there before `w`
      refine ih (fun earlier v later hsplit => ?_) fun r => ?_
      · exact hbefore earlier v (later ++ [w]) (by rw [hsplit, List.append_assoc, List.cons_append])
      · have hr := hu r
        rw [World.edit_concat, World.idAt_set] at hr
        rw [World.idAt_set, hr, hbefore ws w [] rfl, ← World.idAt_eq]
        by_cases h : w.pos.inHeight ∧ r = w.pos
        · rw [if_pos h, h.2]
        · rw [if_neg h, if_neg h]

/-- What is put back at a position in the end is what the first write there replaced. -/
theorem get_edit_undo (u : World) {earlier later : List Write} {w : Write} (hp : w.pos.inHeight)
    (hfirst : ∀ v ∈ earlier, v.pos ≠ w.pos) :
    (u.edit ((earlier ++ w :: later).reverse.map Write.undo)).get w.pos = w.before.stored := by
  -- what is undone after `w` was written before it, and so at other positions
  have hne : ∀ v ∈ earlier.reverse, v.pos ≠ w.pos := fun v hv => hfirst v (List.mem_reverse.1 hv)
  rw [List.reverse_append, List.reverse_cons, List.map_append, World.edit_append,
    World.edit_concat, World.get_edit_of_ne _ _ _ hne,
    if_neg fun h => h.2.1 ((World.mem_chunks_set _ hp _ _).2 (.inl rfl)),
    World.get_set _ hp, if_pos rfl]

/-- What the first write at a position replaces was there from the start, unless
the position is air with metadata and an earlier write made its chunk. -/
theorem get_edit_redo_eq_iff (seed : Int64) (layers : List (Block × Nat)) (es : List Edit)
    (ws : List Write) {q : Pos} (hq : q.inHeight) (hfirst : ∀ v ∈ ws, v.pos ≠ q) :
    (((World.ofLayers seed layers).edit es).edit (ws.map Write.redo)).get q =
        ((World.ofLayers seed layers).edit es).get q ↔
      (q.chunk ∉ touchedBy es → (∃ v ∈ ws, v.pos.inHeight ∧ v.pos.chunk = q.chunk) →
        (Profile.layerAt layers q.y.toInt.toNat).id = .air →
        (Profile.layerAt layers q.y.toInt.toNat).data = 0) := by
  have hchunks := World.mem_chunks_edit seed layers es q.chunk
  rw [World.get_edit_of_ne _ _ _ hfirst, ← hchunks]
  by_cases h : q.chunk ∉ ((World.ofLayers seed layers).edit es).chunks ∧
      ∃ v ∈ ws, v.pos.inHeight ∧ v.pos.chunk = q.chunk
  · rw [if_pos ⟨hq, h⟩, World.get_ground_eq_iff seed layers es hq (mt hchunks.2 h.1)]
    exact ⟨fun hlayer _ _ => hlayer, fun hlayer => hlayer h.1 h.2⟩
  · rw [if_neg fun hc => h hc.2]
    exact iff_of_true rfl fun hnew hmade => absurd ⟨hnew, hmade⟩ h

/-- What the journal of some calls on a world tells. Its writes are the calls
that reached the world, in order, each with the block that it found there. Its
diff has the positions within the height that were written, in the order of their
first writes, each with what it reads as now. Done again on the first world the
writes lead to the present one. Undone from the last to the first they restore
the id of every position. They also restore the metadata of every written
position, unless its layer of the ground is air with metadata and an earlier
write at another position was the first to touch its chunk. -/
theorem journal_tells_history (seed : Int64) (layers : List (Block × Nat)) (es : List Edit)
    (cs : List Call) :
    let w₀ := (World.ofLayers seed layers).edit es
    let j := (ofWorld w₀).after cs
    let ws := j.writes.toList
    let undone := j.world.edit (ws.reverse.map Write.undo)
    (ws.map Write.request = (cs.filter Call.reaches).map Call.request ∧
      ∀ earlier w later, ws = earlier ++ w :: later →
        w.before = (w₀.edit (earlier.map Write.redo)).get w.pos) ∧
    ((∀ q, q ∈ j.diff.keys ↔ q ∈ ws.map Write.pos ∧ q.inHeight) ∧
      j.diff.keys.Pairwise
        (fun p q => (ws.map Write.pos).idxOf p < (ws.map Write.pos).idxOf q) ∧
      ∀ e ∈ j.diff.toList, e.2 = j.get e.1) ∧
    w₀.edit (ws.map Write.redo) = j.world ∧
    (∀ q, undone.idAt q = w₀.idAt q) ∧
    ∀ earlier w later, ws = earlier ++ w :: later → (∀ v ∈ earlier, v.pos ≠ w.pos) →
      (undone.get w.pos = w₀.get w.pos ↔
        (w.pos.inHeight → w.pos.chunk ∉ touchedBy es →
          (∃ v ∈ earlier, v.pos.inHeight ∧ v.pos.chunk = w.pos.chunk) →
          (Profile.layerAt layers w.pos.y.toInt.toNat).id = .air →
          (Profile.layerAt layers w.pos.y.toInt.toNat).data = 0)) := by
  intro w₀ j ws undone
  have hj : j.Since w₀ := (since_ofWorld w₀).after cs
  have hdiff : j.SummedUp := (summedUp_ofWorld w₀).after cs
  refine ⟨⟨writes_after (ofWorld w₀) cs, hj.before⟩,
    ⟨hdiff.mem_keys, hdiff.ordered, fun e he => (hdiff.holds e he).2⟩,
    hj.world, idAt_edit_undo w₀ hj.before fun q => ?_, fun earlier w later hsplit hfirst => ?_⟩
  · rw [hj.world]
  · by_cases hp : w.pos.inHeight
    · have hstored : w.before.stored = w.before := by
        rw [hj.before earlier w later hsplit, ← World.edit_append, World.stored_get]
      have hundone : undone.get w.pos = (w₀.edit (earlier.map Write.redo)).get w.pos := by
        rw [← hj.before earlier w later hsplit, ← hstored]
        simp only [undone, hsplit]
        exact get_edit_undo _ hp hfirst
      rw [hundone, get_edit_redo_eq_iff seed layers es earlier hp hfirst]
      exact ⟨fun h _ => h, fun h => h hp⟩
    · rw [World.get_of_not_inHeight _ (by simpa using hp),
        World.get_of_not_inHeight _ (by simpa using hp)]
      exact iff_of_true rfl fun h => absurd h hp

/-- The first write into a chunk is undone altogether, even above air with metadata. -/
theorem undo_first_write :
    let w₀ := World.ofLayers 0 [(⟨.air, 5⟩, 1)]
    let j := (ofWorld w₀).after
      [.set ⟨0, 0, 0⟩ (.plain .stone) false, .place ⟨1, 0, 0⟩ (.plain .dirt) true]
    (j.world.edit (j.writes.toList.reverse.map Write.undo)).get ⟨0, 0, 0⟩ = w₀.get ⟨0, 0, 0⟩ :=
  ((journal_tells_history 0 [(⟨.air, 5⟩, 1)] []
    [.set ⟨0, 0, 0⟩ (.plain .stone) false, .place ⟨1, 0, 0⟩ (.plain .dirt) true]).2.2.2.2
      [] ⟨⟨0, 0, 0⟩, .plain .stone, false, ⟨.air, 5⟩⟩
      [⟨⟨1, 0, 0⟩, .plain .dirt, true, .air⟩] (by decide +kernel) (by decide)).2
    fun _ _ hmade => absurd hmade (by decide)

/-- What the first write into a chunk cleared at other positions stays so when
the writes there are undone. -/
theorem undo_leaves_air_cleared :
    let w₀ := World.ofLayers 0 [(⟨.air, 5⟩, 1)]
    let j := (ofWorld w₀).after
      [.set ⟨0, 0, 0⟩ (.plain .stone) false, .set ⟨1, 0, 0⟩ (.plain .stone) false]
    ¬ ∀ q ∈ j.writes.toList.map Write.pos,
      (j.world.edit (j.writes.toList.reverse.map Write.undo)).get q = w₀.get q := by
  intro w₀ j h
  exact absurd (h ⟨1, 0, 0⟩ (by decide +kernel)) (by decide +kernel)

end Journal

end VoxelFeatures
