import VoxelFeatures.Proofs.Additions
import VoxelFeatures.Proofs.Sweep

/-!
# Blocks that last

Logs, leaves and vines of a tree are stamped over one another, each part with a rule of its
own for what it may replace. A write records the id that it has replaced, so these rules are
properties of the added writes, and the writes tell which blocks are still there in the end.
A block lasts if every later write at its cell that found its id there has placed the same
block again. If all writes of a run are like that, then whatever it placed of this block
lasts as well.
-/

namespace VoxelFeatures

/-- If the write replaced the id of `b`, it placed `b` again. -/
def Write.Renews (b : Block) (w : Write) : Prop := w.before.id = b.id → w.block = b

/-- The added writes of two runs in a row are those of the first and those of the second. -/
theorem Site.Adds.split {P : Write → Prop} {s t u : Site} (h : s.Adds P u)
    (hst : s.Adds (fun _ => True) t) (htu : t.Adds (fun _ => True) u) :
    s.Adds P t ∧ t.Adds P u := by
  obtain ⟨ws, hs, hws⟩ := h
  obtain ⟨us, ht, -⟩ := hst
  obtain ⟨vs, hu, -⟩ := htu
  obtain rfl : ws = us ++ vs :=
    List.append_cancel_left (hs.symm.trans (by rw [hu, ht, List.append_assoc]))
  rw [List.forall_mem_append] at hws
  exact ⟨⟨us, ht, hws.1⟩, ⟨vs, hu, hws.2⟩⟩

section Lasting

variable {q : Pos} {b : Block} {s : Site}

theorem Act.settled_perform (hb : b.data < 16) {a : Act}
    (h : s.Adds (fun w => w.pos = q → w.Renews b) (a.perform s).2)
    (hs : Settled q b s.journal) : Settled q b (a.perform s).2.journal := by
  cases a with
  | draw d => exact hs
  | look p => exact hs
  | report n => exact hs
  | place p c notify =>
      change s.Adds _ (s.place p c notify) at h
      change Settled q b (s.place p c notify).journal
      cases hp : p.inHeight with
      | false => rwa [s.place_of_not_inHeight hp]
      | true =>
          by_cases hpq : p = q
          · subst hpq
            obtain ⟨ws, hwrites, hws⟩ := h
            obtain rfl : [⟨p, c, notify, s.journal.get p⟩] = ws :=
              List.append_cancel_left ((s.writes_place hp c notify).symm.trans hwrites)
            have hsame : c = b := hws _ (List.mem_singleton_self _) rfl (by rw [hs.2])
            rw [hsame]
            exact s.settled_place_of_lt hp hb
          · rw [s.journal_place hp]
            exact settles_settled q b s.journal p c notify hpq hs

namespace Build

variable {α ι : Type}

/-- A settled block lasts if the writes at its cell renew it. -/
theorem settled_of_adds (hb : b.data < 16) {m : Build α}
    (h : s.Adds (fun w => w.pos = q → w.Renews b) (m.run s).2) (hs : Settled q b s.journal) :
    Settled q b (m.run s).2.journal := by
  induction m generalizing s with
  | done a => exact hs
  | act a next ih =>
      obtain ⟨hact, hrest⟩ :=
        h.split ((act a done).adds_some s) ((next (a.perform s).1).adds_some (a.perform s).2)
      exact ih _ hrest (a.settled_perform hb hact hs)

/-- Where all writes renew a block, every one that placed it is settled in the end. -/
theorem adds_settled (hb : b.data < 16) {m : Build α} (h : s.Adds (Write.Renews b) (m.run s).2) :
    s.Adds (fun w => w.block = b → Settled w.pos b (m.run s).2.journal) (m.run s).2 := by
  induction m generalizing s with
  | done a => exact .nil rfl
  | act a next ih =>
      obtain ⟨hact, hrest⟩ :=
        h.split ((act a done).adds_some s) ((next (a.perform s).1).adds_some (a.perform s).2)
      have hnow : s.Adds (fun w => w.block = b → Settled w.pos b (a.perform s).2.journal)
          (a.perform s).2 := by
        cases a with
        | draw d => exact .nil rfl
        | look p => exact .nil rfl
        | report n => exact .nil rfl
        | place p c notify =>
            refine s.adds_place p c notify fun hp hc => ?_
            subst hc
            exact s.settled_place_of_lt hp hb
      refine (hnow.mono fun w hw hblock => ?_).trans (ih _ hrest)
      exact settled_of_adds (m := next (a.perform s).1) hb (hrest.mono fun v hv _ => hv) (hw hblock)

/-- What one step of a walk has settled lasts, if all steps renew it. -/
theorem settled_forM (hb : b.data < 16) {l : List ι} {f : ι → Build Unit}
    (hf : ∀ i ∈ l, (f i).Adds (Write.Renews b)) {i : ι} (hi : i ∈ l)
    (hstep : ∀ s : Site, Settled q b ((f i).run s).2.journal) (s : Site) :
    Settled q b ((forM l f).run s).2.journal := by
  induction l generalizing s with
  | nil => cases hi
  | cons j l ih =>
      rw [List.forall_mem_cons] at hf
      rw [List.forM_cons, run_bind]
      rcases List.mem_cons.1 hi with rfl | hi
      · exact settled_of_adds hb ((Adds.forM hf.2 _).mono fun w hw _ => hw) (hstep s)
      · exact ih hf.2 hi _

end Build

end Lasting

end VoxelFeatures
