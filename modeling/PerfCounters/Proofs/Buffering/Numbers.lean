import PerfCounters.Proofs.Buffering.Session

/-! The numbers of the buffers: they are given out upwards and never again, and only allocating and
    forgetting change which are known. -/

namespace PerfCounters

namespace Service

variable {α : Type} {s : Service α}

/-- The numbers are given out upwards. -/
structure Numbered (s : Service α) : Prop where
  ascending : s.ids.Pairwise (· < ·)
  below : ∀ id ∈ s.ids, id < s.nextId

theorem Numbered.nodup (h : s.Numbered) : s.ids.Nodup := h.ascending.imp Nat.ne_of_lt

@[simp] theorem ids_setBuffer (s : Service α) (b : Buffer α) : (s.setBuffer b).ids = s.ids := by
  simp only [ids, setBuffer, List.map_map]
  apply List.map_congr_left
  intro entry _
  simp only [Function.comp_apply]
  split <;> rfl

@[simp] theorem nextId_setBuffer (s : Service α) (b : Buffer α) : (s.setBuffer b).nextId = s.nextId := rfl

/-- The same numbers are given out, and the next one is the same. -/
def SameNumbers (s s' : Service α) : Prop := s'.ids = s.ids ∧ s'.nextId = s.nextId

theorem SameNumbers.refl (s : Service α) : SameNumbers s s := ⟨rfl, rfl⟩

theorem SameNumbers.trans {s s' t : Service α} (h : SameNumbers s s') (h' : SameNumbers s' t) : SameNumbers s t :=
  ⟨h'.1.trans h.1, h'.2.trans h.2⟩

theorem Numbered.same {s' : Service α} (h : s.Numbered) (hsame : SameNumbers s s') : s'.Numbered :=
  ⟨by rw [hsame.1]; exact h.ascending, by rw [hsame.1, hsame.2]; exact h.below⟩

/-! ### Every step keeps the numbers in order -/

theorem Numbered.allocate (h : s.Numbered) : s.allocate.1.Numbered := by
  have hids : s.allocate.1.ids = s.ids ++ [s.nextId] := by simp [Service.allocate, ids]
  refine ⟨?_, fun id hid => ?_⟩
  · rw [hids, List.pairwise_append]
    refine ⟨h.ascending, List.pairwise_singleton _ _, fun id hid fresh hfresh => ?_⟩
    rw [List.mem_singleton] at hfresh
    rw [hfresh]
    exact h.below id hid
  · rw [hids, List.mem_append, List.mem_singleton] at hid
    show id < s.nextId + 1
    rcases hid with hid | rfl
    · exact Nat.lt_succ_of_lt (h.below id hid)
    · exact Nat.lt_succ_self _

theorem Numbered.unregister (h : s.Numbered) (gone : BufferId) : (s.unregister gone).Numbered := by
  have hsub : (s.unregister gone).ids.Sublist s.ids := List.filter_sublist.map Prod.fst
  exact ⟨h.ascending.sublist hsub, fun id hid => h.below id (hsub.subset hid)⟩

theorem sameNumbers_configure (s : Service α) (id : BufferId) (settings : Settings) :
    SameNumbers s (s.configure id settings).1 := by
  unfold configure
  split
  · exact SameNumbers.refl s
  · split
    · exact SameNumbers.refl s
    · exact SameNumbers.refl s
    · exact ⟨ids_setBuffer _ _, rfl⟩

theorem sameNumbers_start (s : Service α) (b : Buffer α) : SameNumbers s (s.start b) := ⟨ids_setBuffer _ _, rfl⟩

theorem sameNumbers_kick (s : Service α) (b : Buffer α) : SameNumbers s (s.flushBuffer b false).1 := by
  simp only [flushBuffer, Bool.false_eq_true, if_false]
  split
  · exact SameNumbers.refl s
  · exact sameNumbers_start s b

theorem sameNumbers_flush (s : Service α) (id : BufferId) : SameNumbers s (s.flush id false).1 := by
  unfold flush
  split
  · exact SameNumbers.refl s
  · exact sameNumbers_kick s _

theorem sameNumbers_checkWatermark (s : Service α) (b : Buffer α) : SameNumbers s (s.checkWatermark b) := by
  unfold checkWatermark
  split
  · exact sameNumbers_kick s b
  · exact SameNumbers.refl s

theorem sameNumbers_enter (s : Service α) (id : BufferId) : SameNumbers s (s.enter id) := by
  unfold enter
  split
  · exact SameNumbers.refl s
  · exact ⟨ids_setBuffer _ _, rfl⟩

theorem sameNumbers_leave (s : Service α) (b : Buffer α) (batch : Batch α) : SameNumbers s (s.leave b batch).1 := by
  have hanswer : SameNumbers s (s.answer batch).1 := by
    unfold answer
    split <;> exact ⟨rfl, rfl⟩
  exact hanswer.trans ⟨ids_setBuffer _ _, rfl⟩

theorem sameNumbers_finish (s : Service α) (id : BufferId) : SameNumbers s (s.finish id).1 := by
  have henter := sameNumbers_enter s id
  unfold finish
  simp only
  split
  · exact henter
  · split
    · exact henter
    · exact henter.trans (sameNumbers_leave _ _ _)

theorem Numbered.receive (h : s.Numbered) (call : Call α) : (s.receive call).1.Numbered := by
  cases call with
  | allocate => exact h.allocate
  | configure id settings => exact h.same (sameNumbers_configure s id settings)
  | emplace id r =>
    simp only [Service.receive]
    split
    · exact h
    · split <;> exact h
  | flush id wait =>
    cases wait with
    | false => exact h.same (sameNumbers_flush s id)
    | true =>
      simp only [Service.receive, if_true]
      split <;> exact h
  | flushAll order wait => cases wait <;> exact h
  | destroy id =>
    simp only [Service.receive]
    split <;> exact h

theorem Numbered.next (h : s.Numbered) (p : Pending α) : (p.next s).1.Numbered := by
  unfold Pending.next
  split
  · exact h
  · rename_i id r _
    rcases p.store_cases s id r with ⟨e, -, heq⟩ | ⟨b, -, ⟨-, heq⟩ | ⟨-, -, heq⟩ | ⟨-, -, heq⟩⟩
    · rwa [heq]
    · rw [heq]
      exact h.same ⟨ids_setBuffer _ _, rfl⟩
    · rw [heq]
      exact h.same ⟨ids_setBuffer _ _, rfl⟩
    · rwa [heq]
  · unfold Pending.forget
    apply Numbered.unregister
    exact h.same ⟨rfl, rfl⟩
  · split
    · exact h
    · exact h.same (sameNumbers_checkWatermark s _)
  · exact h
  · split
    · exact h
    · exact h.same (sameNumbers_kick s _)
  · split
    · exact h
    · split
      · exact h
      · exact h.same (sameNumbers_start s _)
  · split
    · exact h
    · split <;> exact h

end Service

open Service

namespace Session

variable {α : Type} {s : Session α}

theorem numbered_step (h : s.service.Numbered) (e : Event α) : (s.step e).service.Numbered := by
  cases e with
  | begin call =>
    simp only [step, Session.begin]
    split
    · exact h
    · exact h.receive call
  | advance =>
    simp only [step, advance]
    split
    · exact h
    · split
      · exact h
      · exact h.next _
  | enter id => exact h.same (sameNumbers_enter s.service id)
  | finish id => exact h.same (sameNumbers_finish s.service id)

theorem numbered_run (h : s.service.Numbered) (events : List (Event α)) : (s.run events).service.Numbered :=
  run_keeps (P := fun s => s.service.Numbered) numbered_step h events

theorem numbered_ofReplies (replies : List Reply) : (ofReplies replies : Session α).service.Numbered :=
  ⟨List.Pairwise.nil, fun _ h => by cases h⟩

end Session

end PerfCounters
