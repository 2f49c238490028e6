import Phrasebook.Proofs.StoreCalls

/-!
# Stores made by any operations

A store may be made by any operations in any order, also by adding messages with ids that the store
never gave, and by several workers in turns. Its messages ascend by their ids (`Made.ascending`).
Recording and all calls are made of such operations (`Made.record`, `Made.recordAll`, `Made.run`).
-/

namespace Phrasebook

namespace Store

inductive Made : Store → Prop where
  | empty : Made {}
  | intern {s : Store} (h : Made s) (text : String) : Made (s.intern text)
  | assignId {s s' : Store} (h : Made s) {text : String} {context : Option String} {length : Nat}
    {id : String} (ha : s.assignId text context length = some (id, s')) : Made s'
  | add {s : Store} (h : Made s) (m : Message) : Made (s.add m)
  | clear {s : Store} (h : Made s) : Made s.clear

variable {s : Store}

theorem Made.ascending (h : s.Made) : AscendingIds s.messages := by
  induction h with
  | empty | clear => exact .nil
  | intern _ _ ih => exact ih
  | assignId _ ha ih =>
    obtain ⟨ids, -, rfl⟩ := assignId_eq_some.mp ha
    exact ih
  | add _ _ ih => exact ascendingIds_insertMessage ih

theorem Made.record (h : s.Made) (filename : String) (idLength : Nat) (c : Candidate) :
    (record filename idLength c s).2.Made := by
  obtain he | ⟨id, s', ha, he⟩ := record_cases filename idLength c s <;> rw [he]
  · exact h.intern c.text
  · exact ((h.intern c.text).assignId ha).add _

theorem Made.recordAll (h : s.Made) (filename : String) (idLength : Nat) (cs : List Candidate) :
    (recordAll filename idLength cs s).2.Made :=
  recordAll_invariant (fun c _ hs => hs.record filename idLength c) cs h

theorem Made.run (h : s.Made) (call : StoreCall) : (call.run s).Made := by
  cases call with
  | transform source filename o =>
    have hrun := h.recordAll (prepare source filename o).filename o.idLength
      (prepare source filename o).candidates
    rwa [← Prepared.apply_snd _ source o] at hrun
  | apply p source o =>
    have hrun := h.recordAll p.filename o.idLength p.candidates
    rwa [← Prepared.apply_snd p source o] at hrun
  | assignId text context length =>
    simp only [StoreCall.run]
    split
    · exact h.assignId ‹_›
    · exact h
  | intern text => exact h.intern text
  | clear => exact h.clear

end Store

theorem made_runCalls {s : Store} (h : s.Made) (calls : List StoreCall) :
    (runCalls calls s).Made := by
  induction calls generalizing s with
  | nil => exact h
  | cons call calls ih => exact ih (h.run call)

end Phrasebook
