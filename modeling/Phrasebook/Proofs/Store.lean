import Phrasebook.Proofs.IdTable
import Phrasebook.Proofs.Sorted
import Phrasebook.Store

/-!
# Stores

`get?_add` says what adding a message does to every look-up. `Coherent s` ties the messages of a
store to its ids: the table is consistent, ids of messages ascend, and the owner of the id of a
message is its own text in its own context. `Grows s s'` says that whatever `s` knows is still
known in `s'`: ids of pairs, and the text, context and locations behind each id. All operations
but `clear` keep the first and do the second.
-/

namespace Phrasebook

/-! ### Messages by their ids -/

def AscendingIds (ms : List Message) : Prop := ms.Pairwise (·.id < ·.id)

/-- The message with the id of `m` after `m` was added, when `old?` had it before. -/
def Message.absorb (m : Message) (old? : Option Message) : Message :=
  match old? with
  | some old => old.merge m
  | none => m

@[simp] theorem Message.id_merge (a b : Message) : (a.merge b).id = a.id := rfl

@[simp] theorem Message.text_merge (a b : Message) : (a.merge b).text = a.text := rfl

@[simp] theorem Message.context_merge (a b : Message) : (a.merge b).context = a.context := rfl

theorem Message.mem_locations_merge {a b : Message} {l : Location} :
    l ∈ (a.merge b).locations ↔ l ∈ a.locations ∨ l ∈ b.locations :=
  Sorted.mem_union Sorted.trichotomous_locationLt

section

variable {m y : Message}

theorem insertMessage_cons_of_eq (h : m.id = y.id) (ys : List Message) :
    insertMessage m (y :: ys) = y.merge m :: ys := by
  rw [insertMessage, if_pos h]

theorem insertMessage_cons_of_lt (h : m.id < y.id) (ys : List Message) :
    insertMessage m (y :: ys) = m :: y :: ys := by
  rw [insertMessage, if_neg h.ne, if_pos h]

theorem insertMessage_cons_of_gt (h : y.id < m.id) (ys : List Message) :
    insertMessage m (y :: ys) = y :: insertMessage m ys := by
  rw [insertMessage, if_neg h.ne', if_neg h.not_gt]

end

/-- A message behind an addition is an old one, the new one, or an old one that absorbed it. -/
theorem mem_insertMessage {m x : Message} {ms : List Message} (h : x ∈ insertMessage m ms) :
    x ∈ ms ∨ x = m ∨ ∃ y ∈ ms, y.id = m.id ∧ x = y.merge m := by
  induction ms with
  | nil => exact .inr (.inl (List.mem_singleton.mp h))
  | cons y ys ih =>
    rcases lt_trichotomy m.id y.id with hlt | heq | hgt
    · rw [insertMessage_cons_of_lt hlt] at h
      rcases List.mem_cons.mp h with rfl | h
      · exact .inr (.inl rfl)
      · exact .inl h
    · rw [insertMessage_cons_of_eq heq] at h
      rcases List.mem_cons.mp h with rfl | h
      · exact .inr (.inr ⟨y, by simp, heq.symm, rfl⟩)
      · exact .inl (List.mem_cons_of_mem y h)
    · rw [insertMessage_cons_of_gt hgt] at h
      rcases List.mem_cons.mp h with rfl | h
      · exact .inl (by simp)
      rcases ih h with h | rfl | ⟨z, hz, h⟩
      · exact .inl (List.mem_cons_of_mem y h)
      · exact .inr (.inl rfl)
      · exact .inr (.inr ⟨z, List.mem_cons_of_mem y hz, h⟩)

theorem ascendingIds_insertMessage {m : Message} {ms : List Message} (h : AscendingIds ms) :
    AscendingIds (insertMessage m ms) := by
  induction ms with
  | nil => exact List.pairwise_singleton _ _
  | cons y ys ih =>
    obtain ⟨hy, hys⟩ := List.pairwise_cons.mp h
    rcases lt_trichotomy m.id y.id with hlt | heq | hgt
    · rw [insertMessage_cons_of_lt hlt]
      refine List.pairwise_cons.mpr ⟨fun x hx => ?_, h⟩
      rcases List.mem_cons.mp hx with rfl | hx
      · exact hlt
      · exact lt_trans hlt (hy x hx)
    · rw [insertMessage_cons_of_eq heq]
      exact List.pairwise_cons.mpr ⟨hy, hys⟩
    · rw [insertMessage_cons_of_gt hgt]
      refine List.pairwise_cons.mpr ⟨fun x hx => ?_, ih hys⟩
      rcases mem_insertMessage hx with hx | rfl | ⟨z, hz, -, rfl⟩
      · exact hy x hx
      · exact hgt
      · exact hy z hz

/-- In an ascending list an id in front of the first one is not there. -/
theorem find?_id_eq_none {ms : List Message} {id : String} (h : ∀ x ∈ ms, id < x.id) :
    ms.find? (·.id == id) = none := by
  rw [List.find?_eq_none]
  intro x hx
  simpa using (h x hx).ne'

theorem find?_insertMessage {m : Message} {ms : List Message} (h : AscendingIds ms) (id : String) :
    (insertMessage m ms).find? (·.id == id) =
      if id = m.id then some (m.absorb (ms.find? (·.id == id))) else ms.find? (·.id == id) := by
  induction ms with
  | nil =>
    by_cases hid : id = m.id
    · simp [insertMessage, Message.absorb, hid]
    · simp [insertMessage, hid, Ne.symm hid]
  | cons y ys ih =>
    obtain ⟨hy, hys⟩ := List.pairwise_cons.mp h
    rcases lt_trichotomy m.id y.id with hlt | heq | hgt
    · rw [insertMessage_cons_of_lt hlt]
      by_cases hid : id = m.id
      · have hnone : (y :: ys).find? (·.id == id) = none := by
          refine find?_id_eq_none fun x hx => ?_
          rcases List.mem_cons.mp hx with rfl | hx
          · exact hid ▸ hlt
          · exact hid ▸ lt_trans hlt (hy x hx)
        rw [if_pos hid, hnone]
        simp [hid, Message.absorb]
      · rw [if_neg hid, List.find?_cons_of_neg (by simpa using Ne.symm hid)]
    · rw [insertMessage_cons_of_eq heq]
      by_cases hid : id = m.id
      · simp [hid, heq, Message.absorb]
      · have hne : ¬ y.id = id := fun e => hid (e.symm.trans heq.symm)
        simp [hid, hne]
    · rw [insertMessage_cons_of_gt hgt]
      by_cases hyid : y.id = id
      · have hid : ¬ id = m.id := fun e => hgt.ne (hyid.trans e)
        simp [hid, hyid]
      · rw [List.find?_cons_of_neg (by simpa using hyid),
          List.find?_cons_of_neg (by simpa using hyid)]
        exact ih hys

namespace Store

theorem get?_add {s : Store} (h : AscendingIds s.messages) (m : Message) (id : String) :
    (s.add m).get? id = if id = m.id then some (m.absorb (s.get? id)) else s.get? id :=
  find?_insertMessage h id

theorem id_of_get? {s : Store} {id : String} {m : Message} (h : s.get? id = some m) :
    m.id = id := by
  simpa using List.find?_some h

theorem mem_of_get? {s : Store} {id : String} {m : Message} (h : s.get? id = some m) :
    m ∈ s.messages :=
  List.mem_of_find?_eq_some h

theorem nodup_ids {s : Store} (h : AscendingIds s.messages) : (s.messages.map (·.id)).Nodup :=
  List.pairwise_map.mpr (h.imp fun hlt => hlt.ne)

/-! ### Coherence -/

structure Coherent (s : Store) : Prop where
  consistent : s.ids.Consistent
  ascending : AscendingIds s.messages
  owned : ∀ m ∈ s.messages, s.ids.owner? m.id = some (.of m.text m.context)
  context_ne : ∀ m ∈ s.messages, m.context ≠ some ""

theorem coherent_empty : Coherent {} :=
  ⟨IdTable.consistent_empty, .nil, by simp, by simp⟩

variable {s : Store}

theorem Coherent.intern (h : s.Coherent) (text : String) : (s.intern text).Coherent :=
  ⟨h.consistent, h.ascending, h.owned, h.context_ne⟩

theorem Coherent.clear (s : Store) : s.clear.Coherent :=
  ⟨IdTable.consistent_empty, .nil, by simp [Store.clear], by simp [Store.clear]⟩

/-- All that `assignId` changes is the table of ids. -/
theorem assignId_eq_some {text : String} {context : Option String} {length : Nat} {id : String}
    {s' : Store} : s.assignId text context length = some (id, s') ↔
      ∃ ids, s.ids.assign (.of text context) length = some (id, ids) ∧ s' = { s with ids } := by
  constructor
  · intro h
    obtain ⟨⟨id', ids⟩, ha, he⟩ := Option.map_eq_some_iff.mp h
    simp only [Prod.mk.injEq] at he
    obtain ⟨rfl, rfl⟩ := he
    exact ⟨ids, ha, rfl⟩
  · rintro ⟨ids, ha, rfl⟩
    simp [assignId, ha]

theorem Coherent.assignId (h : s.Coherent) {text : String} {context : Option String} {length : Nat}
    {id : String} {s' : Store} (ha : s.assignId text context length = some (id, s')) :
    s'.Coherent := by
  obtain ⟨ids, hids, rfl⟩ := assignId_eq_some.mp ha
  have hc := IdTable.assign_consistent h.consistent hids
  refine ⟨hc, h.ascending, fun m hm => ?_, h.context_ne⟩
  have hid := (IdTable.owner?_iff_id? h.consistent).mp (h.owned m hm)
  exact (IdTable.owner?_iff_id? hc).mpr (IdTable.id?_assign_of_id? h.consistent hids hid)

theorem Coherent.add (h : s.Coherent) {m : Message}
    (hown : s.ids.owner? m.id = some (.of m.text m.context)) (hm : m.context ≠ some "") :
    (s.add m).Coherent := by
  refine ⟨h.consistent, ascendingIds_insertMessage h.ascending, fun x hx => ?_, fun x hx => ?_⟩
  · rcases mem_insertMessage hx with hx | rfl | ⟨y, hy, -, rfl⟩
    · exact h.owned x hx
    · exact hown
    · exact h.owned y hy
  · rcases mem_insertMessage hx with hx | rfl | ⟨y, hy, -, rfl⟩
    · exact h.context_ne x hx
    · exact hm
    · exact h.context_ne y hy

/-! ### Growth -/

structure Grows (s s' : Store) : Prop where
  ids : ∀ {key id}, s.ids.id? key = some id → s'.ids.id? key = some id
  messages : ∀ {id m}, s.get? id = some m → ∃ m', s'.get? id = some m' ∧
    m'.text = m.text ∧ m'.context = m.context ∧ ∀ l ∈ m.locations, l ∈ m'.locations

theorem Grows.refl (s : Store) : s.Grows s :=
  ⟨id, fun {_ m} h => ⟨m, h, rfl, rfl, fun _ hl => hl⟩⟩

theorem Grows.trans {s s' s'' : Store} (h : s.Grows s') (h' : s'.Grows s'') : s.Grows s'' := by
  refine ⟨fun hi => h'.ids (h.ids hi), fun {id m} hm => ?_⟩
  obtain ⟨m', hm', ht, hc, hl⟩ := h.messages hm
  obtain ⟨m'', hm'', ht', hc', hl'⟩ := h'.messages hm'
  exact ⟨m'', hm'', ht'.trans ht, hc'.trans hc, fun l hlm => hl' l (hl l hlm)⟩

theorem grows_intern (s : Store) (text : String) : s.Grows (s.intern text) :=
  ⟨id, fun {_ m} h => ⟨m, h, rfl, rfl, fun _ hl => hl⟩⟩

theorem Coherent.grows_assignId (h : s.Coherent) {text : String} {context : Option String}
    {length : Nat} {id : String} {s' : Store}
    (ha : s.assignId text context length = some (id, s')) : s.Grows s' := by
  obtain ⟨ids, hids, rfl⟩ := assignId_eq_some.mp ha
  exact ⟨IdTable.id?_assign_of_id? h.consistent hids,
    fun {_ m} hm => ⟨m, hm, rfl, rfl, fun _ hl => hl⟩⟩

theorem Coherent.grows_add (h : s.Coherent) (m : Message) : s.Grows (s.add m) := by
  refine ⟨id, fun {id old} hold => ?_⟩
  rw [get?_add h.ascending, hold]
  by_cases hid : id = m.id
  · rw [if_pos hid]
    exact ⟨old.merge m, rfl, rfl, rfl, fun l hl => Message.mem_locations_merge.mpr (.inl hl)⟩
  · rw [if_neg hid]
    exact ⟨old, rfl, rfl, rfl, fun _ hl => hl⟩

end Store

end Phrasebook
