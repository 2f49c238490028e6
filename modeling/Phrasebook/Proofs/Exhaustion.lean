import Phrasebook.Proofs.IdTable.Candidates
import Phrasebook.Proofs.Store.Adding

/-!
# Running out of ids

`Store.Recorded` says what recording candidates that all get ids leaves behind: their messages in
turn, entries for pairs that had no id before, and their texts in the pool. A recording that fails
has recorded the candidates in front of the first one without an id, and has only put the text of
that one into the pool (`recordAll_eq_error`). So has an application (`apply_eq_error_iff`), in any
store and whatever its ids are.
-/

namespace Phrasebook

/-! ### What recording leaves behind -/

namespace Store

/-- The store `s'` is `s` with the candidates of a file recorded under the ids `ids`. -/
structure Recorded (s : Store) (filename : String) (cs : List Candidate) (ids : List String)
    (s' : Store) : Prop where
  messages : s'.messages = (s.addAll (List.zipWith (messageOf filename) ids cs)).messages
  /-- Entries are only added, and only for candidates with the ids that they are given. -/
  entries : ∃ added, s'.ids.entries = s.ids.entries ++ added ∧
    added.Sublist (List.zip ids (cs.map Candidate.key))
  given : List.Forall₂ (fun c id => s'.ids.id? c.key = some id) cs ids
  pool : s'.pool = cs.foldl (fun pool c => (pool.intern c.text).2) s.pool

theorem assignId_intern (s : Store) (added text : String) (context : Option String)
    (length : Nat) : (s.intern added).assignId text context length = none ↔
      s.assignId text context length = none := by
  simp [assignId, intern]

end Store

namespace IdTable

/-- A pair without an id is given none if all ids that are tried for it are in the table. -/
theorem assign_eq_none_iff {t : IdTable} {key : MessageKey} (h : t.id? key = none) {length n : Nat}
    (hn : clampIdLength length = n) : t.assign key length = none ↔
      ∀ i < triesLeft n 0, key.candidate n i ∈ t.entries.map (·.1) := by
  have htaken (id : String) : t.isFreeFor key id = false ↔ id ∈ t.entries.map (·.1) := by
    rw [← Bool.not_eq_true, ← isTakenFrom_iff]
    constructor
    · rintro ⟨owner, howner, -⟩
      obtain ⟨e, he, -⟩ := Option.map_eq_some_iff.mp howner
      have hid : e.1 = id := by simpa using List.find?_some he
      exact List.mem_map.mpr ⟨e, List.mem_of_find?_eq_some he, hid⟩
    · intro hmem
      obtain ⟨e, he, rfl⟩ := List.mem_map.mp hmem
      have hsome : (t.entries.find? (·.1 == e.1)).isSome := List.find?_isSome.mpr ⟨e, he, by simp⟩
      obtain ⟨found, hfound⟩ := Option.isSome_iff_exists.mp hsome
      refine ⟨found.2, by rw [owner?, hfound, Option.map_some], ?_⟩
      exact id?_eq_none_iff.mp h found (List.mem_of_find?_eq_some hfound)
  rw [assign_of_new h hn, Option.map_eq_none_iff, firstFree?, List.find?_range'_eq_none]
  simp [htaken]

theorem exists_added {t t' : IdTable} {key : MessageKey} {length : Nat} {id : String}
    (h : t.assign key length = some (id, t')) :
    t'.id? key = some id ∧ ∃ added, t'.entries = t.entries ++ added ∧
      (added = [] ∨ added = [(id, key)]) := by
  unfold assign at h
  cases hk : t.id? key with
  | some known =>
    simp only [hk, Option.some.injEq, Prod.mk.injEq] at h
    obtain ⟨rfl, rfl⟩ := h
    exact ⟨hk, [], (List.append_nil _).symm, .inl rfl⟩
  | none =>
    simp only [hk] at h
    obtain ⟨found, -, heq⟩ := Option.map_eq_some_iff.mp h
    simp only [Prod.mk.injEq] at heq
    obtain ⟨rfl, rfl⟩ := heq
    refine ⟨?_, [(found, key)], rfl, .inr rfl⟩
    have hnone : t.entries.find? (·.2 == key) = none := Option.map_eq_none_iff.mp hk
    simp [id?, List.find?_append, hnone]

end IdTable

section

variable {s s' : Store} {filename : String} {idLength : Nat} {e : ExhaustedIds}

theorem recordAll_recorded {cs : List Candidate} {ids : List String}
    (h : recordAll filename idLength cs s = (.ok ids, s')) : s.Recorded filename cs ids s' := by
  obtain ⟨ids', hmessages, hids⟩ := messages_recordAll filename idLength cs s
  rw [h] at hmessages hids
  obtain rfl := hids ids rfl
  -- the messages are known for the whole list already; the rest is by induction on it
  suffices hrest : (∃ added, s'.ids.entries = s.ids.entries ++ added ∧
      added.Sublist (List.zip ids (cs.map Candidate.key))) ∧
      List.Forall₂ (fun c id => s'.ids.id? c.key = some id) cs ids ∧
      s'.pool = cs.foldl (fun pool c => (pool.intern c.text).2) s.pool from
    ⟨hmessages, hrest.1, hrest.2.1, hrest.2.2⟩
  clear hmessages hids
  induction cs generalizing s ids with
  | nil =>
    obtain ⟨rfl, rfl⟩ := recordAll_nil_eq_ok_iff.mp h
    exact ⟨⟨[], (List.append_nil _).symm, .slnil⟩, .nil, rfl⟩
  | cons c cs ih =>
    obtain ⟨id, _, rest, hfirst, hrest, rfl⟩ := recordAll_cons_eq_ok_iff.mp h
    obtain ⟨s₁, ha, rfl⟩ := record_eq_ok_iff.mp hfirst
    obtain ⟨table, htable, rfl⟩ := Store.assignId_eq_some.mp ha
    obtain ⟨hid, added, hadded, hcases⟩ := IdTable.exists_added htable
    obtain ⟨⟨later, hlater, hsublist⟩, hgiven, hpool⟩ := ih hrest
    refine ⟨⟨added ++ later, ?_, ?_⟩, .cons ?_ hgiven, hpool⟩
    · rw [hlater, ← List.append_assoc]
      exact congrArg (· ++ later) hadded
    · show (added ++ later).Sublist ((id, c.key) :: List.zip rest (cs.map Candidate.key))
      -- the pair had its id before, or it is the entry that is added first
      rcases hcases with rfl | rfl
      · exact hsublist.cons _
      · exact hsublist.cons_cons _
    · have hkept : IdTable.id? ⟨table.entries ++ later⟩ c.key = some id := IdTable.id?_append hid
      rwa [← show s'.ids.entries = table.entries ++ later from hlater] at hkept

/-! ### Where recording stops -/

/-- The candidates in front of the first one without an id have been recorded, and the text of that
one is in the pool. -/
theorem recordAll_eq_error {cs : List Candidate}
    (h : recordAll filename idLength cs s = (.error e, s')) :
    ∃ before c after ids s₁, cs = before ++ c :: after ∧
      recordAll filename idLength before s = (.ok ids, s₁) ∧
      s₁.assignId c.text c.context idLength = none ∧ e = ⟨c.text⟩ ∧ s' = s₁.intern c.text := by
  induction cs generalizing s with
  | nil => cases h
  | cons c cs ih =>
    obtain hfirst | ⟨id, s₁, hfirst, hrest⟩ := recordAll_cons_eq_error_iff.mp h
    · obtain ⟨ha, rfl, rfl⟩ := record_eq_error_iff.mp hfirst
      exact ⟨[], c, cs, [], s, rfl, rfl, (s.assignId_intern _ _ _ _).mp ha, rfl, rfl⟩
    · obtain ⟨before, c', after, ids, s₂, rfl, hbefore, hnone, herror, hstore⟩ := ih hrest
      exact ⟨c :: before, c', after, id :: ids, s₂, rfl,
        recordAll_cons_eq_ok_iff.mpr ⟨id, s₁, ids, hfirst, hbefore, rfl⟩, hnone, herror, hstore⟩

theorem recordAll_of_assignId_eq_none {before : List Candidate} {ids : List String} {c : Candidate}
    (h : recordAll filename idLength before s = (.ok ids, s'))
    (hnone : s'.assignId c.text c.context idLength = none) (after : List Candidate) :
    recordAll filename idLength (before ++ c :: after) s = (.error ⟨c.text⟩, s'.intern c.text) := by
  induction before generalizing s ids with
  | nil =>
    obtain ⟨-, rfl⟩ := recordAll_nil_eq_ok_iff.mp h
    exact recordAll_cons_of_error
      (record_eq_error_iff.mpr ⟨(s.assignId_intern _ _ _ _).mpr hnone, rfl, rfl⟩) after
  | cons first rest ih =>
    obtain ⟨id, s₁, ids', hfirst, hrest, rfl⟩ := recordAll_cons_eq_ok_iff.mp h
    exact recordAll_cons_eq_error_iff.mpr (.inr ⟨id, s₁, hfirst, ih hrest⟩)

end

/-- An application fails exactly if a candidate gets no id, with the text of the first one that does
not. The messages and the ids are then those that recording the candidates in front of it leaves,
and the pool has its text too. -/
theorem apply_eq_error_iff (p : Prepared) (source : String) (o : Options) (s s' : Store)
    (e : ExhaustedIds) : p.apply source o s = (.error e, s') ↔
      ∃ before c after ids s₁, p.candidates = before ++ c :: after ∧
        recordAll p.filename o.idLength before s = (.ok ids, s₁) ∧
        s.Recorded p.filename before ids s₁ ∧
        s₁.assignId c.text c.context o.idLength = none ∧ e = ⟨c.text⟩ ∧
        s'.messages = s₁.messages ∧ s'.ids = s₁.ids ∧ s'.pool = (s₁.pool.intern c.text).2 := by
  rw [p.apply_eq_error_iff_recordAll source o]
  constructor
  · intro h
    obtain ⟨before, c, after, ids, s₁, hsplit, hbefore, hnone, herror, rfl⟩ :=
      recordAll_eq_error h
    exact ⟨before, c, after, ids, s₁, hsplit, hbefore, recordAll_recorded hbefore, hnone, herror,
      rfl, rfl, rfl⟩
  · rintro ⟨before, c, after, ids, s₁, hsplit, hbefore, -, hnone, rfl, hmessages, hids, hpool⟩
    have hs' : s' = s₁.intern c.text := by
      cases s'
      simp_all [Store.intern]
    rw [hsplit, recordAll_of_assignId_eq_none hbefore hnone, hs']

/-- In the middle of a file all ids that are tried for a text are owned by others. -/
theorem apply_eq_error_iff_taken :
    let save : Candidate := ⟨.arrowExpression, "save", "Save", 26, 32, [], none, 1, 13⟩
    let opening : Candidate := ⟨.arrowExpression, "open", "Open", 46, 52, [], none, 1, 34⟩
    let undo : Candidate := ⟨.arrowExpression, "undo", "Undo", 66, 72, [], none, 1, 54⟩
    let p : Prepared := { filename := "menu.ts", candidates := [save, opening, undo] }
    let others := (List.range 17).map fun i =>
      (opening.key.candidate 40 i, (⟨"Close " ++ toString i, none⟩ : MessageKey))
    let s : Store := { ids := ⟨others ++ [("5a7e", save.key)]⟩ }
    ∃ s', p.apply "" { idLength := 40 } s = (.error ⟨"Open"⟩, s') ∧
      s'.messages = [messageOf "menu.ts" "5a7e" save] ∧ s'.ids = s.ids ∧
      s'.pool.texts = ["Save", "Open"] := by
  intro save opening undo p others s
  have hid : s.ids.id? save.key = some "5a7e" := by rfl
  have hassign : (s.intern "Save").assignId "Save" none 40 = some ("5a7e", s.intern "Save") :=
    Store.assignId_eq_some.mpr ⟨s.ids, IdTable.assign_of_id? hid 40, rfl⟩
  have hsave : recordAll "menu.ts" 40 [save] s =
      (.ok ["5a7e"], (s.intern "Save").add (messageOf "menu.ts" "5a7e" save)) := by
    have hcontext : save.context = none := rfl
    simp only [recordAll, record, hcontext, save, hassign]
  have hnew : s.ids.id? opening.key = none := by rfl
  have htaken : s.ids.assign opening.key 40 = none := by
    rw [IdTable.assign_eq_none_iff hnew rfl]
    intro i hi
    have hmem := List.mem_map_of_mem (f := fun i =>
      (opening.key.candidate 40 i, (⟨"Close " ++ toString i, none⟩ : MessageKey)))
      (List.mem_range.mpr hi)
    exact List.mem_map.mpr ⟨_, List.mem_append_left _ hmem, rfl⟩
  let saved := (s.intern "Save").add (messageOf "menu.ts" "5a7e" save)
  have hnone : saved.assignId "Open" none 40 = none := Option.map_eq_none_iff.mpr htaken
  have happly : p.apply "" { idLength := 40 } s = (.error ⟨"Open"⟩, saved.intern "Open") :=
    (apply_eq_error_iff p "" { idLength := 40 } s (saved.intern "Open") ⟨"Open"⟩).mpr
      ⟨[save], opening, [undo], ["5a7e"], saved, rfl, hsave, recordAll_recorded hsave, hnone, rfl,
        rfl, rfl, rfl⟩
  exact ⟨_, happly, rfl, rfl, by decide⟩

end Phrasebook
