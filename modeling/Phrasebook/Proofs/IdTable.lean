import Phrasebook.Message.Id
import Phrasebook.Proofs.Digest
import Mathlib.Data.List.Nodup

/-!
# Tables of ids

`Consistent t`: no id and no pair stands twice in the table, and all ids have the form of ids. Then
looking up the owner of an id and the id of a pair are inverse to each other (`owner?_eq_some_iff`,
`id?_eq_some_iff`). `assign_cases` says all that `assign` can do: give back the id that the pair
has, or add one entry for a pair without an id and an id without an owner. Everything else about
`assign` follows from it.
-/

namespace Phrasebook

/-- The form of ids: 4 to 40 hexadecimal digits in lower case. -/
def IsMessageId (id : String) : Prop :=
  (∀ c ∈ id.toList, Text.isLowerHex c = true) ∧
    minIdLength ≤ id.toList.length ∧ id.toList.length ≤ maxIdLength

theorem isMessageId_truncated (s : String) {length : Nat} (h1 : minIdLength ≤ length)
    (h2 : length ≤ maxIdLength) : IsMessageId (Digest.truncated s length) := by
  have hlen : (Digest.truncated s length).toList.length = length :=
    Digest.truncated_length s (by simp only [maxIdLength] at h2; omega)
  exact ⟨fun _ hc => Digest.isLowerHex_of_mem_truncated hc, by omega, by omega⟩

theorem clampIdLength_bounds (length : Nat) :
    minIdLength ≤ clampIdLength length ∧ clampIdLength length ≤ maxIdLength := by
  simp only [clampIdLength, minIdLength, maxIdLength]
  omega

/-- Without empty contexts a text and its context are known from the pair. -/
theorem MessageKey.of_inj {text text' : String} {context context' : Option String}
    (h : context ≠ some "") (h' : context' ≠ some "") :
    MessageKey.of text context = .of text' context' ↔ text = text' ∧ context = context' := by
  have filter_eq : ∀ c : Option String, c ≠ some "" → c.filter (· ≠ "") = c := by
    intro c hc
    cases c with
    | none => rfl
    | some c => simpa [Option.filter] using fun e => hc (congrArg some e)
  simp only [MessageKey.of, MessageKey.mk.injEq, filter_eq _ h, filter_eq _ h']

namespace IdTable

structure Consistent (t : IdTable) : Prop where
  ids_nodup : (t.entries.map (·.1)).Nodup
  keys_nodup : (t.entries.map (·.2)).Nodup
  isMessageId : ∀ e ∈ t.entries, IsMessageId e.1

theorem consistent_empty : Consistent {} := ⟨.nil, .nil, by simp⟩

/-! ### Looking up -/

/-- In a list in which every label stands once, the first entry with a label is the only one. -/
theorem find?_label_eq {α β : Type} [BEq β] [LawfulBEq β] {f : α → β} {l : List α}
    (h : (l.map f).Nodup) {x : α} (hx : x ∈ l) : l.find? (f · == f x) = some x := by
  induction l with
  | nil => simp at hx
  | cons y ys ih =>
    obtain ⟨hy, hys⟩ := List.nodup_cons.mp h
    rcases List.mem_cons.mp hx with rfl | hx
    · simp
    · have hne : f y ≠ f x := fun e => hy (e ▸ List.mem_map_of_mem hx)
      rw [List.find?_cons_of_neg (by simpa using hne)]
      exact ih hys hx

/-- In a list in which every label stands once, a label picks one entry. -/
theorem filter_label_eq {α β : Type} [BEq β] [LawfulBEq β] {f : α → β} {l : List α}
    (h : (l.map f).Nodup) {x : α} (hx : x ∈ l) : l.filter (f · == f x) = [x] := by
  induction l with
  | nil => simp at hx
  | cons y ys ih =>
    obtain ⟨hy, hys⟩ := List.nodup_cons.mp h
    rcases List.mem_cons.mp hx with rfl | hx
    · rw [List.filter_cons_of_pos (by simp), List.filter_eq_nil_iff.mpr]
      intro z hz hzx
      exact hy (List.mem_map.mpr ⟨z, hz, by simpa using hzx⟩)
    · have hne : f y ≠ f x := fun e => hy (e ▸ List.mem_map_of_mem hx)
      rw [List.filter_cons_of_neg (by simpa using hne)]
      exact ih hys hx

variable {t : IdTable} {id : String} {key : MessageKey}

theorem owner?_eq_some_iff (h : t.Consistent) : t.owner? id = some key ↔ (id, key) ∈ t.entries := by
  constructor
  · intro ho
    obtain ⟨e, he, rfl⟩ := Option.map_eq_some_iff.mp ho
    have hid : e.1 = id := by simpa using List.find?_some he
    have hmem := List.mem_of_find?_eq_some he
    rwa [← hid]
  · intro hm
    have := find?_label_eq (f := Prod.fst) h.ids_nodup hm
    simp [owner?, this]

theorem id?_eq_some_iff (h : t.Consistent) : t.id? key = some id ↔ (id, key) ∈ t.entries := by
  constructor
  · intro hi
    obtain ⟨e, he, rfl⟩ := Option.map_eq_some_iff.mp hi
    have hkey : e.2 = key := by simpa using List.find?_some he
    have hmem := List.mem_of_find?_eq_some he
    rwa [← hkey]
  · intro hm
    have := find?_label_eq (f := Prod.snd) h.keys_nodup hm
    simp [id?, this]

theorem owner?_iff_id? (h : t.Consistent) : t.owner? id = some key ↔ t.id? key = some id :=
  (owner?_eq_some_iff h).trans (id?_eq_some_iff h).symm

theorem isMessageId_of_id? (h : t.Consistent) (hi : t.id? key = some id) : IsMessageId id :=
  h.isMessageId _ ((id?_eq_some_iff h).mp hi)

theorem id?_eq_none_iff : t.id? key = none ↔ ∀ e ∈ t.entries, e.2 ≠ key := by
  simp [id?]

/-- An entry that is added behind a pair's entry does not change its id. -/
theorem id?_append {entries : List (String × MessageKey)} (hi : t.id? key = some id) :
    id? ⟨t.entries ++ entries⟩ key = some id := by
  obtain ⟨e, he, rfl⟩ := Option.map_eq_some_iff.mp hi
  simp [id?, List.find?_append, he]

/-! ### Assigning -/

theorem isFreeFor_iff :
    t.isFreeFor key id = true ↔ ∀ owner, t.owner? id = some owner → owner = key := by
  unfold isFreeFor
  cases t.owner? id <;> simp

/-- An id that the search finds is free, and it has the form of ids if the first one has. -/
theorem search_eq_some {length retries : Nat} {found : String} (hl : minIdLength ≤ length)
    (hid : IsMessageId id) (h : t.search key length retries id = some found) :
    t.isFreeFor key found ∧ IsMessageId found := by
  fun_induction search t key length retries id with
  | case1 length retries id hfree =>
    obtain rfl := Option.some.inj h
    exact ⟨hfree, hid⟩
  | case2 length retries id hfree hlt next ih =>
    have hnext : minIdLength ≤ next ∧ next ≤ maxIdLength := by omega
    exact ih hnext.1 (isMessageId_truncated _ hnext.1 hnext.2) h
  | case3 length retries id hfree hlt hretries ih =>
    exact ih (by decide) (isMessageId_truncated _ (by decide) (Nat.le_refl _)) h
  | case4 => cases h

theorem assign_of_id? (h : t.id? key = some id) (length : Nat) :
    t.assign key length = some (id, t) := by
  simp [assign, h]

/-- All that `assign` can do. -/
theorem assign_cases (h : t.Consistent) {length : Nat} {t' : IdTable}
    (ha : t.assign key length = some (id, t')) :
    (t.id? key = some id ∧ t' = t) ∨
    (t.id? key = none ∧ t.owner? id = none ∧ IsMessageId id ∧ t' = ⟨t.entries ++ [(id, key)]⟩) := by
  unfold assign at ha
  cases hk : t.id? key with
  | some known =>
    simp only [hk, Option.some.injEq, Prod.mk.injEq] at ha
    exact .inl ⟨by rw [ha.1], ha.2.symm⟩
  | none =>
    simp only [hk] at ha
    obtain ⟨found, hs, he⟩ := Option.map_eq_some_iff.mp ha
    simp only [Prod.mk.injEq] at he
    obtain ⟨rfl, rfl⟩ := he
    have hlen := clampIdLength_bounds length
    obtain ⟨hfree, hid⟩ := search_eq_some hlen.1 (isMessageId_truncated _ hlen.1 hlen.2) hs
    refine .inr ⟨rfl, ?_, hid, rfl⟩
    cases ho : t.owner? found with
    | none => rfl
    | some owner =>
      -- a free id with an owner belongs to the pair itself, which has none
      obtain rfl := isFreeFor_iff.mp hfree owner ho
      rw [owner?_iff_id? h, hk] at ho
      simp at ho

theorem assign_consistent (h : t.Consistent) {length : Nat} {t' : IdTable}
    (ha : t.assign key length = some (id, t')) : t'.Consistent := by
  obtain ⟨-, rfl⟩ | ⟨hk, ho, hid, rfl⟩ := assign_cases h ha
  · exact h
  have hkey : ∀ e ∈ t.entries, e.2 ≠ key := id?_eq_none_iff.mp hk
  have hids : ∀ e ∈ t.entries, e.1 ≠ id := by
    simpa [owner?] using ho
  refine ⟨?_, ?_, ?_⟩
  · rw [List.map_append, List.map_singleton, ← List.concat_eq_append]
    refine List.Nodup.concat (fun hmem => ?_) h.ids_nodup
    obtain ⟨e, he, heq⟩ := List.mem_map.mp hmem
    exact hids e he heq
  · rw [List.map_append, List.map_singleton, ← List.concat_eq_append]
    refine List.Nodup.concat (fun hmem => ?_) h.keys_nodup
    obtain ⟨e, he, heq⟩ := List.mem_map.mp hmem
    exact hkey e he heq
  · intro e he
    rcases List.mem_append.mp he with he | he
    · exact h.isMessageId e he
    · rw [List.mem_singleton.mp he]
      exact hid

/-- After `assign` the pair has the id that it was given. -/
theorem id?_assign (h : t.Consistent) {length : Nat} {t' : IdTable}
    (ha : t.assign key length = some (id, t')) : t'.id? key = some id := by
  have h' := assign_consistent h ha
  obtain ⟨hk, rfl⟩ | ⟨-, -, -, rfl⟩ := assign_cases h ha
  · exact hk
  · exact (id?_eq_some_iff h').mpr (by simp)

/-- Pairs keep their ids when another one is given out. -/
theorem id?_assign_of_id? (h : t.Consistent) {length : Nat} {t' : IdTable} {key' : MessageKey}
    {id' : String} (ha : t.assign key' length = some (id', t')) (hi : t.id? key = some id) :
    t'.id? key = some id := by
  obtain ⟨-, rfl⟩ | ⟨-, -, -, rfl⟩ := assign_cases h ha
  · exact hi
  · exact id?_append hi

end IdTable

end Phrasebook
