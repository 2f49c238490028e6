import Phrasebook.Dictionary
import Phrasebook.Proofs.Recording
import Mathlib.Data.List.Forall2

/-!
# Runs of calls on one store

A run is a list of calls on a store, in any order, of which any may fail. What one call keeps
(`StoreCall.coherent_run`, `StoreCall.grows_run`) every run keeps. Hence the ids of every store
that can be reached are owned by one text in one context each (`OwnedIds`), and whatever id was put
into an output still leads to its text in the end, as long as the store is not cleared.
-/

namespace Phrasebook

/-! ### Calls -/

inductive StoreCall where
  | transform (source filename : String) (o : Options)
  | apply (p : Prepared) (source : String) (o : Options)
  | assignId (text : String) (context : Option String) (length : Nat)
  | intern (text : String)
  | clear

namespace StoreCall

/-- The store behind a call; one that fails leaves what it did up to there. -/
def run (s : Store) : StoreCall → Store
  | transform source filename o => (Phrasebook.transform source filename o s).2
  | apply p source o => (p.apply source o s).2
  | assignId text context length =>
    match s.assignId text context length with
    | some (_, s') => s'
    | none => s
  | intern text => s.intern text
  | clear => s.clear

/-- The prepared file that a call applies, its source and the options. -/
def applied? : StoreCall → Option (Prepared × String × Options)
  | transform source filename o => some (prepare source filename o, source, o)
  | apply p source o => some (p, source, o)
  | _ => none

theorem run_applied {call : StoreCall} {p : Prepared} {source : String} {o : Options}
    (h : call.applied? = some (p, source, o)) (s : Store) :
    call.run s = (p.apply source o s).2 := by
  cases call with
  | transform source' filename o' =>
    simp only [applied?, Option.some.injEq, Prod.mk.injEq] at h
    obtain ⟨rfl, rfl, rfl⟩ := h
    rfl
  | apply p' source' o' =>
    simp only [applied?, Option.some.injEq, Prod.mk.injEq] at h
    obtain ⟨rfl, rfl, rfl⟩ := h
    rfl
  | assignId | intern | clear => simp [applied?] at h

variable {s : Store}

theorem coherent_run (h : s.Coherent) (call : StoreCall) : (call.run s).Coherent := by
  cases call with
  | transform source filename o => exact (Prepared.apply_coherent _ source o h).1
  | apply p source o => exact (p.apply_coherent source o h).1
  | assignId text context length =>
    simp only [run]
    split
    · exact h.assignId ‹_›
    · exact h
  | intern text => exact h.intern text
  | clear => exact .clear s

theorem grows_run (h : s.Coherent) {call : StoreCall} (hc : call ≠ .clear) :
    s.Grows (call.run s) := by
  cases call with
  | transform source filename o => exact (Prepared.apply_coherent _ source o h).2
  | apply p source o => exact (p.apply_coherent source o h).2
  | assignId text context length =>
    simp only [run]
    split
    · exact h.grows_assignId ‹_›
    · exact .refl s
  | intern text => exact Store.grows_intern s text
  | clear => exact absurd rfl hc

end StoreCall

/-! ### Runs -/

def runCalls (calls : List StoreCall) (s : Store) : Store := calls.foldl StoreCall.run s

theorem runCalls_append (calls later : List StoreCall) (s : Store) :
    runCalls (calls ++ later) s = runCalls later (runCalls calls s) :=
  List.foldl_append

theorem coherent_runCalls {s : Store} (h : s.Coherent) (calls : List StoreCall) :
    (runCalls calls s).Coherent := by
  induction calls generalizing s with
  | nil => exact h
  | cons call calls ih => exact ih (call.coherent_run h)

theorem grows_runCalls {s : Store} (h : s.Coherent) {calls : List StoreCall}
    (hc : .clear ∉ calls) : s.Grows (runCalls calls s) := by
  induction calls generalizing s with
  | nil => exact .refl s
  | cons call calls ih =>
    obtain ⟨hne, hcs⟩ := not_or.mp (List.mem_cons.not.mp hc)
    exact (StoreCall.grows_run h (Ne.symm hne)).trans (ih (call.coherent_run h) hcs)

/-! ### Owners of ids -/

/-- Ids of a store are owned by one text in one context each, and so are its messages. -/
structure Store.OwnedIds (s : Store) : Prop where
  inverse : ∀ id key, s.ids.owner? id = some key ↔ s.ids.id? key = some id
  isMessageId : ∀ id key, s.ids.owner? id = some key → IsMessageId id
  owner : ∀ m ∈ s.messages, ∀ key,
    s.ids.owner? m.id = some key ↔ key = MessageKey.of m.text m.context
  distinct : ∀ key key' id id', s.ids.id? key = some id → s.ids.id? key' = some id' →
    key ≠ key' → id ≠ id'
  nodup : (s.messages.map fun m => MessageKey.of m.text m.context).Nodup

namespace Store.Coherent

variable {s : Store}

/-- No two messages carry the same pair, for they would have its one id. -/
theorem nodup_keys (h : s.Coherent) :
    (s.messages.map fun m => MessageKey.of m.text m.context).Nodup := by
  refine List.pairwise_map.mpr (h.ascending.imp_of_mem fun {m m'} hm hm' hlt heq => ?_)
  have h₁ := (IdTable.owner?_iff_id? h.consistent).mp (h.owned m hm)
  have h₂ := (IdTable.owner?_iff_id? h.consistent).mp (h.owned m' hm')
  rw [heq, h₂, Option.some.injEq] at h₁
  exact hlt.ne h₁.symm

theorem ownedIds (h : s.Coherent) : s.OwnedIds where
  inverse _ _ := IdTable.owner?_iff_id? h.consistent
  isMessageId _ _ ho :=
    IdTable.isMessageId_of_id? h.consistent ((IdTable.owner?_iff_id? h.consistent).mp ho)
  owner m hm key := by
    rw [h.owned m hm, Option.some.injEq, eq_comm]
  distinct key key' id id' hi hi' hne := by
    rintro rfl
    rw [← IdTable.owner?_iff_id? h.consistent] at hi hi'
    exact hne (Option.some.inj (hi.symm.trans hi'))
  nodup := h.nodup_keys

end Store.Coherent

/-- In every store that can be reached ids are owned by one pair each, and until the store is
cleared a pair is given the id it has, whatever length is asked for. -/
theorem ownedIds_runCalls (calls : List StoreCall) :
    (runCalls calls {}).OwnedIds ∧
    ∀ later, .clear ∉ later → ∀ text context id,
      (runCalls calls {}).ids.id? (.of text context) = some id →
      ∀ length, (runCalls (calls ++ later) {}).assignId text context length =
        some (id, runCalls (calls ++ later) {}) := by
  have h := coherent_runCalls Store.coherent_empty calls
  refine ⟨h.ownedIds, fun later hlater text context id hid length => ?_⟩
  have hkept := (grows_runCalls h hlater).ids hid
  rw [runCalls_append]
  exact Store.assignId_eq_some.mpr ⟨_, IdTable.assign_of_id? hkept length, rfl⟩

theorem ownedIds_runCalls_kept :
    (runCalls [.assignId "Hello" none 4, .intern "Bye"] {}).assignId "Hello" (some "") 40 =
      some ("185f", runCalls [.assignId "Hello" none 4, .intern "Bye"] {}) :=
  (ownedIds_runCalls [.assignId "Hello" none 4]).2 [.intern "Bye"] (by simp) "Hello" (some "")
    "185f" (by decide +kernel) 40

/-! ### Dictionaries -/

/-- An object with exactly one member of this name, which is this text. -/
def Json.MapsTo (json : Json) (name text : String) : Prop :=
  ∃ members, json = .object members ∧ members.filter (·.1 == name) = [(name, .text text)]

theorem Store.dictionary_mapsTo {s : Store} (h : AscendingIds s.messages) {id : String}
    {m : Message} (hm : s.get? id = some m) : (s.dictionary none).MapsTo id m.text := by
  refine ⟨_, rfl, ?_⟩
  obtain rfl := id_of_get? hm
  rw [List.filter_map]
  have := IdTable.filter_label_eq (nodup_ids h) (mem_of_get? hm)
  simp only [Function.comp_def, this, List.map_cons, List.map_nil]

end Phrasebook
