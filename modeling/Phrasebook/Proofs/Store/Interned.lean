import Phrasebook.Proofs.Exhaustion
import Phrasebook.Proofs.Store.Steps
import Mathlib.Algebra.BigOperators.Group.Finset.Basic
import Mathlib.Data.Finset.Card

/-!
# What the pool of a store holds

`history` lists all that was ever interned while operations run on a store: each text with the
place that it was given, also where recording stopped behind it. One interned text keeps the pool in
step with such a list (`Pool.Holds.intern`), and so does every operation, `clear` among them, since
nothing else touches the pool. So the pool of a store is the set of the texts in its history, and a
place in it stands for one text for good (`pool_runOperations`).
-/

namespace Phrasebook

/-! ### Interned texts -/

namespace Pool

/-- What interning was given, and the place that it gave. -/
structure Interned where
  text : String
  place : Nat
deriving DecidableEq

def interned (p : Pool) (text : String) : Interned := ⟨text, (p.intern text).1⟩

/-- The texts of a pool are those of a list of interned ones, each at its place and nowhere else. -/
structure Holds (p : Pool) (history : List Interned) : Prop where
  nodup : p.texts.Nodup
  mem_iff : ∀ text, text ∈ p.texts ↔ text ∈ history.map (·.text)
  place : ∀ e ∈ history, p.texts[e.place]? = some e.text

theorem holds_empty : Holds {} [] :=
  ⟨.nil, fun _ => Iff.rfl, fun _ he => absurd he List.not_mem_nil⟩

theorem intern_cases (p : Pool) (text : String) :
    (∃ i, p.texts[i]? = some text ∧ p.intern text = (i, p)) ∨
      text ∉ p.texts ∧ p.intern text = (p.texts.length, ⟨p.texts ++ [text]⟩) := by
  unfold intern
  cases h : p.texts.idxOf? text with
  | none => exact .inr ⟨List.idxOf?_eq_none_iff.mp h, rfl⟩
  | some i =>
    obtain ⟨hi, htext, -⟩ := List.idxOf?_eq_some_iff.mp h
    exact .inl ⟨i, by rw [List.getElem?_eq_getElem hi, htext], rfl⟩

variable {p : Pool} {history : List Interned}

/-- A text is interned where it is, or behind all others. -/
theorem Holds.intern (h : p.Holds history) (text : String) :
    (p.intern text).2.Holds (history ++ [p.interned text]) := by
  obtain ⟨i, hi, hintern⟩ | ⟨hnew, hintern⟩ := p.intern_cases text <;> rw [interned, hintern]
  · have hmem : text ∈ history.map (·.text) := (h.mem_iff text).mp (List.mem_of_getElem? hi)
    refine ⟨h.nodup, fun other => ?_, fun e he => ?_⟩
    · rw [h.mem_iff, List.map_append, List.mem_append, List.map_singleton, List.mem_singleton]
      exact ⟨.inl, fun hor => hor.elim id fun heq => heq ▸ hmem⟩
    · rcases List.mem_append.mp he with he | he
      · exact h.place e he
      · obtain rfl := List.mem_singleton.mp he
        exact hi
  · refine ⟨?_, fun other => ?_, fun e he => ?_⟩
    · rw [← List.concat_eq_append]
      exact h.nodup.concat hnew
    · rw [List.map_append, List.mem_append, List.mem_append, h.mem_iff]
      rfl
    · rcases List.mem_append.mp he with he | he
      · have hplace := h.place e he
        rw [List.getElem?_append_left (List.getElem?_eq_some_iff.mp hplace).1]
        exact hplace
      · obtain rfl := List.mem_singleton.mp he
        exact List.getElem?_concat_length

theorem Holds.place_eq_iff (h : p.Holds history) {e e' : Interned} (he : e ∈ history)
    (he' : e' ∈ history) : e.place = e'.place ↔ e.text = e'.text := by
  have hplace := h.place e he
  have hplace' := h.place e' he'
  rw [← List.getElem?_inj (List.getElem?_eq_some_iff.mp hplace).1 h.nodup, hplace, hplace',
    Option.some.injEq]

/-- The numbers of a pool, counted on the set of the texts that were interned. -/
theorem Holds.stats_eq (h : p.Holds history) :
    p.stats.uniqueTexts = (history.map (·.text)).toFinset.card ∧
      p.stats.totalChars = ∑ text ∈ (history.map (·.text)).toFinset, text.toList.length := by
  have hset : (history.map (·.text)).toFinset = p.texts.toFinset := by
    ext text
    rw [List.mem_toFinset, List.mem_toFinset, h.mem_iff]
  refine ⟨(hset ▸ List.toFinset_card_of_nodup h.nodup).symm, ?_⟩
  rw [hset, List.sum_toFinset _ h.nodup, List.sum, List.foldr_map]
  rfl

end Pool

/-! ### Recording -/

/-- What is interned while candidates are recorded, up to the first one for which no id is left and
with the text of that one. -/
def internedAll (filename : String) (idLength : Nat) : List Candidate → Store → List Pool.Interned
  | [], _ => []
  | c :: cs, s =>
    s.pool.interned c.text ::
      match record filename idLength c s with
      | (.error _, _) => []
      | (.ok _, s) => internedAll filename idLength cs s

section Recording

variable {filename : String} {idLength : Nat} {s s' : Store} {history : List Pool.Interned}

theorem pool_record (filename : String) (idLength : Nat) (c : Candidate) (s : Store) :
    (record filename idLength c s).2.pool = (s.pool.intern c.text).2 := by
  obtain he | ⟨id, s', ha, he⟩ := record_cases filename idLength c s <;> rw [he]
  · rfl
  · obtain ⟨ids, -, rfl⟩ := Store.assignId_eq_some.mp ha
    rfl

theorem holds_recordAll {cs : List Candidate} (h : s.pool.Holds history) :
    (recordAll filename idLength cs s).2.pool.Holds
      (history ++ internedAll filename idLength cs s) := by
  induction cs generalizing s history with
  | nil =>
    rw [internedAll, List.append_nil]
    exact h
  | cons c cs ih =>
    have hfirst := h.intern c.text
    rw [← pool_record filename idLength c s] at hfirst
    rw [internedAll]
    rcases hr : record filename idLength c s with ⟨e | id, s₁⟩ <;> rw [hr] at hfirst
    · rw [recordAll_cons_of_error hr]
      exact hfirst
    · have hrest := ih hfirst
      rw [List.append_assoc, List.singleton_append] at hrest
      rw [recordAll_cons_of_ok hr]
      exact hrest

theorem texts_internedAll_of_ok {cs : List Candidate} {ids : List String}
    (h : recordAll filename idLength cs s = (.ok ids, s')) :
    (internedAll filename idLength cs s).map (·.text) = cs.map (·.text) := by
  induction cs generalizing s s' ids with
  | nil => rfl
  | cons c cs ih =>
    obtain ⟨id, s₁, rest, hfirst, hrest, rfl⟩ := recordAll_cons_eq_ok_iff.mp h
    rw [internedAll, hfirst, List.map_cons, List.map_cons, ih hrest]
    rfl

theorem internedAll_append {cs more : List Candidate} {ids : List String}
    (h : recordAll filename idLength cs s = (.ok ids, s')) :
    internedAll filename idLength (cs ++ more) s =
      internedAll filename idLength cs s ++ internedAll filename idLength more s' := by
  induction cs generalizing s ids with
  | nil =>
    obtain ⟨-, rfl⟩ := recordAll_nil_eq_ok_iff.mp h
    rfl
  | cons c cs ih =>
    obtain ⟨id, s₁, rest, hfirst, hrest, rfl⟩ := recordAll_cons_eq_ok_iff.mp h
    rw [List.cons_append, internedAll, internedAll, hfirst]
    simp only [ih hrest, List.cons_append]

/-- The text for which no id is left is interned as well, and none behind it. -/
theorem texts_internedAll_of_error {cs : List Candidate} {e : ExhaustedIds}
    (h : recordAll filename idLength cs s = (.error e, s')) :
    ∃ before c after, cs = before ++ c :: after ∧ e = ⟨c.text⟩ ∧
      (internedAll filename idLength cs s).map (·.text) = (before ++ [c]).map (·.text) := by
  obtain ⟨before, c, after, ids, s₁, rfl, hbefore, hnone, rfl, -⟩ := recordAll_eq_error h
  refine ⟨before, c, after, rfl, rfl, ?_⟩
  have hstop : record filename idLength c s₁ = (.error ⟨c.text⟩, s₁.intern c.text) := by
    simp only [record, (s₁.assignId_intern _ _ _ _).mpr hnone]
  rw [internedAll_append hbefore, List.map_append, texts_internedAll_of_ok hbefore, internedAll,
    hstop, List.map_append]
  rfl

end Recording

/-! ### Operations -/

/-- What a call interns, in this order. -/
def StoreCall.interned (s : Store) : StoreCall → List Pool.Interned
  | transform source filename o =>
    internedAll filename o.idLength (prepare source filename o).candidates s
  | apply p _ o => internedAll p.filename o.idLength p.candidates s
  | intern text => [s.pool.interned text]
  | assignId .. | clear => []

/-- Calls on a store, and messages that are added from outside under any ids. -/
inductive StoreOperation where
  | call (call : StoreCall)
  | add (m : Message)

namespace StoreOperation

def run (s : Store) : StoreOperation → Store
  | call c => c.run s
  | add m => s.add m

def interned (s : Store) : StoreOperation → List Pool.Interned
  | call c => c.interned s
  | add _ => []

end StoreOperation

def runOperations (ops : List StoreOperation) (s : Store) : Store :=
  ops.foldl StoreOperation.run s

/-- All that operations intern, one after the other. -/
def history : List StoreOperation → Store → List Pool.Interned
  | [], _ => []
  | op :: ops, s => op.interned s ++ history ops (op.run s)

section Operations

variable {s : Store} {earlier : List Pool.Interned}

theorem StoreCall.interned_of_applied {call : StoreCall} {p : Prepared} {source : String}
    {o : Options} (h : call.applied? = some (p, source, o)) (s : Store) :
    call.interned s = internedAll p.filename o.idLength p.candidates s := by
  cases call with
  | transform source' filename o' =>
    simp only [applied?, Option.some.injEq, Prod.mk.injEq] at h
    obtain ⟨rfl, rfl, rfl⟩ := h
    rw [prepare_filename]
    rfl
  | apply p' source' o' =>
    simp only [applied?, Option.some.injEq, Prod.mk.injEq] at h
    obtain ⟨rfl, rfl, rfl⟩ := h
    rfl
  | assignId | intern | clear => simp [applied?] at h

theorem StoreCall.holds_run (h : s.pool.Holds earlier) (call : StoreCall) :
    (call.run s).pool.Holds (earlier ++ call.interned s) := by
  cases happlied : call.applied? with
  | some applied =>
    obtain ⟨p, source, o⟩ := applied
    rw [run_applied happlied, interned_of_applied happlied, Prepared.apply_snd]
    exact holds_recordAll h
  | none =>
    cases call with
    | transform | apply => cases happlied
    | intern text => exact h.intern text
    | clear =>
      rw [interned, List.append_nil]
      exact h
    | assignId text context length =>
      -- giving an id changes the table and not the pool
      have hpool : ((assignId text context length).run s).pool = s.pool := by
        simp only [run]
        split
        · rename_i hassign
          obtain ⟨ids, -, rfl⟩ := Store.assignId_eq_some.mp hassign
          rfl
        · rfl
      rw [interned, List.append_nil, hpool]
      exact h

theorem StoreOperation.holds_run (h : s.pool.Holds earlier) (op : StoreOperation) :
    (op.run s).pool.Holds (earlier ++ op.interned s) := by
  cases op with
  | call c => exact c.holds_run h
  | add m =>
    rw [interned, List.append_nil]
    exact h

theorem holds_runOperations (h : s.pool.Holds earlier) (ops : List StoreOperation) :
    (runOperations ops s).pool.Holds (earlier ++ history ops s) := by
  induction ops generalizing s earlier with
  | nil =>
    rw [history, List.append_nil]
    exact h
  | cons op ops ih =>
    have hrest := ih (op.holds_run h)
    rwa [List.append_assoc] at hrest

/-- The texts of a call that applies a file: all of them if it succeeds, and else those up to the
first one without an id. -/
theorem StoreCall.texts_interned {call : StoreCall} {p : Prepared} {source : String} {o : Options}
    (h : call.applied? = some (p, source, o)) (s : Store) :
    (∀ out, (p.apply source o s).1 = .ok out →
      (call.interned s).map (·.text) = p.candidates.map (·.text)) ∧
    ∀ e, (p.apply source o s).1 = .error e → ∃ before c after,
      p.candidates = before ++ c :: after ∧ e = ⟨c.text⟩ ∧
      (call.interned s).map (·.text) = (before ++ [c]).map (·.text) := by
  rw [interned_of_applied h]
  by_cases hnil : p.candidates = []
  · rw [p.apply_of_nil source o hnil, hnil]
    refine ⟨fun _ _ => rfl, fun e he => ?_⟩
    cases he
  refine ⟨fun out hok => ?_, fun e he => ?_⟩
  · obtain ⟨ids, hrecord, -⟩ := Prepared.exists_recordAll_of_apply hnil hok
    exact texts_internedAll_of_ok hrecord
  · exact texts_internedAll_of_error
      ((p.apply_eq_error_iff_recordAll source o).mp (Prod.ext he rfl))

end Operations

/-- In every store that can be made the pool is the set of all texts ever interned, whether by a
call of its own or for a file, also for one that failed, and also before the store was cleared: each
is there once, the numbers are those of this set, and what was interned twice has one place exactly
if it was one text. -/
theorem pool_runOperations (ops : List StoreOperation) :
    let s := runOperations ops {}
    let entries := history ops {}
    let texts := (entries.map (·.text)).toFinset
    s.pool.texts.Nodup ∧ (∀ text, text ∈ s.pool.texts ↔ text ∈ texts) ∧
    s.clear.pool = s.pool ∧
    s.pool.stats.uniqueTexts = texts.card ∧
    s.pool.stats.totalChars = ∑ text ∈ texts, text.toList.length ∧
    (∀ e ∈ entries, s.pool.texts[e.place]? = some e.text) ∧
    (∀ e ∈ entries, ∀ e' ∈ entries, e.place = e'.place ↔ e.text = e'.text) ∧
    ∀ (call : StoreCall) p source o, call.applied? = some (p, source, o) → ∀ s : Store,
      (∀ out, (p.apply source o s).1 = .ok out →
        (call.interned s).map (·.text) = p.candidates.map (·.text)) ∧
      ∀ e, (p.apply source o s).1 = .error e → ∃ before c after,
        p.candidates = before ++ c :: after ∧ e = ⟨c.text⟩ ∧
        (call.interned s).map (·.text) = (before ++ [c]).map (·.text) := by
  intro s entries texts
  have h : s.pool.Holds ([] ++ entries) := holds_runOperations Pool.holds_empty ops
  rw [List.nil_append] at h
  refine ⟨h.nodup, fun text => ?_, rfl, h.stats_eq.1, h.stats_eq.2, h.place,
    fun _ he _ he' => h.place_eq_iff he he', fun _ _ _ _ => StoreCall.texts_interned⟩
  rw [h.mem_iff, List.mem_toFinset]

/-- A text is found at its place again behind `clear`. -/
example : history [.call (.intern "Save"), .call (.intern "Undo"), .call .clear,
    .call (.intern "Save")] {} = [⟨"Save", 0⟩, ⟨"Undo", 1⟩, ⟨"Save", 0⟩] := by decide

end Phrasebook
