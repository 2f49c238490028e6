import Phrasebook.Proofs.Preparing
import Phrasebook.Proofs.Store
import Mathlib.Data.List.Forall2

/-!
# Recording message functions

`record_cases` says all that recording one candidate can do. From it, recording keeps a store
coherent and forgets nothing (`record_coherent`), and behind it the store has a message with the
text, context and location of the candidate under the id that it gave (`record_recordedAs`).
`recordAll_cons_eq_ok_iff` and `recordAll_cons_eq_error_iff` say how recording goes on behind its
first candidate; what it keeps is kept by `recordAll` (`recordAll_invariant`), and by `apply`, which
changes the store as `recordAll` does.
-/

namespace Phrasebook

/-! ### Contexts -/

theorem DocComment.context_ne_empty (doc : DocComment) : doc.context ≠ some "" := by
  intro h
  have := Option.filter_eq_some_iff.mp h
  simp at this

theorem Candidate.context_ne_empty (c : Candidate) : c.context ≠ some "" := by
  unfold Candidate.context
  cases c.doc with
  | none => simp
  | some doc => exact doc.context_ne_empty

/-! ### What stands under an id -/

/-- Under the id there is a message with this text and context that names this location. -/
def Store.Records (s : Store) (id text : String) (context : Option String) (l : Location) : Prop :=
  ∃ m, s.get? id = some m ∧ m.text = text ∧ m.context = context ∧ l ∈ m.locations

/-- The candidate of a file is recorded under the id. -/
def Candidate.RecordedAs (c : Candidate) (id filename : String) (s : Store) : Prop :=
  s.Records id c.text c.context ⟨filename, c.line, c.col⟩

theorem Store.Grows.records {s s' : Store} (h : s.Grows s') {id text : String}
    {context : Option String} {l : Location} (hr : s.Records id text context l) :
    s'.Records id text context l := by
  obtain ⟨m, hm, rfl, rfl, hl⟩ := hr
  obtain ⟨m', hm', ht, hc, hl'⟩ := h.messages hm
  exact ⟨m', hm', ht, hc, hl' l hl⟩

/-! ### One candidate -/

section Record

variable {filename : String} {idLength : Nat} {c : Candidate} {s s' : Store}

/-- All that `record` can do. -/
theorem record_cases (filename : String) (idLength : Nat) (c : Candidate) (s : Store) :
    record filename idLength c s = (.error ⟨c.text⟩, s.intern c.text) ∨
    ∃ id s', (s.intern c.text).assignId c.text c.context idLength = some (id, s') ∧
      record filename idLength c s = (.ok id, s'.add (messageOf filename id c)) := by
  simp only [record]
  cases ha : (s.intern c.text).assignId c.text c.context idLength with
  | none => exact .inl rfl
  | some r => exact .inr ⟨r.1, r.2, rfl, rfl⟩

theorem record_eq_ok_iff {id : String} : record filename idLength c s = (.ok id, s') ↔
    ∃ s₁, (s.intern c.text).assignId c.text c.context idLength = some (id, s₁) ∧
      s₁.add (messageOf filename id c) = s' := by
  simp only [record]
  cases (s.intern c.text).assignId c.text c.context idLength with
  | none => simp
  | some r =>
    obtain ⟨id', s₁⟩ := r
    simp only [Prod.mk.injEq, Except.ok.injEq, Option.some.injEq]
    constructor
    · rintro ⟨rfl, rfl⟩
      exact ⟨s₁, ⟨rfl, rfl⟩, rfl⟩
    · rintro ⟨_, ⟨rfl, rfl⟩, rfl⟩
      exact ⟨rfl, rfl⟩

theorem record_eq_error_iff {e : ExhaustedIds} : record filename idLength c s = (.error e, s') ↔
    (s.intern c.text).assignId c.text c.context idLength = none ∧ (⟨c.text⟩ : ExhaustedIds) = e ∧
      s.intern c.text = s' := by
  simp only [record]
  cases (s.intern c.text).assignId c.text c.context idLength with
  | none => simp
  | some r => simp

/-- The owner of an id that was just given to a pair is that pair. -/
theorem Store.Coherent.owner?_assignId (h : s.Coherent) {text : String} {context : Option String}
    {length : Nat} {id : String} {s' : Store}
    (ha : s.assignId text context length = some (id, s')) :
    s'.ids.owner? id = some (.of text context) := by
  obtain ⟨ids, hids, rfl⟩ := assignId_eq_some.mp ha
  have hc := IdTable.assign_consistent h.consistent hids
  exact (IdTable.owner?_iff_id? hc).mpr (IdTable.id?_assign h.consistent hids)

theorem record_coherent (h : s.Coherent) (filename : String) (idLength : Nat) (c : Candidate) :
    (record filename idLength c s).2.Coherent ∧ s.Grows (record filename idLength c s).2 := by
  have hi := h.intern c.text
  have hgi := Store.grows_intern s c.text
  obtain he | ⟨id, s', ha, he⟩ := record_cases filename idLength c s
  · rw [he]
    exact ⟨hi, hgi⟩
  · rw [he]
    have hs' := hi.assignId ha
    exact ⟨hs'.add (hi.owner?_assignId ha) c.context_ne_empty,
      hgi.trans ((hi.grows_assignId ha).trans (hs'.grows_add _))⟩

theorem Store.Coherent.of_record {r : Except ExhaustedIds String} (h : s.Coherent)
    (hr : record filename idLength c s = (r, s')) : s'.Coherent := by
  have := (record_coherent h filename idLength c).1
  rwa [hr] at this

/-- A message that absorbs a candidate was already one for its text and context, since the id that
they share has one owner. -/
theorem record_recordedAs (h : s.Coherent) {id : String}
    (hr : record filename idLength c s = (.ok id, s')) : c.RecordedAs id filename s' := by
  obtain ⟨s₁, ha, rfl⟩ := record_eq_ok_iff.mp hr
  have hi := h.intern c.text
  have hs := hi.assignId ha
  have hmem : (⟨filename, c.line, c.col⟩ : Location) ∈ (messageOf filename id c).locations := by
    simp [messageOf]
  have hget : (s₁.add (messageOf filename id c)).get? id =
      some ((messageOf filename id c).absorb (s₁.get? id)) := by
    rw [Store.get?_add hs.ascending]
    exact if_pos rfl
  cases hold : s₁.get? id with
  | none =>
    rw [hold] at hget
    exact ⟨_, hget, rfl, rfl, hmem⟩
  | some old =>
    rw [hold] at hget
    -- the message that is there was made for the owner of its id, which is now this pair
    have howner := hs.owned old (Store.mem_of_get? hold)
    rw [Store.id_of_get? hold, hi.owner?_assignId ha, Option.some.injEq] at howner
    have hold_ne := hs.context_ne old (Store.mem_of_get? hold)
    have hsame := (MessageKey.of_inj c.context_ne_empty hold_ne).mp howner
    exact ⟨_, hget, hsame.1.symm, hsame.2.symm, Message.mem_locations_merge.mpr (.inr hmem)⟩

end Record

/-! ### All candidates of a file -/

section RecordAll

variable {filename : String} {idLength : Nat} {c : Candidate} {cs : List Candidate} {s s' : Store}
  {ids : List String}

theorem recordAll_nil_eq_ok_iff :
    recordAll filename idLength [] s = (.ok ids, s') ↔ ids = [] ∧ s = s' := by
  simp [recordAll, eq_comm]

theorem recordAll_cons_of_ok {id : String} {s₁ : Store}
    (h : record filename idLength c s = (.ok id, s₁)) (cs : List Candidate) :
    recordAll filename idLength (c :: cs) s =
      ((recordAll filename idLength cs s₁).1.map (id :: ·),
        (recordAll filename idLength cs s₁).2) := by
  simp only [recordAll, h]
  rcases recordAll filename idLength cs s₁ with ⟨e | ids, s₂⟩ <;> rfl

theorem recordAll_cons_of_error {e : ExhaustedIds}
    (h : record filename idLength c s = (.error e, s')) (cs : List Candidate) :
    recordAll filename idLength (c :: cs) s = (.error e, s') := by
  rw [recordAll, h]

theorem recordAll_cons_eq_ok_iff : recordAll filename idLength (c :: cs) s = (.ok ids, s') ↔
    ∃ id s₁ rest, record filename idLength c s = (.ok id, s₁) ∧
      recordAll filename idLength cs s₁ = (.ok rest, s') ∧ id :: rest = ids := by
  rcases hfirst : record filename idLength c s with ⟨e | id, s₁⟩
  · simp [recordAll_cons_of_error hfirst]
  · rw [recordAll_cons_of_ok hfirst]
    rcases hrest : recordAll filename idLength cs s₁ with ⟨e | rest, s₂⟩
    · simp [Except.map, hrest]
    · simp [Except.map, hrest, and_comm]

theorem recordAll_cons_eq_error_iff {e : ExhaustedIds} :
    recordAll filename idLength (c :: cs) s = (.error e, s') ↔
      record filename idLength c s = (.error e, s') ∨
      ∃ id s₁, record filename idLength c s = (.ok id, s₁) ∧
        recordAll filename idLength cs s₁ = (.error e, s') := by
  rcases hfirst : record filename idLength c s with ⟨e' | id, s₁⟩
  · simp [recordAll_cons_of_error hfirst]
  · rw [recordAll_cons_of_ok hfirst]
    rcases hrest : recordAll filename idLength cs s₁ with ⟨e' | rest, s₂⟩
    · simp [Except.map, hrest]
    · simp [Except.map, hrest]

/-- What recording one candidate keeps, recording several keeps, also when it stops in between. -/
theorem recordAll_invariant {P : Store → Prop}
    (hstep : ∀ c s, P s → P (record filename idLength c s).2) (cs : List Candidate) (h : P s) :
    P (recordAll filename idLength cs s).2 := by
  induction cs generalizing s with
  | nil => exact h
  | cons c cs ih =>
    have hfirst := hstep c s h
    rcases hr : record filename idLength c s with ⟨e | id, s₁⟩ <;> rw [hr] at hfirst
    · rw [recordAll_cons_of_error hr]
      exact hfirst
    · rw [recordAll_cons_of_ok hr]
      exact ih hfirst

theorem recordAll_coherent (h : s.Coherent) (filename : String) (idLength : Nat)
    (cs : List Candidate) : (recordAll filename idLength cs s).2.Coherent ∧
      s.Grows (recordAll filename idLength cs s).2 := by
  refine recordAll_invariant (P := fun s₁ => s₁.Coherent ∧ s.Grows s₁) ?_ cs ⟨h, .refl s⟩
  rintro c s₁ ⟨hcoherent, hgrows⟩
  obtain ⟨hcoherent', hgrows'⟩ := record_coherent hcoherent filename idLength c
  exact ⟨hcoherent', hgrows.trans hgrows'⟩

/-- When all candidates got their ids, each of them is recorded in the end. -/
theorem recordAll_recordedAs (h : s.Coherent)
    (hr : recordAll filename idLength cs s = (.ok ids, s')) :
    List.Forall₂ (fun c id => c.RecordedAs id filename s') cs ids := by
  induction cs generalizing s ids with
  | nil =>
    obtain ⟨rfl, rfl⟩ := recordAll_nil_eq_ok_iff.mp hr
    exact .nil
  | cons c cs ih =>
    obtain ⟨id, s₁, rest, hfirst, hrest, rfl⟩ := recordAll_cons_eq_ok_iff.mp hr
    have hs₁ := h.of_record hfirst
    -- what was recorded for the first candidate is still there when the others are
    have hgrows := (recordAll_coherent hs₁ filename idLength cs).2
    rw [hrest] at hgrows
    exact .cons (hgrows.records (record_recordedAs h hfirst)) (ih hs₁ hrest)

end RecordAll

/-! ### Calls -/

/-- One of the edits puts a call with this id in the place of the text of the candidate. -/
def Candidate.CalledWith (c : Candidate) (id : String) (o : Options) (edits : List Edit) : Prop :=
  ∃ before after,
    ⟨c.start, c.stop, before ++ (o.runtimeId ++ ".t(\"" ++ id ++ "\"") ++ after⟩ ∈ edits

theorem plainCall_eq (id text : String) (params : List Param) (o : Options) :
    ∃ after, plainCall id text params o = o.runtimeId ++ ".t(\"" ++ id ++ "\"" ++ after := by
  unfold plainCall
  split
  · have hclose : "\")" = "\"" ++ ")" := rfl
    exact ⟨")", by rw [hclose, ← String.append_assoc]⟩
  · have hopen : "\", \x7b " = "\"" ++ ", \x7b " := rfl
    exact ⟨", \x7b " ++ _ ++ " \x7d)", by rw [hopen]; simp only [String.append_assoc]; rfl⟩

theorem callExpression_eq (id text : String) (params : List Param) (o : Options) :
    ∃ before after, callExpression id text params o =
      before ++ (o.runtimeId ++ ".t(\"" ++ id ++ "\"") ++ after := by
  obtain ⟨after, h⟩ := plainCall_eq id text params o
  simp only [callExpression, h]
  by_cases hd : o.debug = true
  · rw [if_pos hd]
    exact ⟨"`" ++ debugMarks.1 ++ "$\x7b", after ++ ("\x7d" ++ debugMarks.2 ++ "`"),
      by simp only [String.append_assoc]⟩
  · rw [if_neg hd]
    exact ⟨"", after, by simp⟩

/-- What two lists are put together to, for members that stand side by side. -/
theorem forall₂_zipWith {α β γ : Type} {R : α → β → Prop} (f : α → β → γ) {as : List α}
    {bs : List β} (h : List.Forall₂ R as bs) :
    List.Forall₂ (fun a b => R a b ∧ f a b ∈ List.zipWith f as bs) as bs := by
  induction h with
  | nil => exact .nil
  | cons hab _ ih =>
    rw [List.zipWith_cons_cons]
    exact .cons ⟨hab, List.mem_cons_self⟩
      (ih.imp fun _ _ hmem => ⟨hmem.1, List.mem_cons_of_mem _ hmem.2⟩)

namespace Prepared

/-- With an id for each candidate the edits of a file put calls in the places of all of them. -/
theorem forall₂_callEdit_mem (p : Prepared) (o : Options) {R : Candidate → String → Prop}
    {ids : List String} (h : List.Forall₂ R p.candidates ids) :
    List.Forall₂ (fun c id => callEdit o c id ∈ p.edits o ids) p.candidates ids :=
  (forall₂_zipWith (callEdit o) h).imp fun _ _ hmem => List.mem_append_left _ hmem.2

end Prepared

theorem Candidate.calledWith_of_mem {c : Candidate} {id : String} {o : Options} {edits : List Edit}
    (h : Prepared.callEdit o c id ∈ edits) : c.CalledWith id o edits := by
  obtain ⟨before, after, he⟩ := callExpression_eq id c.text c.params o
  exact ⟨before, after, he ▸ h⟩

/-! ### Applying a prepared file -/

namespace Prepared

variable {s : Store} (p : Prepared) (source : String) (o : Options)

/-- The output of a file whose candidates have got these ids. -/
def output (ids : List String) : Output :=
  ⟨p.filename, (Splice.apply source (p.edits o ids) p.filename).1,
    some (Splice.apply source (p.edits o ids) p.filename).2, p.candidates.length, p.exempted⟩

@[simp] theorem output_code (ids : List String) :
    (p.output source o ids).code = (Splice.apply source (p.edits o ids) p.filename).1 :=
  rfl

theorem apply_of_nil (h : p.candidates = []) : p.apply source o s =
    (.ok { filename := p.filename, code := source, exempted := p.exempted }, s) := by
  rw [apply, if_pos h]

theorem apply_of_ne_nil (h : p.candidates ≠ []) : p.apply source o s =
    ((recordAll p.filename o.idLength p.candidates s).1.map (p.output source o),
      (recordAll p.filename o.idLength p.candidates s).2) := by
  rw [apply, if_neg h]
  rcases recordAll p.filename o.idLength p.candidates s with ⟨e | ids, s'⟩ <;> rfl

/-- Behind an application the store is that of recording all candidates. -/
theorem apply_snd : (p.apply source o s).2 =
    (recordAll p.filename o.idLength p.candidates s).2 := by
  by_cases h : p.candidates = []
  · rw [apply_of_nil p source o h, h, recordAll]
  · rw [apply_of_ne_nil p source o h]

/-- What an application gives when there are candidates, whatever is in the store. -/
theorem exists_recordAll_of_apply {p : Prepared} {source : String} {o : Options} {out : Output}
    (hne : p.candidates ≠ []) (hok : (p.apply source o s).1 = .ok out) :
    ∃ ids, recordAll p.filename o.idLength p.candidates s = (.ok ids, (p.apply source o s).2) ∧
      out = p.output source o ids := by
  rw [apply_of_ne_nil p source o hne] at hok ⊢
  rcases hrecord : recordAll p.filename o.idLength p.candidates s with ⟨e | ids, s'⟩
  · rw [hrecord] at hok
    cases hok
  · rw [hrecord] at hok
    exact ⟨ids, rfl, (Except.ok.inj hok).symm⟩

/-- An application fails when recording does. -/
theorem apply_eq_error_iff_recordAll {e : ExhaustedIds} {s' : Store} :
    p.apply source o s = (.error e, s') ↔
      recordAll p.filename o.idLength p.candidates s = (.error e, s') := by
  by_cases h : p.candidates = []
  · simp [apply_of_nil p source o h, h, recordAll]
  · rw [apply_of_ne_nil p source o h]
    rcases recordAll p.filename o.idLength p.candidates s with ⟨e' | ids, s₁⟩ <;> simp [Except.map]

theorem apply_coherent (h : s.Coherent) :
    (p.apply source o s).2.Coherent ∧ s.Grows (p.apply source o s).2 := by
  rw [apply_snd]
  exact recordAll_coherent h p.filename o.idLength p.candidates

/-- What the output of an application is made of. -/
theorem apply_eq_ok {out : Output} (h : s.Coherent) (ha : (p.apply source o s).1 = .ok out) :
    ∃ ids, List.Forall₂ (fun c id => c.RecordedAs id p.filename (p.apply source o s).2)
        p.candidates ids ∧
      out.code = if p.candidates = [] then source
        else (Splice.apply source (p.edits o ids) p.filename).1 := by
  by_cases hnil : p.candidates = []
  · rw [apply_of_nil p source o hnil, Except.ok.injEq] at ha
    exact ⟨[], by rw [hnil]; exact .nil, by rw [if_pos hnil, ← ha]⟩
  · obtain ⟨ids, hrecord, rfl⟩ := exists_recordAll_of_apply hnil ha
    refine ⟨ids, recordAll_recordedAs h hrecord, ?_⟩
    rw [if_neg hnil, output_code]

end Prepared

end Phrasebook
