import Phrasebook.Proofs.Pass
import Phrasebook.Proofs.Workers

/-!
# What a pass adds to a store

Each candidate of a file is reported to the store as a message. When no file runs out of ids, the
messages of the store say pair by pair what was there before and all reports together
(`sums_mapM_applyAt`), in whatever order the files were applied.
-/

namespace Phrasebook

/-! ### One candidate after the other -/

/-- The messages of the candidates of a file, without their ids. -/
def Prepared.reports (p : Prepared) : List Message := p.candidates.map (messageOf p.filename "")

namespace Store

variable {s s' : Store} {ms : List Message}

theorem sums_empty {s : Store} (h : s.messages = []) : s.Sums [] := by
  intro P _ key
  rw [h]

/-- What a message says does not depend on its id. -/
theorem Sums.of_withId {m : Message} {id : String} (h : s.Sums (ms ++ [{ m with id }])) :
    s.Sums (ms ++ [m]) := by
  intro P hP key
  rw [h P hP key]
  simp only [List.mem_append, List.mem_singleton, or_and_right, exists_or, exists_eq_left,
    hP.withId]
  rfl

theorem Coherent.sums_record (h : s.Coherent) (hs : s.Sums ms) {filename id : String}
    {idLength : Nat} {c : Candidate} (hr : record filename idLength c s = (.ok id, s')) :
    s'.Sums (ms ++ [messageOf filename "" c]) := by
  obtain ⟨s₁, ha, rfl⟩ := record_eq_ok_iff.mp hr
  have hi := h.intern c.text
  have hsums : s₁.Sums ms := by
    obtain ⟨ids, -, rfl⟩ := assignId_eq_some.mp ha
    exact hs
  have hadded : (s₁.add (messageOf filename id c)).Sums (ms ++ [messageOf filename id c]) :=
    (hi.assignId ha).sums_add (hi.owner?_assignId ha) hsums (by simp)
  exact hadded.of_withId (m := messageOf filename "" c)

theorem Coherent.sums_recordAll (h : s.Coherent) (hs : s.Sums ms) {filename : String}
    {idLength : Nat} {cs : List Candidate} {ids : List String}
    (hr : recordAll filename idLength cs s = (.ok ids, s')) :
    s'.Sums (ms ++ cs.map (messageOf filename "")) := by
  induction cs generalizing s ms ids with
  | nil =>
    obtain ⟨-, rfl⟩ := recordAll_nil_eq_ok_iff.mp hr
    simpa using hs
  | cons c cs ih =>
    obtain ⟨id, s₁, rest, hfirst, hrest, rfl⟩ := recordAll_cons_eq_ok_iff.mp hr
    have hsums := ih (h.of_record hfirst) (h.sums_record hs hfirst) hrest
    rwa [List.append_assoc] at hsums

end Store

theorem Prepared.sums_apply {p : Prepared} {source : String} {o : Options} {s : Store}
    {ms : List Message} {out : Output} (h : s.Coherent) (hs : s.Sums ms)
    (hok : (p.apply source o s).1 = .ok out) :
    (p.apply source o s).2.Sums (ms ++ p.reports) ∧ out.messageCount = p.candidates.length := by
  by_cases hnil : p.candidates = []
  · rw [apply_of_nil p source o hnil] at hok ⊢
    rw [reports, hnil, List.map_nil, List.append_nil, ← Except.ok.inj hok]
    exact ⟨hs, rfl⟩
  · obtain ⟨ids, hrecord, rfl⟩ := exists_recordAll_of_apply hnil hok
    exact ⟨h.sums_recordAll hs hrecord, rfl⟩

/-! ### One file after the other -/

namespace Pass

open Relation (ReflTransGen)

/-- A file ready to be applied; one that cannot be read has nothing to be translated. -/
def preparedAt (fs : FileSystem) (root : Path) (o : Options) (p : Path) : Prepared :=
  let name := (relativePath root p).slashed
  match fs.readText p with
  | .ok source => prepare source name o
  | .error _ => { filename := name }

/-- How many calls a file got. -/
def messageCount : Except Failure AppliedFile → Nat
  | .ok file => file.output.messageCount
  | .error _ => 0

/-- No id was left for a text of the file. -/
def IsExhausted : Except Failure AppliedFile → Prop
  | .ok _ => False
  | .error failure => ∃ e, failure.error = .exhausted e

section

variable {fs : FileSystem} {root : Path} {o : Options} {s : Store}

theorem preparedAt_of_readText {p : Path} {source : String} (h : fs.readText p = .ok source) :
    preparedAt fs root o p = prepare source (relativePath root p).slashed o := by
  rw [preparedAt, h]

theorem filename_preparedAt (p : Path) :
    (preparedAt fs root o p).filename = (relativePath root p).slashed := by
  rw [preparedAt]
  cases fs.readText p with
  | ok source => exact prepare_filename _ _ _
  | error fault => rfl

theorem steps_applyAt (h : s.Coherent) (p : Path) :
    ReflTransGen Store.Step s ((applyAt fs root o p).run s).2 := by
  cases hread : fs.readText p with
  | error fault => rw [applyAt_unreadable hread]
  | ok source =>
    have hsteps := Prepared.apply_steps (prepare source (relativePath root p).slashed o) source o h
    rw [applyAt_readable hread, transform]
    rcases hr : (prepare source (relativePath root p).slashed o).apply source o s with
      ⟨e | out, s'⟩ <;> rw [hr] at hsteps <;> exact hsteps

theorem steps_mapM_applyAt (h : s.Coherent) (files : List Path) :
    ReflTransGen Store.Step s ((files.mapM (applyAt fs root o)).run s).2 := by
  induction files generalizing s with
  | nil => exact .refl
  | cons p ps ih =>
    have hstep : ReflTransGen Store.Step s ((applyAt fs root o p).run s).2 := steps_applyAt h p
    rw [mapM_run_cons]
    exact hstep.trans (ih (h.steps hstep).1)

theorem sums_applyAt {p : Path} {ms : List Message} (h : s.Coherent) (hs : s.Sums ms)
    (hok : ¬ IsExhausted ((applyAt fs root o p).run s).1) :
    ((applyAt fs root o p).run s).2.Sums (ms ++ (preparedAt fs root o p).reports) ∧
      messageCount ((applyAt fs root o p).run s).1 =
        (preparedAt fs root o p).candidates.length := by
  cases hread : fs.readText p with
  | error fault =>
    rw [applyAt_unreadable hread, preparedAt, hread, Prepared.reports, List.map_nil,
      List.append_nil]
    exact ⟨hs, rfl⟩
  | ok source =>
    have hsums {out : Output} := @Prepared.sums_apply
      (prepare source (relativePath root p).slashed o) source o s ms out h hs
    rw [applyAt_readable hread, transform] at hok ⊢
    rw [preparedAt_of_readText hread]
    rcases hr : (prepare source (relativePath root p).slashed o).apply source o s with
      ⟨e | out, s'⟩ <;> rw [hr] at hsums hok
    · exact absurd ⟨e, rfl⟩ hok
    · exact hsums rfl

/-- Files that have ids for all their candidates add their reports, and nothing else. -/
theorem sums_mapM_applyAt {files : List Path} {ms : List Message} (h : s.Coherent)
    (hs : s.Sums ms)
    (hok : ∀ x ∈ ((files.mapM (applyAt fs root o)).run s).1, ¬ IsExhausted x) :
    ((files.mapM (applyAt fs root o)).run s).2.Sums
        (ms ++ files.flatMap fun p => (preparedAt fs root o p).reports) ∧
      ((files.mapM (applyAt fs root o)).run s).1.map messageCount =
        files.map fun p => (preparedAt fs root o p).candidates.length := by
  induction files generalizing s ms with
  | nil =>
    rw [List.flatMap_nil, List.append_nil]
    exact ⟨hs, rfl⟩
  | cons p ps ih =>
    rw [mapM_run_cons] at hok ⊢
    obtain ⟨hp, hps⟩ := List.forall_mem_cons.mp hok
    obtain ⟨hsums, hcount⟩ := sums_applyAt h hs hp
    obtain ⟨hrest, hcounts⟩ := ih (h.steps (steps_applyAt h p)).1 hsums hps
    rw [List.append_assoc] at hrest
    exact ⟨hrest, by rw [List.map_cons, List.map_cons, hcount, hcounts]⟩

end

end Pass

end Phrasebook
