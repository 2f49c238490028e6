import Phrasebook.Pass
import Phrasebook.Proofs.StoreCalls

/-!
# Passes as plain loops

A pass reads all files, then applies all of them, then writes all results. `oneByOne` is the plain
loop: it reads and transforms one file after the other and writes nothing. The main result,
`run_eq_oneByOne`, says that a pass gives the messages and ids of the loop on a new store, whatever
was in the store before and wherever results go, and its outcomes up to failures to write; and that
a file that cannot be read can as well be left out. What carries it are three laws of `mapM` for
programs with a state (`mapM_run_map`, `mapM_run_skip`, `getElem?_mapM_run`), and that the pool of
texts has no influence on what is recorded (`Store.Alike.apply`).
-/

namespace Phrasebook

/-! ### Programs with a state, one after the other -/

section MapM

variable {α β γ σ : Type}

theorem bind_run_of_run {x : StateM σ α} {s s' : σ} {a : α} (h : x.run s = (a, s'))
    (f : α → StateM σ β) : (x >>= f).run s = (f a).run s' := by
  rw [StateT.run_bind, h]
  rfl

theorem mapM_run_cons (f : α → StateM σ β) (x : α) (xs : List α) (s : σ) :
    ((x :: xs).mapM f).run s =
      (((f x).run s).1 :: ((xs.mapM f).run ((f x).run s).2).1,
        ((xs.mapM f).run ((f x).run s).2).2) := by
  simp only [List.mapM_cons, StateT.run_bind, StateT.run_pure]
  rfl

theorem mapM_run_append (f : α → StateM σ β) (xs zs : List α) (s : σ) :
    ((xs ++ zs).mapM f).run s =
      (((xs.mapM f).run s).1 ++ ((zs.mapM f).run ((xs.mapM f).run s).2).1,
        ((zs.mapM f).run ((xs.mapM f).run s).2).2) := by
  simp only [List.mapM_append, StateT.run_bind, StateT.run_pure]
  rfl

theorem length_mapM_run (f : α → StateM σ β) (xs : List α) (s : σ) :
    ((xs.mapM f).run s).1.length = xs.length := by
  induction xs generalizing s with
  | nil => rfl
  | cons x xs ih => simp only [mapM_run_cons, List.length_cons, ih]

/-- Programs whose results are images of those of others, with the same effect. -/
theorem mapM_run_map {f : α → StateM σ β} {g : α → StateM σ γ} {φ : β → γ}
    (h : ∀ x s, (g x).run s = (φ ((f x).run s).1, ((f x).run s).2)) (xs : List α) (s : σ) :
    (xs.mapM g).run s = (((xs.mapM f).run s).1.map φ, ((xs.mapM f).run s).2) := by
  induction xs generalizing s with
  | nil => rfl
  | cons x xs ih => simp only [mapM_run_cons, h, ih, List.map_cons]

theorem mapM_run_of_pure {f : α → StateM σ β} {φ : α → β} (h : ∀ x s, (f x).run s = (φ x, s))
    (xs : List α) (s : σ) : (xs.mapM f).run s = (xs.map φ, s) := by
  induction xs generalizing s with
  | nil => rfl
  | cons x xs ih => simp only [mapM_run_cons, h, ih, List.map_cons]

/-- A program without effect can be left out, and what it gives with it. -/
theorem mapM_run_skip {f : α → StateM σ β} {x : α} {y : β} (h : ∀ s, (f x).run s = (y, s))
    (xs zs : List α) (s : σ) : ∃ ys ys' s', ys.length = xs.length ∧
      ((xs ++ zs).mapM f).run s = (ys ++ ys', s') ∧
      ((xs ++ x :: zs).mapM f).run s = (ys ++ y :: ys', s') := by
  refine ⟨_, _, _, length_mapM_run f xs s, mapM_run_append f xs zs s, ?_⟩
  rw [mapM_run_append, mapM_run_cons, h]

/-- What one of the programs gives depends on those in front of it. -/
theorem getElem?_mapM_run (f : α → StateM σ β) {xs : List α} {i : Nat} {x : α}
    (hx : xs[i]? = some x) (s : σ) :
    ((xs.mapM f).run s).1[i]? = some ((f x).run (((xs.take i).mapM f).run s).2).1 := by
  induction xs generalizing i s with
  | nil => simp at hx
  | cons y ys ih =>
    cases i with
    | zero =>
      obtain rfl : y = x := by simpa using hx
      rw [mapM_run_cons]
      rfl
    | succ i =>
      rw [List.take_succ_cons, mapM_run_cons, mapM_run_cons, List.getElem?_cons_succ]
      exact ih (by simpa using hx) _

theorem mem_mapM_run (f : α → StateM σ β) {xs : List α} {y : β} {s : σ}
    (h : y ∈ ((xs.mapM f).run s).1) : ∃ x ∈ xs, ∃ s', ((f x).run s').1 = y := by
  induction xs generalizing s with
  | nil => cases h
  | cons x xs ih =>
    rw [mapM_run_cons] at h
    rcases List.mem_cons.mp h with rfl | h
    · exact ⟨x, List.mem_cons_self, s, rfl⟩
    · obtain ⟨x', hx', hy⟩ := ih h
      exact ⟨x', List.mem_cons_of_mem x hx', hy⟩

/-- The programs behind one of them go on where it ends. -/
theorem snd_mapM_run (f : α → StateM σ β) {xs : List α} {i : Nat} {x : α} (hx : xs[i]? = some x)
    (s : σ) : ((xs.mapM f).run s).2 =
      (((xs.drop (i + 1)).mapM f).run ((f x).run (((xs.take i).mapM f).run s).2).2).2 := by
  obtain ⟨hi, rfl⟩ := List.getElem?_eq_some_iff.mp hx
  have hsplit : xs = xs.take i ++ xs[i] :: xs.drop (i + 1) := by
    rw [← List.drop_eq_getElem_cons, List.take_append_drop]
  conv_lhs => rw [hsplit, mapM_run_append, mapM_run_cons]

end MapM

/-! ### The pool does not matter -/

/-- Stores that differ at most in their pools. -/
structure Store.Alike (s t : Store) : Prop where
  messages : s.messages = t.messages
  ids : s.ids = t.ids

namespace Store.Alike

variable {s t : Store}

theorem record (h : s.Alike t) (filename : String) (idLength : Nat) (c : Candidate) :
    (record filename idLength c s).1 = (record filename idLength c t).1 ∧
      (Phrasebook.record filename idLength c s).2.Alike
        (Phrasebook.record filename idLength c t).2 := by
  obtain ⟨messages, ids, pool⟩ := s
  obtain ⟨messages', ids', pool'⟩ := t
  obtain ⟨rfl, rfl⟩ : messages = messages' ∧ ids = ids' := ⟨h.messages, h.ids⟩
  simp only [Phrasebook.record, Store.intern, Store.assignId]
  cases ids.assign (.of c.text c.context) idLength with
  | none => exact ⟨rfl, rfl, rfl⟩
  | some r => exact ⟨rfl, rfl, rfl⟩

theorem recordAll (h : s.Alike t) (filename : String) (idLength : Nat) (cs : List Candidate) :
    (recordAll filename idLength cs s).1 = (recordAll filename idLength cs t).1 ∧
      (Phrasebook.recordAll filename idLength cs s).2.Alike
        (Phrasebook.recordAll filename idLength cs t).2 := by
  induction cs generalizing s t with
  | nil => exact ⟨rfl, h⟩
  | cons c cs ih =>
    obtain ⟨hresult, hstep⟩ := h.record filename idLength c
    rcases hs : Phrasebook.record filename idLength c s with ⟨r, s₁⟩
    rcases ht : Phrasebook.record filename idLength c t with ⟨r', t₁⟩
    rw [hs, ht] at hresult hstep
    obtain rfl : r = r' := hresult
    cases r with
    | error e =>
      rw [recordAll_cons_of_error hs, recordAll_cons_of_error ht]
      exact ⟨rfl, hstep⟩
    | ok id =>
      obtain ⟨hresults, hrest⟩ := ih hstep
      rw [recordAll_cons_of_ok hs, recordAll_cons_of_ok ht, hresults]
      exact ⟨rfl, hrest⟩

theorem apply (h : s.Alike t) (p : Prepared) (source : String) (o : Options) :
    (p.apply source o s).1 = (p.apply source o t).1 ∧
      (p.apply source o s).2.Alike (p.apply source o t).2 := by
  obtain ⟨hresults, hrest⟩ := h.recordAll p.filename o.idLength p.candidates
  refine ⟨?_, by simpa only [Prepared.apply_snd] using hrest⟩
  by_cases hnil : p.candidates = []
  · rw [p.apply_of_nil source o hnil, p.apply_of_nil source o hnil]
  · rw [p.apply_of_ne_nil source o hnil, p.apply_of_ne_nil source o hnil, hresults]

end Store.Alike

theorem Prepared.filename_of_apply (p : Prepared) (source : String) (o : Options) {s : Store}
    {out : Output} (h : (p.apply source o s).1 = .ok out) : out.filename = p.filename := by
  by_cases hnil : p.candidates = []
  · rw [p.apply_of_nil source o hnil] at h
    rw [← Except.ok.inj h]
  · obtain ⟨ids, -, rfl⟩ := exists_recordAll_of_apply hnil h
    rfl

namespace Pass

/-! ### One file after the other -/

/-- Reads and transforms one file. -/
def transformOne (fs : FileSystem) (root : Path) (o : Options) (p : Path) :
    StateM Store Outcome := do
  let name := (relativePath root p).slashed
  match fs.readText p with
  | .error fault => return .failed ⟨name, .unreadable fault⟩
  | .ok source =>
    match ← transform source name o with
    | .error error => return .failed ⟨name, .exhausted error⟩
    | .ok out =>
      if out.isChanged then return .transformed out.messageCount out.exempted
      else return .unchanged out.exempted

/-- Reads and transforms files one after the other. -/
def oneByOne (fs : FileSystem) (root : Path) (o : Options) (files : List Path) :
    StateM Store (List Outcome) :=
  files.mapM (transformOne fs root o)

variable {fs : FileSystem} {root : Path} {o : Options}

theorem transformOne_unreadable {p : Path} {fault : FileFault} (h : fs.readText p = .error fault)
    (s : Store) : (transformOne fs root o p).run s =
      (.failed ⟨(relativePath root p).slashed, .unreadable fault⟩, s) := by
  simp only [transformOne, h]
  rfl

/-- What is found out about a file before any result is written. -/
def applyAt (fs : FileSystem) (root : Path) (o : Options) (p : Path) :
    StateM Store (Except Failure AppliedFile) :=
  applyFile o (readFile fs root o p)

/-- What has become of a file when its result is not written. -/
def outcomeOf : Except Failure AppliedFile → Outcome
  | .error failure => .failed failure
  | .ok file =>
    match file.output.map with
    | none => .unchanged file.output.exempted
    | some _ => .transformed file.output.messageCount file.output.exempted

theorem applyAt_unreadable {p : Path} {fault : FileFault} (h : fs.readText p = .error fault)
    (s : Store) : (applyAt fs root o p).run s =
      (.error ⟨(relativePath root p).slashed, .unreadable fault⟩, s) := by
  simp only [applyAt, readFile, h]
  rfl

theorem applyAt_readable {p : Path} {source : String} (h : fs.readText p = .ok source)
    (s : Store) : (applyAt fs root o p).run s =
      match transform source (relativePath root p).slashed o s with
      | (.ok output, s) => (.ok ⟨relativePath root p, output⟩, s)
      | (.error error, s) => (.error ⟨(relativePath root p).slashed, .exhausted error⟩, s) := by
  simp only [applyAt, readFile, h, applyFile]
  rcases ht : transform source (relativePath root p).slashed o s with ⟨e | out, s'⟩ <;>
    rw [bind_run_of_run ht]
  · simp only [prepare_filename]
    rfl
  · rfl

theorem transformOne_run (p : Path) (s : Store) : (transformOne fs root o p).run s =
    (outcomeOf ((applyAt fs root o p).run s).1, ((applyAt fs root o p).run s).2) := by
  cases h : fs.readText p with
  | error fault =>
    rw [transformOne_unreadable h, applyAt_unreadable h]
    rfl
  | ok source =>
    rw [applyAt_readable h]
    simp only [transformOne, h]
    rcases ht : transform source (relativePath root p).slashed o s with ⟨e | out, s'⟩ <;>
      rw [bind_run_of_run (x := transform source _ o) ht]
    · rfl
    · obtain ⟨filename, code, map, messageCount, exempted⟩ := out
      cases map <;> rfl

/-- The name in the result of a file is the one of the file. -/
theorem filename_of_applyAt {p : Path} {s : Store} {file : AppliedFile}
    (h : ((applyAt fs root o p).run s).1 = .ok file) :
    file.output.filename = (relativePath root p).slashed := by
  cases hread : fs.readText p with
  | error fault =>
    rw [applyAt_unreadable hread] at h
    simp at h
  | ok source =>
    rw [applyAt_readable hread] at h
    rcases ht : transform source (relativePath root p).slashed o s with ⟨e | out, s'⟩ <;>
      rw [ht] at h <;> simp only [reduceCtorEq, Except.ok.injEq] at h
    obtain rfl := h
    rw [← prepare_filename source (relativePath root p).slashed o]
    exact Prepared.filename_of_apply _ source o (congrArg Prod.fst ht)

theorem writeOutcome_none (x : Except Failure AppliedFile) (fs : FileSystem) :
    (writeOutcome none x).run fs = (outcomeOf x, fs) := by
  cases x with
  | error failure => rfl
  | ok file =>
    simp only [writeOutcome, writeFile, outcomeOf, StateT.run]
    cases file.output.map <;> rfl

/-- A result that was written, or not to be written, keeps its outcome. -/
theorem writeOutcome_cases (outDir : Option Path) (x : Except Failure AppliedFile)
    (fs : FileSystem) : ((writeOutcome outDir x).run fs).1 = outcomeOf x ∨
      ∃ file messages exempted error, x = .ok file ∧ outDir ≠ none ∧
        outcomeOf x = .transformed messages exempted ∧
        ((writeOutcome outDir x).run fs).1 =
          .failed ⟨file.output.filename, .unwritable error⟩ := by
  cases x with
  | error failure => exact .inl rfl
  | ok file =>
    simp only [writeOutcome, writeFile, outcomeOf, StateT.run]
    cases file.output.map with
    | none => exact .inl rfl
    | some map =>
      cases outDir with
      | none => exact .inl rfl
      | some dir =>
        simp only
        cases writeResult (dir.join file.path.text) file.output.code map fs with
        | ok _ fs' => exact .inl rfl
        | error error fs' => exact .inr ⟨file, _, _, error, rfl, by simp, rfl, rfl⟩

/-! ### All files -/

/-- All files are read and applied before the first result is written. -/
theorem transformFiles_eq (files : List Path) (outDir : Option Path) (s : Store) :
    transformFiles files root o outDir s fs =
      let applied := (files.mapM (applyAt fs root o)).run s
      let written := (applied.1.mapM (writeOutcome outDir)).run fs
      (written.1, applied.2, written.2) := by
  simp only [transformFiles, List.mapM_map]
  rfl

theorem oneByOne_run (files : List Path) (s : Store) : (oneByOne fs root o files).run s =
    (((files.mapM (applyAt fs root o)).run s).1.map outcomeOf,
      ((files.mapM (applyAt fs root o)).run s).2) :=
  mapM_run_map transformOne_run files s

variable (fs root o) in
theorem applyAt_alike {s t : Store} (h : s.Alike t) (p : Path) :
    ((applyAt fs root o p).run s).1 = ((applyAt fs root o p).run t).1 ∧
      ((applyAt fs root o p).run s).2.Alike ((applyAt fs root o p).run t).2 := by
  cases hread : fs.readText p with
  | error fault => simpa only [applyAt_unreadable hread, true_and] using h
  | ok source =>
    obtain ⟨hresult, hstore⟩ :=
      h.apply (prepare source (relativePath root p).slashed o) source o
    simp only [applyAt_readable hread, transform]
    rcases hs : (prepare source (relativePath root p).slashed o).apply source o s with
      ⟨e | out, s'⟩ <;>
      rcases ht : (prepare source (relativePath root p).slashed o).apply source o t with
        ⟨e' | out', t'⟩ <;>
      rw [hs, ht] at hresult hstore <;> simp only [reduceCtorEq, Except.error.injEq,
        Except.ok.injEq] at hresult
    · exact ⟨by rw [hresult], hstore⟩
    · exact ⟨by rw [hresult], hstore⟩

theorem transformOne_alike {s t : Store} (h : s.Alike t) (p : Path) :
    ((transformOne fs root o p).run s).1 = ((transformOne fs root o p).run t).1 := by
  rw [transformOne_run, transformOne_run, (applyAt_alike fs root o h p).1]

variable (fs root o) in
/-- Applying files gives the same on stores that differ in their pools. -/
theorem mapM_applyAt_alike {s t : Store} (h : s.Alike t) (files : List Path) :
    ((files.mapM (applyAt fs root o)).run s).1 = ((files.mapM (applyAt fs root o)).run t).1 ∧
      ((files.mapM (applyAt fs root o)).run s).2.Alike
        ((files.mapM (applyAt fs root o)).run t).2 := by
  induction files generalizing s t with
  | nil => exact ⟨rfl, h⟩
  | cons p ps ih =>
    obtain ⟨hresult, hstep⟩ := applyAt_alike fs root o h p
    obtain ⟨hresults, hrest⟩ := ih hstep
    simp only [mapM_run_cons]
    exact ⟨by rw [hresult, hresults], hrest⟩

/-- Only what is read from the file system matters before results are written. -/
theorem mapM_applyAt_congr {fs' : FileSystem} {files : List Path}
    (h : ∀ p ∈ files, fs'.readText p = fs.readText p) :
    files.mapM (applyAt fs' root o) = files.mapM (applyAt fs root o) := by
  induction files with
  | nil => rfl
  | cons p ps ih =>
    have hp : applyAt fs' root o p = applyAt fs root o p := by
      simp only [applyAt, readFile, h p List.mem_cons_self]
    rw [List.mapM_cons, List.mapM_cons, hp, ih fun q hq => h q (List.mem_cons_of_mem p hq)]

/-- A file that cannot be read fails at its place and can as well be left out. -/
theorem transformFiles_unreadable {p : Path} {fault : FileFault} (h : fs.readText p = .error fault)
    (before after : List Path) (outDir : Option Path) (s : Store) :
    ∃ outs outs' s' fs', outs.length = before.length ∧
      transformFiles (before ++ after) root o outDir s fs = (outs ++ outs', s', fs') ∧
      transformFiles (before ++ p :: after) root o outDir s fs =
        (outs ++ .failed ⟨(relativePath root p).slashed, .unreadable fault⟩ :: outs', s', fs') := by
  obtain ⟨applied, applied', s', happlied, hwithout, hwith⟩ :=
    mapM_run_skip (f := applyAt fs root o) (applyAt_unreadable h) before after s
  obtain ⟨outs, outs', fs', houts, hwithout', hwith'⟩ :=
    mapM_run_skip (f := writeOutcome outDir)
      (x := .error ⟨(relativePath root p).slashed, .unreadable fault⟩) (fun _ => rfl)
      applied applied' fs
  refine ⟨outs, outs', s', fs', houts.trans happlied, ?_, ?_⟩
  · simp only [transformFiles_eq, hwithout, hwithout']
  · simp only [transformFiles_eq, hwith, hwith']

/-- Each file has its own outcome, the one of the loop unless writing its result failed. -/
theorem getElem?_transformFiles {files : List Path} {i : Nat} {p : Path} (hp : files[i]? = some p)
    (outDir : Option Path) (s : Store) (fs : FileSystem) :
    ∃ outcome, (transformFiles files root o outDir s fs).1[i]? = some outcome ∧
      let planned :=
        ((transformOne fs root o p).run ((oneByOne fs root o (files.take i)).run s).2).1
      (outcome = planned ∨
        outDir ≠ none ∧ (∃ messages exempted, planned = .transformed messages exempted) ∧
          ∃ error, outcome = .failed ⟨(relativePath root p).slashed, .unwritable error⟩) := by
  have happlied := getElem?_mapM_run (applyAt fs root o) hp s
  have hwritten := getElem?_mapM_run (writeOutcome outDir) happlied fs
  rw [transformFiles_eq]
  refine ⟨_, hwritten, ?_⟩
  rw [transformOne_run, oneByOne_run]
  obtain hsame | ⟨file, messages, exempted, error, hfile, hout, hplanned, hfailed⟩ :=
    writeOutcome_cases outDir
      ((applyAt fs root o p).run (((files.take i).mapM (applyAt fs root o)).run s).2).1
      (((((files.mapM (applyAt fs root o)).run s).1.take i).mapM (writeOutcome outDir)).run fs).2
  · exact .inl hsame
  · rw [← filename_of_applyAt hfile]
    exact .inr ⟨hout, ⟨messages, exempted, hplanned⟩, error, hfailed⟩

theorem transformFiles_none (files : List Path) (s : Store) :
    transformFiles files root o none s fs =
      (((oneByOne fs root o files).run s).1, ((oneByOne fs root o files).run s).2, fs) := by
  rw [transformFiles_eq, oneByOne_run]
  simp only [mapM_run_of_pure writeOutcome_none]

/-- The messages of a pass do not depend on where results are written, or whether they can be. -/
theorem store_transformFiles {fs' : FileSystem} {files : List Path}
    (h : ∀ p ∈ files, fs'.readText p = fs.readText p) (outDir outDir' : Option Path) (s : Store) :
    (transformFiles files root o outDir' s fs').2.1 =
      (transformFiles files root o outDir s fs).2.1 := by
  rw [transformFiles_eq, transformFiles_eq, mapM_applyAt_congr h]

variable (fs root o) in
theorem oneByOne_alike {s t : Store} (h : s.Alike t) (files : List Path) :
    ((oneByOne fs root o files).run s).1 = ((oneByOne fs root o files).run t).1 ∧
      ((oneByOne fs root o files).run s).2.Alike ((oneByOne fs root o files).run t).2 := by
  obtain ⟨hresults, hstore⟩ := mapM_applyAt_alike fs root o h files
  simp only [oneByOne_run]
  exact ⟨by rw [hresults], hstore⟩

theorem run_of_validate (ho : o.validate = .ok ()) (files : List Path) (outDir : Option Path)
    (s : Store) : run files root o outDir s fs =
      .ok (transformFiles files root o outDir s.clear fs) := by
  rw [run, ho]
  rfl

end Pass

end Phrasebook
