import Phrasebook.Proofs.Location
import Phrasebook.Proofs.Pass.Reports

/-!
# A pass keeps every call site

A message has the locations of its candidates. Files with different names have none in common, and
neither have two candidates of one file. So when all files are applied, the locations of all
messages are those of all candidates, each once (`perm_locations`): none is lost, none stands in two
messages, and there are as many of them as calls.
-/

namespace Phrasebook

/-- Where a candidate of a file stands. -/
def Candidate.location (filename : String) (c : Candidate) : Location := ⟨filename, c.line, c.col⟩

/-- How many calls a file got, as its outcome says. -/
def Outcome.messages : Outcome → Nat
  | .transformed messages _ => messages
  | .unchanged _ | .failed _ => 0

namespace Pass

variable {fs : FileSystem} {root : Path} {o : Options}

/-! ### The locations of candidates -/

variable (fs root o) in
/-- The locations of the candidates of a file. -/
def locationsAt (p : Path) : List Location :=
  (preparedAt fs root o p).candidates.map (Candidate.location (relativePath root p).slashed)

variable (root) in
/-- Different files have different names below the root. -/
def NamesApart (files : List Path) : Prop :=
  (files.map fun p => (relativePath root p).slashed).Nodup

instance (files : List Path) : Decidable (NamesApart root files) :=
  inferInstanceAs (Decidable (List.Nodup _))

theorem file_of_mem_locationsAt {p : Path} {l : Location} (h : l ∈ locationsAt fs root o p) :
    l.file = (relativePath root p).slashed := by
  obtain ⟨c, -, rfl⟩ := List.mem_map.mp h
  rfl

/-- No two candidates of a file have the same location. -/
theorem nodup_locationsAt (p : Path) : (locationsAt fs root o p).Nodup := by
  have hnodup : ((preparedAt fs root o p).candidates.map Candidate.position).Nodup := by
    cases hread : fs.readText p with
    | error fault =>
      rw [preparedAt, hread]
      exact .nil
    | ok source =>
      rw [preparedAt_of_readText hread]
      exact nodup_position_prepare _ _ _
  refine List.Nodup.of_map (fun l => (l.line, l.col)) ?_
  rwa [locationsAt, List.map_map]

section

variable {files : List Path} (hnames : NamesApart root files)
include hnames

/-- A location stands for one candidate of one file. -/
theorem eq_of_location {p p' : Path} (hp : p ∈ files) (hp' : p' ∈ files) {c c' : Candidate}
    (hc : c ∈ (preparedAt fs root o p).candidates)
    (hc' : c' ∈ (preparedAt fs root o p').candidates)
    (heq : c.location (relativePath root p).slashed =
      c'.location (relativePath root p').slashed) : c = c' := by
  obtain rfl : p = p' :=
    List.inj_on_of_nodup_map hnames hp hp' (congrArg Location.file heq)
  exact List.inj_on_of_nodup_map (nodup_locationsAt p) hc hc' heq

theorem nodup_locations : (files.flatMap (locationsAt fs root o)).Nodup := by
  refine List.nodup_flatMap.mpr ⟨fun p _ => nodup_locationsAt p, ?_⟩
  refine (List.pairwise_map.mp hnames).imp fun hne l hl hl' => hne ?_
  rw [← file_of_mem_locationsAt hl, file_of_mem_locationsAt hl']

/-! ### The locations of messages -/

variable {s : Store} (hc : s.Coherent) (ht : s.Tidy)
  (hs : s.Sums (files.flatMap fun p => (preparedAt fs root o p).reports))
include hc ht hs

omit hnames in
/-- A message has the locations of the candidates of its pair. -/
theorem mem_locations_iff {m : Message} (hm : m ∈ s.messages) {l : Location} :
    l ∈ m.locations ↔ ∃ p ∈ files, ∃ c ∈ (preparedAt fs root o p).candidates, c.key = m.key ∧
      l = c.location (relativePath root p).slashed := by
  rw [((hc.merges ht hs).locations m hm).2]
  constructor
  · rintro ⟨report, hreport, hkey, hl⟩
    obtain ⟨p, hp, hreport⟩ := List.mem_flatMap.mp hreport
    obtain ⟨c, hcandidate, rfl⟩ := List.mem_map.mp hreport
    rw [filename_preparedAt] at hl
    exact ⟨p, hp, c, hcandidate, hkey, List.mem_singleton.mp hl⟩
  · rintro ⟨p, hp, c, hcandidate, hkey, rfl⟩
    refine ⟨messageOf (preparedAt fs root o p).filename "" c,
      List.mem_flatMap.mpr ⟨p, hp, List.mem_map_of_mem hcandidate⟩, hkey, ?_⟩
    rw [filename_preparedAt]
    exact List.mem_singleton_self _

theorem pairwise_disjoint_locations :
    s.messages.Pairwise fun m m' => m.locations.Disjoint m'.locations := by
  refine List.Pairwise.imp_of_mem (fun {m m'} hm hm' (hlt : m.id < m'.id) l hl hl' => ?_)
    hc.ascending
  obtain ⟨p, hp, c, hcandidate, hkey, hl⟩ := (mem_locations_iff hc ht hs hm).mp hl
  obtain ⟨p', hp', c', hcandidate', hkey', hl'⟩ := (mem_locations_iff hc ht hs hm').mp hl'
  have hcc := eq_of_location hnames hp hp' hcandidate hcandidate' (hl.symm.trans hl')
  have hmm : m = m' := hc.eq_of_key hm hm' (by rw [← hkey, ← hkey', hcc])
  exact hlt.ne (congrArg Message.id hmm)

/-- The locations of all messages are those of all candidates, each once. -/
theorem perm_locations :
    (s.messages.flatMap (·.locations)).Perm (files.flatMap (locationsAt fs root o)) := by
  have hmerges := hc.merges ht hs
  have hnodup : (s.messages.flatMap (·.locations)).Nodup := List.nodup_flatMap.mpr
    ⟨fun m hm => (hmerges.locations m hm).1, pairwise_disjoint_locations hnames hc ht hs⟩
  refine (List.perm_ext_iff_of_nodup hnodup (nodup_locations hnames)).mpr fun l => ?_
  rw [List.mem_flatMap, List.mem_flatMap]
  constructor
  · rintro ⟨m, hm, hl⟩
    obtain ⟨p, hp, c, hcandidate, -, rfl⟩ := (mem_locations_iff hc ht hs hm).mp hl
    exact ⟨p, hp, List.mem_map_of_mem hcandidate⟩
  · rintro ⟨p, hp, hl⟩
    obtain ⟨c, hcandidate, rfl⟩ := List.mem_map.mp hl
    have hreport : messageOf (preparedAt fs root o p).filename "" c ∈
        files.flatMap fun p => (preparedAt fs root o p).reports :=
      List.mem_flatMap.mpr ⟨p, hp, List.mem_map_of_mem hcandidate⟩
    obtain ⟨m, ⟨hm, hkey⟩, -⟩ := hmerges.existsUnique _ hreport
    exact ⟨m, hm, (mem_locations_iff hc ht hs hm).mpr ⟨p, hp, c, hcandidate, hkey.symm, rfl⟩⟩

/-- There are as many locations as candidates. -/
theorem sum_length_locations : (s.messages.map (·.locations.length)).sum =
    (files.map fun p => (preparedAt fs root o p).candidates.length).sum := by
  have hlength := (perm_locations hnames hc ht hs).length_eq
  rw [List.length_flatMap, List.length_flatMap] at hlength
  simpa only [locationsAt, List.length_map] using hlength

end

/-! ### Outcomes -/

/-- A file that keeps its code gets no calls. -/
theorem messageCount_of_unchanged {p : Prepared} {source : String} {s : Store} {out : Output}
    (h : (p.apply source o s).1 = .ok out) (hmap : out.map = none) : out.messageCount = 0 := by
  by_cases hnil : p.candidates = []
  · rw [p.apply_of_nil source o hnil] at h
    rw [← Except.ok.inj h]
  · obtain ⟨ids, -, rfl⟩ := Prepared.exists_recordAll_of_apply hnil h
    cases hmap

theorem messages_outcomeOf_applyAt (p : Path) (s : Store) :
    (outcomeOf ((applyAt fs root o p).run s).1).messages =
      messageCount ((applyAt fs root o p).run s).1 := by
  cases hread : fs.readText p with
  | error fault =>
    rw [applyAt_unreadable hread]
    rfl
  | ok source =>
    rw [applyAt_readable hread]
    rcases ht : transform source (relativePath root p).slashed o s with ⟨e | out, s'⟩
    · rfl
    · cases hmap : out.map with
      | some map => simp only [outcomeOf, hmap, Outcome.messages, messageCount]
      | none =>
        have hcount := messageCount_of_unchanged (congrArg Prod.fst ht) hmap
        simp only [outcomeOf, hmap, Outcome.messages, messageCount, hcount]

theorem messages_outcomeOf_mapM (files : List Path) (s : Store) :
    ∀ x ∈ ((files.mapM (applyAt fs root o)).run s).1, (outcomeOf x).messages = messageCount x := by
  induction files generalizing s with
  | nil => exact nofun
  | cons p ps ih =>
    rw [mapM_run_cons]
    exact List.forall_mem_cons.mpr ⟨messages_outcomeOf_applyAt p s, ih _⟩

/-- When no result failed to be written, the outcomes tell the calls that the files got. -/
theorem map_messages_written {outDir : Option Path} {xs : List (Except Failure AppliedFile)}
    (hxs : ∀ x ∈ xs, (outcomeOf x).messages = messageCount x) {fs : FileSystem}
    (h : ∀ file error, .failed ⟨file, .unwritable error⟩ ∉
      ((xs.mapM (writeOutcome outDir)).run fs).1) :
    ((xs.mapM (writeOutcome outDir)).run fs).1.map Outcome.messages = xs.map messageCount := by
  induction xs generalizing fs with
  | nil => rfl
  | cons x xs ih =>
    obtain ⟨hx, hxs⟩ := List.forall_mem_cons.mp hxs
    rw [mapM_run_cons] at h ⊢
    simp only [List.mem_cons, not_or] at h
    have hrest := ih hxs fun file error => (h file error).2
    rw [List.map_cons, List.map_cons, hrest]
    rcases writeOutcome_cases outDir x fs with heq | ⟨file, -, -, error, -, -, -, heq⟩
    · rw [heq, hx]
    · exact absurd heq.symm (h _ error).1

theorem failed_mem_written {xs : List (Except Failure AppliedFile)} {failure : Failure}
    (h : .error failure ∈ xs) (outDir : Option Path) (fs : FileSystem) :
    .failed failure ∈ ((xs.mapM (writeOutcome outDir)).run fs).1 := by
  obtain ⟨i, hi⟩ := List.mem_iff_getElem?.mp h
  exact List.mem_of_getElem? (getElem?_mapM_run (writeOutcome outDir) hi fs)

/-! ### Passes -/

/-- A pass over files with different names conserves call sites, unless no id was left for one of
them. Then different messages have no location in common, the locations of all messages are those
of all candidates, and there are as many of them as calls in the results; so the outcomes say if
all results could be written. -/
theorem run_conserves (ho : o.validate = .ok ()) {files : List Path}
    (hnames : NamesApart root files) (outDir : Option Path) (s : Store) (fs : FileSystem) :
    ∃ outcomes s' fs', run files root o outDir s fs = .ok (outcomes, s', fs') ∧
      ((∀ file error, .failed ⟨file, .exhausted error⟩ ∉ outcomes) →
        s'.messages.Pairwise (fun m m' => m.locations.Disjoint m'.locations) ∧
        (∀ l, (∃ m ∈ s'.messages, l ∈ m.locations) ↔
          ∃ p ∈ files, ∃ c ∈ (preparedAt fs root o p).candidates,
            l = ⟨(relativePath root p).slashed, c.line, c.col⟩) ∧
        (∀ m ∈ s'.messages, m.locations.Nodup) ∧
        let count := (s'.messages.map (·.locations.length)).sum
        count = (((files.mapM (applyAt fs root o)).run s.clear).1.map messageCount).sum ∧
        ((∀ file error, .failed ⟨file, .unwritable error⟩ ∉ outcomes) →
          count = (outcomes.map Outcome.messages).sum)) := by
  have hclear := Store.Coherent.clear s
  refine ⟨_, _, _, by rw [run_of_validate ho, transformFiles_eq], fun hexhausted => ?_⟩
  have hok : ∀ x ∈ ((files.mapM (applyAt fs root o)).run s.clear).1, ¬ IsExhausted x := by
    -- a file without ids fails before anything is written, so its failure is an outcome
    rintro (⟨file, error⟩ | applied) hx hexhaust
    · obtain ⟨e, rfl⟩ := hexhaust
      exact hexhausted file e (failed_mem_written hx outDir fs)
    · exact hexhaust
  obtain ⟨hsums, hcounts⟩ := sums_mapM_applyAt hclear (Store.sums_empty rfl) hok
  rw [List.nil_append] at hsums
  have hsteps : Relation.ReflTransGen Store.Step s.clear
      ((files.mapM (applyAt fs root o)).run s.clear).2 := steps_mapM_applyAt hclear files
  have hcoherent := (hclear.steps hsteps).1
  have htidy : s.clear.Tidy := fun m hm => by cases hm
  replace htidy := htidy.steps hsteps
  have hsum := sum_length_locations hnames hcoherent htidy hsums
  rw [← hcounts] at hsum
  refine ⟨pairwise_disjoint_locations hnames hcoherent htidy hsums, fun l => ?_,
    fun m hm => ((hcoherent.merges htidy hsums).locations m hm).1, hsum, fun hwritten => ?_⟩
  · have hmem := (perm_locations hnames hcoherent htidy hsums).mem_iff (a := l)
    simpa only [List.mem_flatMap, locationsAt, List.mem_map, Candidate.location,
      eq_comm (b := l)] using hmem
  · rw [hsum, map_messages_written (messages_outcomeOf_mapM files s.clear) hwritten]

set_option maxRecDepth 100000 in
/-- Two files that share a message. In one of them it stands in the key of another one. -/
theorem run_conserves_menu :
    let fs : FileSystem := ⟨.directory [
      ("bar.ts", .file (.text "const m = \x7b open: () => \"Open\" \x7d;")),
      ("menu.ts", .file (.text
        "const m = \x7b [k(\x7b open: () => \"Open\" \x7d)]: () => \"Undo\" \x7d;"))], []⟩
    let files : List Path := [⟨"menu.ts"⟩, ⟨"bar.ts"⟩]
    ∃ outcomes s' fs', run files ⟨"/"⟩ {} none {} fs = .ok (outcomes, s', fs') ∧
      s'.messages.Pairwise (fun m m' => m.locations.Disjoint m'.locations) ∧
      s'.messages.map (·.locations) =
        [[⟨"menu.ts", 1, 13⟩], [⟨"bar.ts", 1, 13⟩, ⟨"menu.ts", 1, 18⟩]] ∧
      outcomes = [.transformed 2 0, .transformed 1 0] ∧
      (s'.messages.map (·.locations.length)).sum = (outcomes.map Outcome.messages).sum := by
  intro fs files
  have ho : ({} : Options).validate = .ok () := by decide +kernel
  have hnames : NamesApart ⟨"/"⟩ files := by decide +kernel
  obtain ⟨outcomes, s', fs', hrun, hconserved⟩ := run_conserves ho hnames none {} fs
  have hresult : (run files ⟨"/"⟩ {} none {} fs).map
      (fun r => (r.1, r.2.1.messages.map (·.locations))) =
        .ok ([.transformed 2 0, .transformed 1 0],
          [[⟨"menu.ts", 1, 13⟩], [⟨"bar.ts", 1, 13⟩, ⟨"menu.ts", 1, 18⟩]]) := by decide +kernel
  rw [hrun] at hresult
  obtain ⟨rfl, hlocations⟩ := Prod.mk.inj (Except.ok.inj hresult)
  obtain ⟨hdisjoint, -, -, -, hcount⟩ := hconserved (by simp)
  exact ⟨_, s', fs', hrun, hdisjoint, hlocations, rfl, hcount (by simp)⟩

end Pass

end Phrasebook
