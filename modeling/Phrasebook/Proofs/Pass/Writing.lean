import Phrasebook.Proofs.FileSystem
import Phrasebook.Proofs.Pass

/-!
# Where a pass writes

The result of a file goes where the steps of the file below the root lead to from the output
directory, and its map beside it (`outputs`). Writing one result changes nothing else, also where
it fails (`writeResult_onlyChanges`), and hence neither does a pass. A result lies below the output
directory if the steps of its file never lead out of where they begin (`below_of_mem_outputs`); they
do for a file outside of the root, and then a pass may write over a source (`run_parentBehindRoot`).
-/

namespace Phrasebook.Pass

open FileM (after)
open FileSystem (OnlyChanges)

/-! ### One result -/

/-- The result of a file and the map beside it, by the steps of the file below a directory. -/
def outputs (dir : Address) (steps : List Path.Component) : Set Address :=
  {a | ∃ front n, steps = front ++ [.name n] ∧
    (a = resolve dir front ++ [n] ∨ a = resolve dir front ++ [n ++ ".map"])}

theorem name_concat_inj {front front' : List Path.Component} {n n' : String}
    (h : front ++ [.name n] = front' ++ [.name n']) : front = front' ∧ n = n' := by
  obtain ⟨hfront, hname⟩ := List.append_inj' h rfl
  exact ⟨hfront, Path.Component.name.inj (List.singleton_inj.mp hname)⟩

theorem createFile_eq (p : Path) (s : String) (fs : FileSystem) : FileM.createFile p s fs =
    match fs.writeText p s with
    | .ok fs' => .ok () fs'
    | .error e => .error (.file p e) fs := by
  simp only [FileM.createFile, EStateM.adaptExcept, FileM.writeText, FileM.lift]
  cases fs.writeText p s <;> rfl

theorem createParent_eq_error {p : Path} {e : WriteError} {fs fs' : FileSystem}
    (h : FileM.createParent p fs = .error e fs') : ∃ dir fault, e = .directory dir fault := by
  unfold FileM.createParent at h
  cases hparent : p.parent? with
  | none =>
    rw [hparent] at h
    cases h
  | some dir =>
    rw [hparent] at h
    simp only [EStateM.adaptExcept] at h
    cases hmade : FileM.makeDirectories dir fs with
    | ok _ made =>
      rw [hmade] at h
      cases h
    | error fault made =>
      rw [hmade] at h
      cases h
      exact ⟨dir, fault, rfl⟩

theorem writeText_onlyChanges {fs fs' : FileSystem} {p : Path} {s : String} {S : Set Address}
    (h : fs.writeText p s = .ok fs')
    (hS : ∀ front n, p.steps = front ++ [.name n] →
      resolve fs.workingDirectory front ++ [n] ∈ S) : OnlyChanges S fs fs' := by
  obtain ⟨front, n, hsteps, -, hdirectory, hcontent⟩ := FileSystem.writeText_eq_ok h
  refine ⟨hdirectory, fun a ha => ?_, fun a ha => ?_⟩
  · rw [hcontent, if_neg]
    rintro rfl
    exact ha (hS front n hsteps)
  · rw [hcontent]
    split
    · rfl
    · exact ha

/-- The name of the map of a result, which stands beside it. -/
def mapName (target : Path) : String := target.fileName?.getD "" ++ ".map"

def mapPath (target : Path) : Path := target.withFileName (mapName target)

theorem writeResult_eq (target : Path) (code : String) (map : SourceMap) :
    writeResult target code map = (do
      FileM.createParent target
      FileM.createFile target (withMapLink code (mapName target))
      FileM.createFile (mapPath target) map.toJson.compact) := rfl

theorem isName_map {target : Path} {front : List Path.Component} {n : String}
    (h : target.steps = front ++ [.name n]) : Path.IsName (n ++ ".map") :=
  (Path.isName_of_mem_steps (p := target) (by simp [h])).append (by decide) (by decide)

theorem mapName_eq {target : Path} {front : List Path.Component} {n : String}
    (h : target.steps = front ++ [.name n]) : mapName target = n ++ ".map" := by
  rw [mapName, Path.fileName?_of_steps h]
  rfl

theorem steps_mapPath {target : Path} {front : List Path.Component} {n : String}
    (h : target.steps = front ++ [.name n]) :
    (mapPath target).steps = front ++ [.name (n ++ ".map")] := by
  rw [mapPath, mapName_eq h]
  exact (Path.steps_withFileName h (isName_map h)).2

/-- All that writing a result can do: it stops at the directories, at the result or at the map, or
it writes both. -/
theorem writeResult_cases (target : Path) (code : String) (map : SourceMap) (fs : FileSystem) :
    ∃ made, OnlyChanges ∅ fs made ∧
      ((∃ dir fault, writeResult target code map fs = .error (.directory dir fault) made) ∨
      (∃ fault, writeResult target code map fs = .error (.file target fault) made) ∨
      ∃ written, made.writeText target (withMapLink code (mapName target)) = .ok written ∧
        ((∃ fault, written.writeText (mapPath target) map.toJson.compact = .error fault ∧
            writeResult target code map fs = .error (.file (mapPath target) fault) written) ∨
          ∃ done, written.writeText (mapPath target) map.toJson.compact = .ok done ∧
            writeResult target code map fs = .ok () done)) := by
  refine ⟨_, FileM.keepsFiles_createParent target fs, ?_⟩
  unfold after
  rw [writeResult_eq]
  simp only [bind, EStateM.bind, createFile_eq]
  cases hparent : FileM.createParent target fs with
  | error e made =>
    obtain ⟨dir, fault, rfl⟩ := createParent_eq_error hparent
    exact .inl ⟨dir, fault, rfl⟩
  | ok _ made =>
    simp only
    cases hcode : made.writeText target (withMapLink code (mapName target)) with
    | error fault => exact .inr (.inl ⟨fault, rfl⟩)
    | ok written =>
      refine .inr (.inr ⟨written, rfl, ?_⟩)
      simp only
      cases hmap : written.writeText (mapPath target) map.toJson.compact with
      | error fault => exact .inl ⟨fault, rfl, rfl⟩
      | ok done => exact .inr ⟨done, rfl, rfl⟩

/-- Whatever becomes of it, writing a result changes the result and its map only, and nothing at
all when its path asks for a directory. -/
theorem writeResult_onlyChanges (target : Path) (code : String) (map : SourceMap)
    (fs : FileSystem) :
    OnlyChanges {a | ¬ target.namesDirectory = true ∧
        a ∈ outputs fs.workingDirectory target.steps}
      fs (after (writeResult target code map) fs) := by
  obtain ⟨made, hmade, hresult⟩ := writeResult_cases target code map fs
  have hstart := hmade.mono (Set.empty_subset
    {a | ¬ target.namesDirectory = true ∧ a ∈ outputs fs.workingDirectory target.steps})
  unfold after
  obtain ⟨dir, fault, he⟩ | ⟨fault, he⟩ | ⟨written, hcode, hresult⟩ := hresult
  · rwa [he]
  · rwa [he]
  obtain ⟨front, n, hsteps, hnames, hdirectory, -⟩ := FileSystem.writeText_eq_ok hcode
  have hwritten := hstart.trans (writeText_onlyChanges hcode fun front' n' h => by
    rw [hmade.workingDirectory]
    exact ⟨hnames, front', n', h, .inl rfl⟩)
  obtain ⟨fault, -, he⟩ | ⟨done, hmap, hdone⟩ := hresult
  · rwa [he]
  rw [hdone]
  refine hwritten.trans (writeText_onlyChanges hmap fun front' n' h => ?_)
  -- the map lies beside the result, so its name is the other one of the two
  rw [steps_mapPath hsteps] at h
  obtain ⟨rfl, rfl⟩ := name_concat_inj h
  rw [hwritten.workingDirectory]
  exact ⟨hnames, front, n, hsteps, .inr rfl⟩

/-- A result that was written is there behind it, and its map as well. -/
theorem outputs_of_writeResult {target : Path} {code : String} {map : SourceMap}
    {fs fs' : FileSystem} (h : writeResult target code map fs = .ok () fs') :
    ¬ target.namesDirectory = true ∧ ∃ front n, target.steps = front ++ [.name n] ∧
      (fs'.contentAt (resolve fs.workingDirectory front ++ [n])).isSome ∧
      (fs'.contentAt (resolve fs.workingDirectory front ++ [n ++ ".map"])).isSome := by
  obtain ⟨made, hmade, hresult⟩ := writeResult_cases target code map fs
  rw [h] at hresult
  obtain ⟨dir, fault, he⟩ | ⟨fault, he⟩ | ⟨written, hcode, hresult⟩ := hresult
  · cases he
  · cases he
  obtain ⟨fault, -, he⟩ | ⟨done, hmap, hdone⟩ := hresult
  · cases he
  cases hdone
  obtain ⟨front, n, hsteps, hnames, hdirectory, hcontent⟩ := FileSystem.writeText_eq_ok hcode
  obtain ⟨front', n', hsteps', -, -, hcontent'⟩ := FileSystem.writeText_eq_ok hmap
  rw [steps_mapPath hsteps] at hsteps'
  obtain ⟨rfl, rfl⟩ := name_concat_inj hsteps'
  rw [hdirectory, hmade.workingDirectory] at hcontent'
  rw [hmade.workingDirectory] at hcontent
  refine ⟨hnames, front, n, hsteps, ?_, ?_⟩
  · rw [hcontent']
    split
    · rfl
    · rw [hcontent, if_pos rfl]
      rfl
  · rw [hcontent', if_pos rfl]
    rfl

/-! ### Results below the output directory -/

/-- The steps of a file below the root, or all of them if it is not there. -/
def relativeSteps (root p : Path) : List Path.Component :=
  (if p.isUnder root then p.components.drop root.components.length else p.components).filter
    (· ≠ .current)

theorem relativePath_eq (root p : Path) :
    ∃ q : Path, relativePath root p = .ofComponents q.steps ∧ q.steps = relativeSteps root p := by
  refine ⟨(p.relativeTo? root).getD p, ?_, ?_⟩
  · rw [relativePath, Path.steps_eq_filter]
  · rw [relativeSteps]
    cases h : p.relativeTo? root with
    | some q =>
      have hunder : p.isUnder root = true := by
        by_contra hnot
        simp [Path.relativeTo?, hnot] at h
      rw [if_pos hunder, Option.getD_some, Path.steps_relativeTo? h]
    | none =>
      have hnot : ¬ p.isUnder root = true := by
        intro hunder
        rw [Path.relativeTo?, hunder] at h
        simp only [Bool.not_true, Bool.false_eq_true, if_false] at h
        split at h <;> cases h
      rw [if_neg hnot, Option.getD_none, Path.steps_eq_filter]

theorem steps_relativePath (root p : Path) :
    (relativePath root p).steps = relativeSteps root p := by
  obtain ⟨q, hpath, hsteps⟩ := relativePath_eq root p
  rw [hpath, Path.steps_ofComponents, hsteps]

theorem relativePath_of_nil {root p : Path} (h : relativeSteps root p = []) :
    relativePath root p = ⟨""⟩ := by
  obtain ⟨q, hpath, hsteps⟩ := relativePath_eq root p
  rw [hpath, hsteps, h]
  rfl

/-- A name to which a file is joined below a directory is one of the file. -/
theorem steps_of_join (base : Address) {dir root p : Path} {front : List Path.Component}
    {n : String} (h : (dir.join (relativePath root p).text).steps = front ++ [.name n])
    (hnames : ¬ (dir.join (relativePath root p).text).namesDirectory = true) :
    ∃ front', relativeSteps root p = front' ++ [.name n] ∧
      resolve base front = resolve (resolve base dir.steps) front' := by
  -- a file that has no name itself gets none below a directory
  obtain hnil | ⟨front', last, hlast⟩ := List.eq_nil_or_concat (relativeSteps root p)
  · exfalso
    rw [relativePath_of_nil hnil] at h hnames
    by_cases hdir : dir.text = ""
    · have hjoin : dir.join "" = ⟨""⟩ := by simp [Path.join, hdir]
      have hempty : (Path.mk "").steps = [] := by decide
      rw [hjoin, hempty] at h
      simp at h
    · exact hnames (Path.namesDirectory_join_nil hdir)
  rw [List.concat_eq_append] at hlast
  have hrelative : (Path.mk (relativePath root p).text).steps = front' ++ [last] := by
    rw [Path.mk_text, steps_relativePath, hlast]
  rw [Path.steps_join] at h
  split at h
  · rename_i habsolute
    rw [hrelative] at h
    obtain ⟨rfl, hname⟩ := List.append_inj' h rfl
    obtain rfl := List.singleton_inj.mp hname
    refine ⟨front', hlast, ?_⟩
    -- an absolute path replaces the directory, and its way begins at the root wherever it starts
    rw [Path.steps_of_isAbsolute habsolute] at hrelative
    cases front' with
    | nil => simp at hrelative
    | cons c cs =>
      obtain rfl := (List.cons.inj hrelative).1
      rw [resolve, resolve]
  · rw [hrelative, ← List.append_assoc] at h
    obtain ⟨rfl, hname⟩ := List.append_inj' h rfl
    obtain rfl := List.singleton_inj.mp hname
    exact ⟨front', hlast, resolve_append _ _ _⟩

theorem outputs_of_join {base a : Address} {dir root p : Path}
    (h : a ∈ outputs base (dir.join (relativePath root p).text).steps)
    (hnames : ¬ (dir.join (relativePath root p).text).namesDirectory = true) :
    a ∈ outputs (resolve base dir.steps) (relativeSteps root p) := by
  obtain ⟨front, n, hsteps, ha⟩ := h
  obtain ⟨front', hsteps', hresolve⟩ := steps_of_join base hsteps hnames
  exact ⟨front', n, hsteps', hresolve ▸ ha⟩

/-- Whether components never lead out of `n` directories above where they begin. -/
def staysBelow : Nat → List Path.Component → Bool
  | _, [] => true
  | _, .root :: _ => false
  | n, .current :: cs => staysBelow n cs
  | 0, .parent :: _ => false
  | n + 1, .parent :: cs => staysBelow n cs
  | n, .name _ :: cs => staysBelow (n + 1) cs

theorem resolve_of_staysBelow {base below : Address} {cs ds : List Path.Component}
    (h : staysBelow below.length (cs ++ ds) = true) : base <+: resolve (base ++ below) cs := by
  -- `below` is how far the way has come below the base, which it never climbs over
  induction cs generalizing below with
  | nil => exact List.prefix_append base below
  | cons c cs ih =>
    cases c with
    | root => simp [staysBelow] at h
    | current => exact ih h
    | parent =>
      obtain rfl | ⟨front, last, rfl⟩ := List.eq_nil_or_concat below
      · simp [staysBelow] at h
      · rw [List.concat_eq_append] at h ⊢
        rw [List.length_append] at h
        have hdrop : (base ++ (front ++ [last])).dropLast = base ++ front := by
          rw [← List.append_assoc, List.dropLast_concat]
        rw [resolve, hdrop]
        exact ih h
    | name n =>
      rw [resolve, List.append_assoc]
      exact ih (by simpa [staysBelow] using h)

/-- The results of files that do not lead out of where they begin lie below the directory. -/
theorem below_of_mem_outputs {dir a : Address} {steps : List Path.Component}
    (h : staysBelow 0 steps = true) (ha : a ∈ outputs dir steps) : dir <+: a ∧ a ≠ dir := by
  obtain ⟨front, n, rfl, ha⟩ := ha
  have hfront : dir <+: resolve (dir ++ []) front := resolve_of_staysBelow h
  rw [List.append_nil] at hfront
  obtain ⟨rest, hrest⟩ := hfront
  rw [← hrest] at ha
  rcases ha with rfl | rfl
  · exact ⟨⟨rest ++ [n], by rw [List.append_assoc]⟩, by simp⟩
  · exact ⟨⟨rest ++ [n ++ ".map"], by rw [List.append_assoc]⟩, by simp⟩

/-! ### All results -/

variable {fs : FileSystem} {root : Path} {o : Options}

theorem path_of_applyAt {p : Path} {s : Store} {file : AppliedFile}
    (h : ((applyAt fs root o p).run s).1 = .ok file) : file.path = relativePath root p := by
  cases hread : fs.readText p with
  | error fault =>
    rw [applyAt_unreadable hread] at h
    simp at h
  | ok source =>
    rw [applyAt_readable hread] at h
    rcases ht : transform source (relativePath root p).slashed o s with ⟨e | out, s'⟩ <;>
      rw [ht] at h <;> simp only [reduceCtorEq, Except.ok.injEq] at h
    rw [← h]

/-- Writing one outcome changes what belongs to its file. -/
theorem writeOutcome_onlyChanges {S : Set Address} {dir : Path}
    {x : Except Failure AppliedFile}
    (hS : ∀ file, x = .ok file → ∃ p, file.path = relativePath root p ∧
      outputs (resolve fs.workingDirectory dir.steps) (relativeSteps root p) ⊆ S) :
    OnlyChanges S fs ((writeOutcome (some dir) x).run fs).2 := by
  cases x with
  | error failure => exact .refl S fs
  | ok file =>
    obtain ⟨p, hpath, hp⟩ := hS file rfl
    simp only [writeOutcome, writeFile, StateT.run]
    cases file.output.map with
    | none => exact .refl S fs
    | some map =>
      have hresult := (writeResult_onlyChanges (dir.join file.path.text) file.output.code map
        fs).mono (T := S) fun a ha => hp (outputs_of_join (hpath ▸ ha.2) (hpath ▸ ha.1))
      unfold after at hresult
      simp only
      cases hrun : writeResult (dir.join file.path.text) file.output.code map fs <;>
        rwa [hrun] at hresult

/-- What was written for a file that was transformed is there. -/
theorem outputs_of_writeOutcome {dir p : Path} {x : Except Failure AppliedFile}
    (hx : ∀ file, x = .ok file → file.path = relativePath root p) {messages exempted : Nat}
    (h : ((writeOutcome (some dir) x).run fs).1 = .transformed messages exempted) :
    ∃ front n, relativeSteps root p = front ++ [.name n] ∧
      let out := resolve (resolve fs.workingDirectory dir.steps) front
      ((((writeOutcome (some dir) x).run fs).2.contentAt (out ++ [n])).isSome ∧
        (((writeOutcome (some dir) x).run fs).2.contentAt (out ++ [n ++ ".map"])).isSome) := by
  cases x with
  | error failure => cases h
  | ok file =>
    have hpath := hx file rfl
    simp only [writeOutcome, writeFile, StateT.run] at h ⊢
    cases hmap : file.output.map with
    | none =>
      rw [hmap] at h
      cases h
    | some map =>
      rw [hmap] at h
      simp only at h ⊢
      cases hrun : writeResult (dir.join file.path.text) file.output.code map fs with
      | error error fs' =>
        rw [hrun] at h
        cases h
      | ok _ fs' =>
        -- the file was written, which is the only way in which it is transformed
        obtain ⟨hnames, front, n, hsteps, hcode, hmap'⟩ := outputs_of_writeResult hrun
        rw [hpath] at hnames hsteps
        obtain ⟨front', hsteps', hresolve⟩ :=
          steps_of_join fs.workingDirectory hsteps hnames
        rw [hresolve] at hcode hmap'
        exact ⟨front', n, hsteps', hcode, hmap'⟩

variable (root) in
/-- All results are written as one is. -/
theorem mapM_writeOutcome_onlyChanges {S : Set Address} {dir : Path}
    {xs : List (Except Failure AppliedFile)}
    (hS : ∀ file, .ok file ∈ xs → ∃ p, file.path = relativePath root p ∧
      outputs (resolve fs.workingDirectory dir.steps) (relativeSteps root p) ⊆ S) :
    OnlyChanges S fs ((xs.mapM (writeOutcome (some dir))).run fs).2 := by
  induction xs generalizing fs with
  | nil => exact .refl S fs
  | cons x xs ih =>
    have hfirst : OnlyChanges S fs ((writeOutcome (some dir) x).run fs).2 :=
      writeOutcome_onlyChanges fun file hx => hS file (hx ▸ List.mem_cons_self)
    rw [mapM_run_cons]
    refine hfirst.trans (ih fun file hfile => ?_)
    rw [hfirst.workingDirectory]
    exact hS file (List.mem_cons_of_mem x hfile)

variable (fs root o) in
/-- A file that could be applied has the path of one of the files. -/
theorem path_of_mem_mapM {files : List Path} {s : Store} {file : AppliedFile}
    (h : .ok file ∈ ((files.mapM (applyAt fs root o)).run s).1) :
    ∃ p ∈ files, file.path = relativePath root p := by
  obtain ⟨p, hp, s', hfile⟩ := mem_mapM_run _ h
  exact ⟨p, hp, path_of_applyAt hfile⟩

theorem onlyChanges_transformFiles (files : List Path) (root : Path) (o : Options) (dir : Path)
    (s : Store) (fs : FileSystem) :
    OnlyChanges {a | ∃ p ∈ files,
        a ∈ outputs (resolve fs.workingDirectory dir.components) (relativeSteps root p)}
      fs (transformFiles files root o (some dir) s fs).2.2 := by
  rw [transformFiles_eq]
  refine mapM_writeOutcome_onlyChanges root fun file hfile => ?_
  obtain ⟨p, hp, hpath⟩ := path_of_mem_mapM fs root o hfile
  rw [resolve_steps]
  exact ⟨p, hpath, fun a ha => ⟨p, hp, ha⟩⟩

/-- What is written for a file is not taken away by what is written for those behind it. -/
theorem outputs_transformFiles {files : List Path} {dir p : Path} {s : Store} {i : Nat}
    {messages exempted : Nat} (hp : files[i]? = some p)
    (h : (transformFiles files root o (some dir) s fs).1[i]? =
      some (.transformed messages exempted)) :
    ∃ front n, relativeSteps root p = front ++ [.name n] ∧
      let fs' := (transformFiles files root o (some dir) s fs).2.2
      let place := resolve (resolve fs.workingDirectory dir.components) front
      (fs'.contentAt (place ++ [n])).isSome ∧ (fs'.contentAt (place ++ [n ++ ".map"])).isSome := by
  rw [transformFiles_eq] at h ⊢
  have happlied := getElem?_mapM_run (applyAt fs root o) hp s
  simp only at h ⊢
  rw [getElem?_mapM_run _ happlied, Option.some.injEq] at h
  have hpaths : ∀ xs : List (Except Failure AppliedFile),
      xs ⊆ ((files.mapM (applyAt fs root o)).run s).1 → ∀ fs₁,
      OnlyChanges Set.univ fs₁ ((xs.mapM (writeOutcome (some dir))).run fs₁).2 := by
    intro xs hxs fs₁
    refine mapM_writeOutcome_onlyChanges root fun file hfile => ?_
    obtain ⟨p, -, hpath⟩ := path_of_mem_mapM fs root o (hxs hfile)
    exact ⟨p, hpath, Set.subset_univ _⟩
  -- the results in front of it and behind it change places, but they take no file away
  have hbefore := hpaths _ (List.take_subset i _) fs
  obtain ⟨front, n, hsteps, hcode, hmap⟩ :=
    outputs_of_writeOutcome (fun file hfile => path_of_applyAt hfile) h
  rw [hbefore.workingDirectory, resolve_steps] at hcode hmap
  have hafter := hpaths _ (List.drop_subset (i + 1) _)
  refine ⟨front, n, hsteps, ?_, ?_⟩
  · rw [snd_mapM_run _ happlied]
    exact (hafter _).kept _ hcode
  · rw [snd_mapM_run _ happlied]
    exact (hafter _).kept _ hmap

/-- All that a pass writes are the results of its files below the output directory and their
maps, so nothing at all without one. What lies elsewhere stays as it is if no file leads out of
the output directory, be it by `..` or by a root of its own. Each file that was transformed has
its result and its map there. -/
theorem contentAt_run (ho : o.validate = .ok ()) (files : List Path) (root : Path)
    (outDir : Option Path) (s : Store) (fs : FileSystem) :
    ∃ outcomes s' fs', run files root o outDir s fs = .ok (outcomes, s', fs') ∧
      (outDir = none → fs' = fs) ∧
      ∀ dir, outDir = some dir →
        let out := resolve fs.workingDirectory dir.components
        (∀ a, fs'.contentAt a ≠ fs.contentAt a →
          ∃ p ∈ files, a ∈ outputs out (relativeSteps root p)) ∧
        ((∀ p ∈ files, staysBelow 0 (relativeSteps root p) = true) →
          ∀ a, ¬ (out <+: a ∧ a ≠ out) → fs'.contentAt a = fs.contentAt a) ∧
        ∀ (i : Nat) p messages exempted, files[i]? = some p →
          outcomes[i]? = some (.transformed messages exempted) →
          ∃ front n, relativeSteps root p = front ++ [.name n] ∧
            (fs'.contentAt (resolve out front ++ [n])).isSome ∧
            (fs'.contentAt (resolve out front ++ [n ++ ".map"])).isSome := by
  refine ⟨(transformFiles files root o outDir s.clear fs).1,
    (transformFiles files root o outDir s.clear fs).2.1,
    (transformFiles files root o outDir s.clear fs).2.2,
    run_of_validate ho files outDir s, ?_, ?_⟩
  · rintro rfl
    rw [transformFiles_none]
  · rintro dir rfl out
    have hchanges := onlyChanges_transformFiles files root o dir s.clear fs
    refine ⟨fun a ha => by_contra fun hnot => ha (hchanges.content a hnot),
      fun hbelow a ha => hchanges.content a ?_, fun i p messages exempted hp hi =>
        outputs_transformFiles hp hi⟩
    rintro ⟨p, hp, hmem⟩
    exact ha (below_of_mem_outputs (hbelow p hp) hmem)

set_option maxRecDepth 100000 in
theorem contentAt_run_menu :
    let menu := Entry.file (.text "const m = \x7b undo: () => \"Undo\" \x7d;")
    let project := Entry.directory [("src", .directory [("menu.ts", menu)])]
    let fs : FileSystem := ⟨.directory [("project", project)], ["project"]⟩
    ∃ outcomes s' fs', run [⟨"./src/menu.ts"⟩] ⟨"."⟩ {} (some ⟨"dist"⟩) {} fs =
        .ok (outcomes, s', fs') ∧
      (∀ a, ¬ (["project", "dist"] <+: a ∧ a ≠ ["project", "dist"]) →
        fs'.contentAt a = fs.contentAt a) ∧
      (fs'.contentAt ["project", "dist", "src", "menu.ts"]).isSome ∧
      (fs'.contentAt ["project", "dist", "src", "menu.ts.map"]).isSome := by
  intro menu project fs
  obtain ⟨outcomes, s', fs', hrun, -, hdir⟩ := contentAt_run (o := {}) (by decide +kernel)
    [⟨"./src/menu.ts"⟩] ⟨"."⟩ (some ⟨"dist"⟩) {} fs
  obtain ⟨-, hbelow, houtputs⟩ := hdir ⟨"dist"⟩ rfl
  have hout : resolve fs.workingDirectory (Path.mk "dist").components = ["project", "dist"] := by
    decide +kernel
  have hsteps : relativeSteps ⟨"."⟩ ⟨"./src/menu.ts"⟩ = [.name "src"] ++ [.name "menu.ts"] := by
    decide +kernel
  have houtcomes : (run [⟨"./src/menu.ts"⟩] ⟨"."⟩ {} (some ⟨"dist"⟩) {} fs).toOption.map (·.1) =
      some [.transformed 1 0] := by decide +kernel
  rw [hrun] at houtcomes
  obtain rfl := Option.some.inj houtcomes
  rw [hout] at hbelow houtputs
  refine ⟨_, s', fs', hrun, hbelow ?_, ?_⟩
  · simp only [List.forall_mem_singleton, hsteps]
    decide
  · obtain ⟨front, n, hfront, hcode, hmap⟩ := houtputs 0 _ 1 0 rfl rfl
    obtain ⟨rfl, rfl⟩ := name_concat_inj (hsteps.symm.trans hfront)
    exact ⟨hcode, hmap⟩

set_option maxRecDepth 100000 in
/-- A file that is found by `..` behind the root is written over by its own result. -/
theorem run_parentBehindRoot :
    let source := "const m = \x7b a: () => \"A\" \x7d;\n"
    let lib := Entry.directory [("a.ts", .file (.text source))]
    let fs : FileSystem := ⟨.directory [("lib", lib), ("web", .directory [])], []⟩
    ∃ outcomes s' fs', run [⟨"web/../lib/a.ts"⟩] ⟨"web"⟩ {} (some ⟨"dist"⟩) {} fs =
        .ok (outcomes, s', fs') ∧
      outcomes = [.transformed 1 0] ∧
      ¬ resolve fs.workingDirectory (Path.mk "dist").components <+: ["lib", "a.ts"] ∧
      fs.contentAt ["lib", "a.ts"] = some (.text source) ∧
      fs'.contentAt ["lib", "a.ts"] ≠ fs.contentAt ["lib", "a.ts"] := by
  intro source lib fs
  refine ⟨_, _, _, run_of_validate (o := {}) (by decide +kernel) [⟨"web/../lib/a.ts"⟩]
    (some ⟨"dist"⟩) {}, ?_, ?_, ?_, ?_⟩
  all_goals decide +kernel

end Phrasebook.Pass
