import Phrasebook.Proofs.FileSystem.Directory
import Phrasebook.Proofs.Pass.Writing

/-!
# Files that fail

A file that cannot be read or applied writes nothing. Writing its result stops at the directories,
at the result or at the map; only there something is left behind, and only a directory in the place
of the map stops it there (`writeResult_eq_error`). A pass writes the result of a file between those
of others (`exists_transformFiles_at`), which have other places if all files have names of their own
(`not_isOfOther`).
-/

namespace Phrasebook.Pass

open FileSystem (OnlyChanges)

/-! ### One result that fails -/

theorem mapPath_ne (target : Path) : mapPath target ≠ target := by
  intro heq
  have hsteps := congrArg Path.steps heq
  cases hfile : target.fileName? with
  | none =>
    have hmap : mapPath target = target.join ".map" := by
      simp [mapPath, mapName, Path.withFileName, hfile]
    rw [hmap, Path.steps_join_name target (by decide)] at hsteps
    simp at hsteps
  | some n =>
    obtain ⟨front, hfront⟩ := Path.steps_of_fileName? hfile
    rw [steps_mapPath hfront, hfront] at hsteps
    obtain ⟨-, hname⟩ := name_concat_inj hsteps
    have hlength := congrArg (·.toList.length) hname
    simp at hlength

/-- A map cannot be written beside its result only where a directory has its name. -/
theorem writeText_map_eq_error {made written : FileSystem} {target : Path} {linked text : String}
    {fault : FileFault} (hcode : made.writeText target linked = .ok written)
    (hmap : written.writeText (mapPath target) text = .error fault) :
    fault = .isDirectory ∧ ∃ front n, target.steps = front ++ [.name n] ∧
      ∃ es, written.tree.at? (resolve made.workingDirectory front ++ [n ++ ".map"]) =
        some (.directory es) := by
  obtain ⟨front, n, hsteps, -, hworking, -⟩ := FileSystem.writeText_eq_ok hcode
  obtain ⟨a, hlocate, -⟩ := FileSystem.writeText_eq_put hcode
  have hwritten : written.locate target = .ok a :=
    FileSystem.locate_mono hworking (fun _ => FileSystem.directoryAt_writeText hcode) hlocate
  obtain ⟨htext, -⟩ := FileSystem.follow_of_locate hlocate
  -- the name of the map is that of the result with an ending, so it can be a name as well
  have hnull : (n ++ ".map").toList.any (·.toNat == 0) = false := by
    obtain ⟨front', hbody, -⟩ := Path.body_of_steps hsteps
    have hsubset : n.toList ⊆ target.text.toList :=
      Path.subset_of_mem_body (hbody ▸ List.mem_concat_self)
    rw [String.toList_append, List.any_append, Bool.or_eq_false_iff]
    refine ⟨List.any_eq_false.mpr fun c hc => ?_, by decide⟩
    exact List.any_eq_false.mp htext c (hsubset hc)
  have hplace := FileSystem.locate_withFileName hwritten hsteps (isName_map hsteps) hnull
  rw [← mapName_eq hsteps] at hplace
  have hnames : (mapPath target).namesDirectory = false :=
    Path.namesDirectory_join_name _ (mapName_eq hsteps ▸ isName_map hsteps)
  obtain ⟨rfl, hdirectory⟩ := FileSystem.writeText_eq_error hplace hnames hmap
  rw [hworking, mapName_eq hsteps] at hdirectory
  exact ⟨rfl, front, n, hsteps, hdirectory⟩

/-- A result that could not be written has changed nothing, unless it is its map that a directory
was in the way of: then the result is there without it. -/
theorem writeResult_eq_error {target : Path} {code : String} {map : SourceMap} {e : WriteError}
    {fs fs' : FileSystem} (h : writeResult target code map fs = .error e fs') :
    OnlyChanges ∅ fs fs' ∧ (∀ fault, e ≠ .file (mapPath target) fault) ∨
      e = .file (mapPath target) .isDirectory ∧ ¬ target.namesDirectory = true ∧
        ∃ front n, target.steps = front ++ [.name n] ∧
          let place := resolve fs.workingDirectory front
          OnlyChanges {place ++ [n]} fs fs' ∧
          fs'.contentAt (place ++ [n]) = some (.text (withMapLink code (n ++ ".map"))) ∧
          fs'.contentAt (place ++ [n ++ ".map"]) = none := by
  obtain ⟨made, hmade, hresult⟩ := writeResult_cases target code map fs
  rw [h] at hresult
  obtain ⟨dir, fault, he⟩ | ⟨fault, he⟩ | ⟨written, hcode, hresult⟩ := hresult
  · cases he
    exact .inl ⟨hmade, fun fault => WriteError.noConfusion⟩
  · cases he
    refine .inl ⟨hmade, fun fault heq => mapPath_ne target ?_⟩
    exact (WriteError.file.inj heq).1.symm
  -- the result is there already, and only its map could not be written
  obtain ⟨fault, hmap, he⟩ | ⟨done, -, hdone⟩ := hresult
  · cases he
    obtain ⟨rfl, front, n, hsteps, es, hes⟩ := writeText_map_eq_error hcode hmap
    obtain ⟨front', n', hsteps', hnames, -, hcontent⟩ := FileSystem.writeText_eq_ok hcode
    obtain ⟨rfl, rfl⟩ := name_concat_inj (hsteps.symm.trans hsteps')
    rw [hmade.workingDirectory] at hes hcontent
    refine .inr ⟨rfl, hnames, front, n, hsteps, ?_, ?_, ?_⟩
    · refine (hmade.mono (Set.empty_subset _)).trans (writeText_onlyChanges hcode ?_)
      intro front' n' hsteps'
      obtain ⟨rfl, rfl⟩ := name_concat_inj (hsteps.symm.trans hsteps')
      rw [hmade.workingDirectory]
      exact Set.mem_singleton _
    · rw [hcontent, if_pos rfl, mapName_eq hsteps]
    · rw [FileSystem.contentAt, Entry.contentAt, hes]
      rfl
  · cases hdone

/-! ### One file that fails -/

variable {fs : FileSystem} {root : Path} {o : Options}

variable (fs root o) in
/-- What is found out about a file before results are written: that it cannot be read, that there
are no ids left, or the result of transforming it. -/
theorem applyAt_cases (p : Path) (s : Store) :
    (∃ failure, ((applyAt fs root o p).run s).1 = .error failure ∧
      ∀ e, failure.error ≠ .unwritable e) ∨
    ∃ source output, fs.readText p = .ok source ∧
      (transform source (relativePath root p).slashed o s).1 = .ok output ∧
      ((applyAt fs root o p).run s).1 = .ok ⟨relativePath root p, output⟩ := by
  cases hread : fs.readText p with
  | error fault =>
    rw [applyAt_unreadable hread]
    exact .inl ⟨_, rfl, fun _ => FileError.noConfusion⟩
  | ok source =>
    rw [applyAt_readable hread]
    rcases htransform : transform source (relativePath root p).slashed o s with ⟨e | output, s'⟩
    · exact .inl ⟨_, rfl, fun _ => FileError.noConfusion⟩
    · exact .inr ⟨source, output, rfl, congrArg Prod.fst htransform, rfl⟩

/-- Whether it is the map of a file that could not be written below a directory. -/
def MapFailed (root dir p : Path) (failure : Failure) : Prop :=
  ∃ fault, failure.error = .unwritable (.file (mapPath (dir.join (relativePath root p).text)) fault)

/-- A file that fails has changed nothing, or there is its result without a map. -/
theorem writeOutcome_failed {dir p : Path} {s : Store} {failure : Failure} {made : FileSystem}
    (h : ((writeOutcome (some dir) ((applyAt fs root o p).run s).1).run made).1 =
      .failed failure) :
    let after := ((writeOutcome (some dir) ((applyAt fs root o p).run s).1).run made).2
    OnlyChanges ∅ made after ∧ ¬ MapFailed root dir p failure ∨
      failure.error = .unwritable
          (.file (mapPath (dir.join (relativePath root p).text)) .isDirectory) ∧
        ∃ source output front n, fs.readText p = .ok source ∧
          (transform source (relativePath root p).slashed o s).1 = .ok output ∧
          relativeSteps root p = front ++ [.name n] ∧
          let place := resolve (resolve made.workingDirectory dir.steps) front
          OnlyChanges {place ++ [n]} made after ∧
          after.contentAt (place ++ [n]) = some (.text (withMapLink output.code (n ++ ".map"))) ∧
          after.contentAt (place ++ [n ++ ".map"]) = none := by
  -- a failure is handed on when the file was not applied, or arises when its result is written
  obtain ⟨failure', happlied, hother⟩ | ⟨source, output, hread, htransform, happlied⟩ :=
    applyAt_cases fs root o p s
  · rw [happlied] at h ⊢
    obtain rfl : failure' = failure := Outcome.failed.inj h
    refine .inl ⟨.refl ∅ made, ?_⟩
    rintro ⟨fault, hfault⟩
    exact hother _ hfault
  rw [happlied] at h ⊢
  simp only [writeOutcome, writeFile, StateT.run] at h ⊢
  cases hmap : output.map with
  | none =>
    rw [hmap] at h
    cases h
  | some map =>
    rw [hmap] at h
    simp only at h ⊢
    cases hrun : writeResult (dir.join (relativePath root p).text) output.code map made with
    | ok _ written =>
      rw [hrun] at h
      cases h
    | error e written =>
      rw [hrun] at h
      obtain rfl := Outcome.failed.inj h
      obtain ⟨hchanges, hmapped⟩ | ⟨rfl, hnames, front, n, hsteps, hchanges, hcode, hnone⟩ :=
        writeResult_eq_error hrun
      · refine .inl ⟨hchanges, ?_⟩
        rintro ⟨fault, hfault⟩
        exact hmapped fault (FileError.unwritable.inj hfault)
      · obtain ⟨front', hsteps', hresolve⟩ := steps_of_join made.workingDirectory hsteps hnames
        rw [hresolve] at hchanges hcode hnone
        exact .inr ⟨rfl, source, output, front', n, hread, htransform, hsteps', hchanges, hcode,
          hnone⟩

/-! ### Files of a pass -/

/-- Whether a file other than the one with number `i` has its result or its map at an address. -/
def IsOfOther (files : List Path) (root : Path) (out : Address) (i : Nat) (a : Address) : Prop :=
  ∃ j q, j ≠ i ∧ files[j]? = some q ∧ a ∈ outputs out (relativeSteps root q)

/-- Files with names of their own below the root, and with maps of their own. -/
structure HasOwnNames (root : Path) (files : List Path) : Prop where
  names : ∀ p ∈ files, ∃ ns : List String, relativeSteps root p = ns.map .name
  nodup : (files.map (relativeSteps root)).Nodup
  maps : ∀ p ∈ files, ∀ q ∈ files, ∀ front n, relativeSteps root p = front ++ [.name n] →
    relativeSteps root q ≠ front ++ [.name (n ++ ".map")]

/-- The outputs of a file with names only stand where the names lead to, save the last one. -/
theorem exists_of_mem_outputs_names {out a : Address} {ns : List String}
    (h : a ∈ outputs out (ns.map .name)) :
    ∃ front n m, ns = front ++ [n] ∧ (m = n ∨ m = n ++ ".map") ∧ a = out ++ (front ++ [m]) := by
  obtain ⟨front, n, hsteps, ha⟩ := h
  obtain ⟨ks, last, rfl, rfl, hlast⟩ := List.map_eq_append_iff.mp hsteps
  obtain ⟨m, rfl, hm⟩ := List.map_eq_singleton_iff.mp hlast
  obtain rfl := Path.Component.name.inj hm
  rw [resolve_names, List.append_assoc, List.append_assoc] at ha
  rcases ha with rfl | rfl
  · exact ⟨ks, m, m, rfl, .inl rfl, rfl⟩
  · exact ⟨ks, m, m ++ ".map", rfl, .inr rfl, rfl⟩

theorem relativeSteps_ne {files : List Path} (h : HasOwnNames root files) {i j : Nat} {p q : Path}
    (hp : files[i]? = some p) (hq : files[j]? = some q) (hne : j ≠ i) :
    relativeSteps root p ≠ relativeSteps root q := by
  intro heq
  obtain ⟨hi, -⟩ := List.getElem?_eq_some_iff.mp hp
  refine hne ((List.getElem?_inj (by simpa using hi) h.nodup).mp ?_).symm
  rw [List.getElem?_map, List.getElem?_map, hp, hq, Option.map_some, Option.map_some, heq]

theorem not_isOfOther {files : List Path} (h : HasOwnNames root files) {out a : Address} {i : Nat}
    {p : Path} (hp : files[i]? = some p) (ha : a ∈ outputs out (relativeSteps root p)) :
    ¬ IsOfOther files root out i a := by
  rintro ⟨j, q, hne, hq, haq⟩
  have hmem := List.mem_of_getElem? hp
  have hmemq := List.mem_of_getElem? hq
  have hsteps := relativeSteps_ne h hp hq hne
  obtain ⟨ns, hns⟩ := h.names p hmem
  obtain ⟨ks, hks⟩ := h.names q hmemq
  rw [hns] at ha hsteps
  rw [hks] at haq hsteps
  obtain ⟨front, n, m, rfl, hm, rfl⟩ := exists_of_mem_outputs_names ha
  obtain ⟨front', n', m', rfl, hm', heq⟩ := exists_of_mem_outputs_names haq
  obtain ⟨rfl, hlast⟩ := List.append_inj' (List.append_cancel_left heq) rfl
  obtain rfl := List.singleton_inj.mp hlast
  have hmaps := h.maps p hmem q hmemq (front.map .name) n (by simp [hns])
  have hmaps' := h.maps q hmemq p hmem (front.map .name) n' (by simp [hks])
  -- a result or a map of one file is a result or a map of the other
  rcases hm with rfl | rfl <;> rcases hm' with heq' | heq'
  · exact hsteps (heq' ▸ rfl)
  · exact hmaps' (by simp [hns, heq'])
  · exact hmaps (by simp [hks, heq'])
  · have hname : n = n' := by simpa using heq'
    exact hsteps (hname ▸ rfl)

theorem path_of_getElem? {files : List Path} {s : Store} {j : Nat} {file : AppliedFile}
    (h : ((files.mapM (applyAt fs root o)).run s).1[j]? = some (.ok file)) :
    ∃ q, files[j]? = some q ∧ file.path = relativePath root q := by
  have hlength := (List.getElem?_eq_some_iff.mp h).choose
  rw [length_mapM_run] at hlength
  refine ⟨files[j], List.getElem?_eq_getElem hlength, ?_⟩
  rw [getElem?_mapM_run _ (List.getElem?_eq_getElem hlength), Option.some.injEq] at h
  exact path_of_applyAt h

variable (fs root) in
/-- One result is written between others. -/
theorem exists_mapM_writeOutcome_at {S : Set Address} (dir : Path)
    {xs : List (Except Failure AppliedFile)} {i : Nat} {x : Except Failure AppliedFile}
    (hx : xs[i]? = some x)
    (hpath : ∀ file, x = .ok file → ∃ p, file.path = relativePath root p)
    (hothers : ∀ j file, j ≠ i → xs[j]? = some (.ok file) → ∃ p, file.path = relativePath root p ∧
      outputs (resolve fs.workingDirectory dir.steps) (relativeSteps root p) ⊆ S) :
    ∃ made, OnlyChanges S fs made ∧
      ((xs.mapM (writeOutcome (some dir))).run fs).1[i]? =
        some ((writeOutcome (some dir) x).run made).1 ∧
      OnlyChanges S ((writeOutcome (some dir) x).run made).2
        ((xs.mapM (writeOutcome (some dir))).run fs).2 := by
  have hbefore : OnlyChanges S fs (((xs.take i).mapM (writeOutcome (some dir))).run fs).2 := by
    refine mapM_writeOutcome_onlyChanges root fun file hfile => ?_
    obtain ⟨j, hj, hfile⟩ := List.mem_take_iff_getElem.mp hfile
    exact hothers j file (by omega) (hfile ▸ List.getElem?_eq_getElem _)
  refine ⟨_, hbefore, getElem?_mapM_run _ hx fs, ?_⟩
  rw [snd_mapM_run _ hx]
  generalize (((xs.take i).mapM (writeOutcome (some dir))).run fs).2 = made at hbefore ⊢
  have hself : OnlyChanges Set.univ made ((writeOutcome (some dir) x).run made).2 :=
    writeOutcome_onlyChanges fun file hfile =>
      (hpath file hfile).imp fun _ hp => ⟨hp, Set.subset_univ _⟩
  refine mapM_writeOutcome_onlyChanges root fun file hfile => ?_
  obtain ⟨j, hj, hfile⟩ := List.mem_drop_iff_getElem.mp hfile
  rw [hself.workingDirectory, hbefore.workingDirectory]
  exact hothers (i + 1 + j) file (by omega) (hfile ▸ List.getElem?_eq_getElem _)

variable (fs root o) in
/-- What a pass does with one of its files: between what it writes for others it writes its
result. -/
theorem exists_transformFiles_at {files : List Path} {i : Nat} {p : Path} (hp : files[i]? = some p)
    (dir : Path) (s : Store) :
    ∃ made s₀,
      let others := {a | IsOfOther files root (resolve fs.workingDirectory dir.steps) i a}
      let written := (writeOutcome (some dir) ((applyAt fs root o p).run s₀).1).run made
      OnlyChanges others fs made ∧
        (transformFiles files root o (some dir) s fs).1[i]? = some written.1 ∧
        OnlyChanges others written.2 (transformFiles files root o (some dir) s fs).2.2 := by
  have happlied := getElem?_mapM_run (applyAt fs root o) hp s
  obtain ⟨made, hmade⟩ := exists_mapM_writeOutcome_at fs root dir
    (S := {a | IsOfOther files root (resolve fs.workingDirectory dir.steps) i a}) happlied
    (fun file hfile => ⟨p, path_of_applyAt hfile⟩) fun j file hne hfile => by
      obtain ⟨q, hq, hpath⟩ := path_of_getElem? hfile
      exact ⟨q, hpath, fun a ha => ⟨j, q, hne, hq, ha⟩⟩
  rw [transformFiles_eq]
  exact ⟨made, _, hmade⟩

/-- A file that fails leaves nothing behind, whatever has gone wrong with it, unless its result was
written and a directory is in the way of its map: the result is there then, and names a map that
is not. Other files may have an output in the place of one of its own, but not if they have names
of their own. -/
theorem run_failed (ho : o.validate = .ok ()) (files : List Path) (root dir : Path) (s : Store)
    (fs : FileSystem) :
    ∃ outcomes s' fs', run files root o (some dir) s fs = .ok (outcomes, s', fs') ∧
      let out := resolve fs.workingDirectory dir.components
      (∀ (i : Nat) p failure, files[i]? = some p → outcomes[i]? = some (.failed failure) →
        (¬ MapFailed root dir p failure → ∀ a ∈ outputs out (relativeSteps root p),
          ¬ IsOfOther files root out i a → fs'.contentAt a = fs.contentAt a) ∧
        (MapFailed root dir p failure →
          failure.error = .unwritable
              (.file (mapPath (dir.join (relativePath root p).text)) .isDirectory) ∧
          ∃ source output s₀ front n, fs.readText p = .ok source ∧
            (transform source (relativePath root p).slashed o s₀).1 = .ok output ∧
            relativeSteps root p = front ++ [.name n] ∧
            (¬ IsOfOther files root out i (resolve out front ++ [n]) →
              fs'.contentAt (resolve out front ++ [n]) =
                some (.text (withMapLink output.code (n ++ ".map")))) ∧
            fs.contentAt (resolve out front ++ [n ++ ".map"]) = none ∧
            (¬ IsOfOther files root out i (resolve out front ++ [n ++ ".map"]) →
              fs'.contentAt (resolve out front ++ [n ++ ".map"]) = none))) ∧
      (HasOwnNames root files → ∀ (i : Nat) p, files[i]? = some p →
        ∀ a ∈ outputs out (relativeSteps root p), ¬ IsOfOther files root out i a) := by
  refine ⟨(transformFiles files root o (some dir) s.clear fs).1,
    (transformFiles files root o (some dir) s.clear fs).2.1,
    (transformFiles files root o (some dir) s.clear fs).2.2,
    run_of_validate ho files (some dir) s, ?_, fun h i p hp a ha => not_isOfOther h hp ha⟩
  intro i p failure hp hi
  obtain ⟨made, s₀, hbefore, hwritten, hafter⟩ :=
    exists_transformFiles_at fs root o hp dir s.clear
  rw [← resolve_steps]
  -- what other files write before and behind this one is at their own places
  obtain ⟨hchanges, hnot⟩ | ⟨herror, source, output, front, n, hread, htransform, hsteps, hchanges,
      hcode, hnone⟩ := writeOutcome_failed (Option.some.inj (hwritten.symm.trans hi))
  · refine ⟨fun _ a _ hother => ?_, fun hfailed => absurd hfailed hnot⟩
    rw [hafter.content a hother, hchanges.content a (Set.notMem_empty a),
      hbefore.content a hother]
  · rw [hbefore.workingDirectory] at hchanges hcode hnone
    refine ⟨fun hnot => absurd ⟨_, herror⟩ hnot, fun _ => ⟨herror, source, output, s₀, front, n,
      hread, htransform, hsteps, fun hother => ?_, ?_, fun hother => ?_⟩⟩
    · rw [hafter.content _ hother, hcode]
    · by_contra hsome
      have hkept := hchanges.kept _ (hbefore.kept _ (Option.isSome_iff_ne_none.mpr hsome))
      rw [hnone] at hkept
      cases hkept
    · rw [hafter.content _ hother, hnone]

set_option maxRecDepth 100000 in
theorem run_failed_gone :
    let menu := Entry.file (.text "const m = \x7b undo: () => \"Undo\" \x7d;")
    let dist := Entry.directory [("gone.ts", .file (.text "// of another day"))]
    let fs : FileSystem := ⟨.directory [("dist", dist), ("menu.ts", menu)], []⟩
    ∃ outcomes s' fs', run [⟨"./menu.ts"⟩, ⟨"./gone.ts"⟩] ⟨"."⟩ {} (some ⟨"dist"⟩) {} fs =
        .ok (outcomes, s', fs') ∧
      outcomes = [.transformed 1 0, .failed ⟨"gone.ts", .unreadable .notFound⟩] ∧
      fs'.contentAt ["dist", "gone.ts"] = fs.contentAt ["dist", "gone.ts"] ∧
      fs'.contentAt ["dist", "gone.ts.map"] = fs.contentAt ["dist", "gone.ts.map"] := by
  intro menu dist fs
  obtain ⟨outcomes, s', fs', hrun, hfailed, hother⟩ := run_failed (o := {}) (by decide +kernel)
    [⟨"./menu.ts"⟩, ⟨"./gone.ts"⟩] ⟨"."⟩ ⟨"dist"⟩ {} fs
  have houtcomes :
      (run [⟨"./menu.ts"⟩, ⟨"./gone.ts"⟩] ⟨"."⟩ {} (some ⟨"dist"⟩) {} fs).toOption.map (·.1) =
        some [.transformed 1 0, .failed ⟨"gone.ts", .unreadable .notFound⟩] := by decide +kernel
  rw [hrun] at houtcomes
  obtain rfl := Option.some.inj houtcomes
  have hmenu : relativeSteps ⟨"."⟩ ⟨"./menu.ts"⟩ = [] ++ [.name "menu.ts"] := by decide +kernel
  have hgone : relativeSteps ⟨"."⟩ ⟨"./gone.ts"⟩ = [] ++ [.name "gone.ts"] := by decide +kernel
  have hnames : HasOwnNames ⟨"."⟩ [⟨"./menu.ts"⟩, ⟨"./gone.ts"⟩] := by
    refine ⟨?_, by decide +kernel, fun p hp q hq front n hsteps hmap => ?_⟩
    · simp only [List.forall_mem_cons]
      exact ⟨⟨["menu.ts"], hmenu⟩, ⟨["gone.ts"], hgone⟩, List.forall_mem_nil _⟩
    · have hname (r : Path) (hr : r ∈ [⟨"./menu.ts"⟩, ⟨"./gone.ts"⟩]) (front : List Path.Component)
          (n : String) (h : relativeSteps ⟨"."⟩ r = front ++ [.name n]) :
          front = [] ∧ (n = "menu.ts" ∨ n = "gone.ts") := by
        rcases List.mem_pair.mp hr with rfl | rfl
        · obtain ⟨rfl, rfl⟩ := name_concat_inj (hmenu.symm.trans h)
          exact ⟨rfl, .inl rfl⟩
        · obtain ⟨rfl, rfl⟩ := name_concat_inj (hgone.symm.trans h)
          exact ⟨rfl, .inr rfl⟩
      obtain ⟨-, rfl | rfl⟩ := hname p hp front n hsteps
      · exact absurd (hname q hq front _ hmap).2 (by decide)
      · exact absurd (hname q hq front _ hmap).2 (by decide)
  have hout : resolve fs.workingDirectory (Path.mk "dist").components = ["dist"] := by
    decide +kernel
  rw [hout] at hfailed hother
  have hkept := (hfailed 1 _ _ rfl rfl).1 (by rintro ⟨fault, ⟨⟩⟩)
  have houtputs (m : String) (hm : m = "gone.ts" ∨ m = "gone.ts" ++ ".map") :
      ["dist", m] ∈ outputs ["dist"] (relativeSteps ⟨"."⟩ ⟨"./gone.ts"⟩) := by
    refine ⟨[], "gone.ts", hgone, ?_⟩
    rcases hm with rfl | rfl
    · exact .inl rfl
    · exact .inr rfl
  have hsame (m : String) (hm : m = "gone.ts" ∨ m = "gone.ts" ++ ".map") :
      fs'.contentAt ["dist", m] = fs.contentAt ["dist", m] :=
    hkept _ (houtputs m hm) (hother hnames 1 _ rfl _ (houtputs m hm))
  exact ⟨_, s', fs', hrun, rfl, hsame _ (.inl rfl), hsame _ (.inr rfl)⟩

set_option maxRecDepth 100000 in
/-- A directory in the way of a map leaves a result behind for a file that failed. -/
theorem run_mapInTheWay :
    let source := "const m = \x7b hi: () => \"Hello\" \x7d;\n"
    let fs : FileSystem := ⟨.directory [("a.ts", .file (.text source)),
      ("dist", .directory [("a.ts.map", .directory [])])], []⟩
    ∃ outcomes s' fs', run [⟨"a.ts"⟩] ⟨"."⟩ {} (some ⟨"dist"⟩) {} fs = .ok (outcomes, s', fs') ∧
      outcomes = [.failed ⟨"a.ts", .unwritable (.file ⟨"dist/a.ts.map"⟩ .isDirectory)⟩] ∧
      fs.contentAt ["dist", "a.ts"] = none ∧
      fs'.contentAt ["dist", "a.ts"] = some (.text ("import i18next from \"i18next\";\n" ++
        "const m = \x7b hi: () => i18next.t(\"185f8db322\") \x7d;\n" ++
        "//# sourceMappingURL=a.ts.map\n")) := by
  intro source fs
  refine ⟨_, _, _, run_of_validate (o := {}) (by decide +kernel) [⟨"a.ts"⟩] (some ⟨"dist"⟩) {},
    ?_, ?_, ?_⟩
  all_goals decide +kernel

end Phrasebook.Pass
