import Phrasebook.Proofs.FileSystem
import Phrasebook.Proofs.Glob
import Phrasebook.Proofs.Sources

/-!
# Tests among the source files

The patterns for tests accept the texts that end as the name of a test and those in which something
lies below `__tests__` (`testFilePatterns_accept_iff`). So a scan that ignores tests finds exactly
what it finds otherwise, save where such a path is on the way (`scan_ignoresTests`). The names of
tests are known by four of the eight extensions of source files only, so that tests with the others
are found (`scan_moduleTest`).
-/

namespace Phrasebook

/-! ### The patterns for tests -/

def testKinds : List String := ["test", "spec"]

/-- The extensions that names of tests are known by. -/
def testExtensions : List String := ["tsx", "ts", "jsx", "js"]

def testName (stem kind extension : String) : String := stem ++ "." ++ kind ++ "." ++ extension

def testEndings : List String := testKinds.flatMap fun kind => testExtensions.map (testName "" kind)

def testDirectory : String := "__tests__"

/-- The text is that of a test, or of something below a directory for tests. -/
def IsTestText (cs : List Char) : Prop :=
  (∃ ending ∈ testEndings, ending.toList <:+ cs) ∨ Glob.IsBelow testDirectory.toList cs

/-- The way of a path from the root, or its whole text, is one of a test. -/
def IsTest (root p : Path) : Prop :=
  IsTestText ((p.relativeTo? root).getD p).slashed.toList ∨ IsTestText p.slashed.toList

theorem testFilePatterns_eq : testFilePatterns =
    testEndings.map ("**/*" ++ ·) ++ ["**/" ++ testDirectory ++ "/**"] := by decide

theorem parse_testEnding {ending : String} (h : ending ∈ testEndings) :
    Glob.parse ("**/*" ++ ending) =
      .ok ⟨.anyComponents :: .anyText :: ending.toList.map .char⟩ := by
  have hall : ∀ ending ∈ testEndings, Glob.parse ("**/*" ++ ending) =
      .ok ⟨.anyComponents :: .anyText :: ending.toList.map .char⟩ := by decide +kernel
  exact hall ending h

theorem parse_testDirectory : Glob.parse ("**/" ++ testDirectory ++ "/**") =
    .ok ⟨.anyComponents :: ((testDirectory.toList ++ ['/']).map .char ++ [.anyComponents])⟩ := by
  decide +kernel

theorem patternAccepts_of_parse {root p : Path} {s : String} {g : Glob}
    (h : Glob.parse s = .ok g) : patternAccepts root s p = true ↔
      Glob.matchesFrom g.tokens ((p.relativeTo? root).getD p).slashed.toList = true ∨
        Glob.matchesFrom g.tokens p.slashed.toList = true := by
  rw [patternAccepts, h, ← Bool.or_eq_true]
  rfl

theorem testFilePatterns_accept_iff {root p : Path} :
    (∃ s ∈ testFilePatterns, patternAccepts root s p = true) ↔ IsTest root p := by
  have hending {ending : String} (h : ending ∈ testEndings) :
      patternAccepts root ("**/*" ++ ending) p = true ↔
        ending.toList <:+ ((p.relativeTo? root).getD p).slashed.toList ∨
          ending.toList <:+ p.slashed.toList := by
    have hne : ∀ ending ∈ testEndings, ending.toList ≠ [] := by decide
    rw [patternAccepts_of_parse (parse_testEnding h),
      Glob.matchesFrom_anywhere_ending (hne ending h),
      Glob.matchesFrom_anywhere_ending (hne ending h)]
  have hbelow : patternAccepts root ("**/" ++ testDirectory ++ "/**") p = true ↔
      Glob.IsBelow testDirectory.toList ((p.relativeTo? root).getD p).slashed.toList ∨
        Glob.IsBelow testDirectory.toList p.slashed.toList := by
    rw [patternAccepts_of_parse parse_testDirectory, Glob.matchesFrom_anywhere_below,
      Glob.matchesFrom_anywhere_below]
  rw [testFilePatterns_eq]
  simp only [List.mem_append, List.mem_map, List.mem_singleton, or_and_right, exists_or,
    exists_eq_left, hbelow, IsTest, IsTestText]
  constructor
  · rintro (⟨-, ⟨ending, hmem, rfl⟩, haccepts⟩ | h | h)
    · rcases (hending hmem).mp haccepts with h | h
      · exact .inl (.inl ⟨ending, hmem, h⟩)
      · exact .inr (.inl ⟨ending, hmem, h⟩)
    · exact .inl (.inr h)
    · exact .inr (.inr h)
  · rintro ((⟨ending, hmem, h⟩ | h) | ⟨ending, hmem, h⟩ | h)
    · exact .inl ⟨_, ⟨ending, hmem, rfl⟩, (hending hmem).mpr (.inl h)⟩
    · exact .inr (.inl h)
    · exact .inl ⟨_, ⟨ending, hmem, rfl⟩, (hending hmem).mpr (.inr h)⟩
    · exact .inr (.inr h)

/-- A way with tests ignored is one without, on which no path is that of a test. -/
theorem noneSkipped_ignoresTests_iff {root d : Path} {o : ScanOptions} (ho : o.ignoresTests = true)
    {names : Address} : NoneSkipped (ignoredBy (patternAccepts root) root o.ignored) d names ↔
      NoneSkipped (ignoredBy (patternAccepts root) root o.ignores) d names ∧
        ∀ front, front <+: names → front ≠ [] → ¬ IsTest root (d.under front) := by
  have hignored (p : Path) : ignoredBy (patternAccepts root) root o.ignored p = false ↔
      ignoredBy (patternAccepts root) root o.ignores p = false ∧ ¬ IsTest root p := by
    have htests : ignoredBy (patternAccepts root) root testFilePatterns p = true ↔
        IsTest root p := by
      have hpattern : ∀ s ∈ testFilePatterns, isPattern s = true := by decide
      rw [← testFilePatterns_accept_iff, ignoredBy_iff]
      refine exists_congr fun s => and_congr_right fun hs => ?_
      rw [if_pos (hpattern s hs)]
    rw [← htests, Bool.not_eq_true, ScanOptions.ignored, if_pos ho, ignoredBy, List.any_append,
      Bool.or_eq_false_iff]
    rfl
  simp only [NoneSkipped, hignored]
  exact ⟨fun h => ⟨fun front hfront hne => (h front hfront hne).1,
    fun front hfront hne => (h front hfront hne).2⟩,
    fun h front hfront hne => ⟨h.1 front hfront hne, h.2 front hfront hne⟩⟩

/-! ### Texts of paths -/

namespace Path

theorem suffix_text_join (p : Path) (rest : String) :
    rest.toList <:+ (p.join rest).text.toList := by
  rw [join]
  split
  · exact List.suffix_refl _
  · split
    · rw [String.toList_append]
      exact List.suffix_append _ _
    · rw [String.toList_append]
      exact List.suffix_append _ _

theorem toList_slashed (p : Path) :
    p.slashed.toList = p.text.toList.map fun c => if c = '\\' then '/' else c :=
  String.toList_map

/-- Leaning the slashes forward changes no text without a backslash. -/
theorem map_slashed {cs : List Char} (h : '\\' ∉ cs) :
    cs.map (fun c => if c = '\\' then '/' else c) = cs := by
  refine (List.map_congr_left fun c hc => if_neg ?_).trans (List.map_id' cs)
  rintro rfl
  exact h hc

/-- A piece that is not the last one stands in front of a slash, and behind one if it is not the
first. -/
theorem isBelow_of_mem_pieces {cs piece : List Char}
    (h : piece ∈ (Text.splitOn '/' cs).dropLast) : Glob.IsBelow piece cs := by
  obtain ⟨front, after, hsplit⟩ := List.append_of_mem h
  obtain ⟨last, hlast⟩ : ∃ last, Text.splitOn '/' cs = front ++ piece :: (after ++ [last]) := by
    refine ⟨(Text.splitOn '/' cs).getLast (Text.splitOn_ne_nil '/' cs), ?_⟩
    conv_lhs => rw [← List.dropLast_append_getLast (Text.splitOn_ne_nil '/' cs), hsplit]
    rw [List.append_assoc, List.cons_append]
  have hjoin := Text.join_splitOn '/' cs
  have hpiece : Text.join ['/'] (piece :: (after ++ [last])) =
      piece ++ ['/'] ++ Text.join ['/'] (after ++ [last]) :=
    Text.join_append (List.cons_ne_nil piece []) (by simp)
  rw [hlast] at hjoin
  -- the piece begins the text, or a slash stands in front of it
  by_cases hfront : front = []
  · rw [hfront, List.nil_append, hpiece] at hjoin
    exact .inl ⟨_, hjoin⟩
  · rw [Text.join_append hfront (List.cons_ne_nil piece _), hpiece] at hjoin
    exact .inr ⟨Text.join ['/'] front, Text.join ['/'] (after ++ [last]), by
      rw [← hjoin]
      simp⟩

/-- A name behind which a path goes on is a piece of its text behind which that goes on. -/
theorem isBelow_of_mem_steps {p : Path} {n : String} (h : .name n ∈ p.steps.dropLast) :
    Glob.IsBelow n.toList p.text.toList := by
  refine isBelow_of_mem_pieces ?_
  obtain ⟨pieces, last, hsplit⟩ :=
    (List.eq_nil_or_concat (Text.splitOn '/' p.text.toList)).resolve_left (Text.splitOn_ne_nil _ _)
  rw [List.concat_eq_append] at hsplit
  have hbody : .name n ∈ bodyComponents pieces := by
    have hroot : .name n ∉ (if p.isAbsolute then [Component.root] else []) := by
      split <;> simp
    rw [steps, body, hsplit, bodyComponents_append, ← List.append_assoc] at h
    have hmem : .name n ∈
        (if p.isAbsolute then [Component.root] else []) ++ bodyComponents pieces := by
      -- a last piece that means nothing is not the step that is left out, but it is no name either
      by_cases hvoid : isVoid last = true
      · rw [bodyComponents_cons_of_void hvoid] at h
        simpa [bodyComponents] using List.mem_of_mem_dropLast h
      · rw [bodyComponents_cons hvoid] at h
        simpa [bodyComponents] using h
    exact (List.mem_append.mp hmem).resolve_left hroot
  rw [hsplit, List.dropLast_concat]
  obtain ⟨piece, hpiece, hname⟩ := List.mem_map.mp hbody
  obtain ⟨hmem, -⟩ := List.mem_filter.mp hpiece
  unfold pieceComponent at hname
  split at hname
  · cases hname
  · rw [← Component.name.inj hname, String.toList_ofList]
    exact hmem

end Path

theorem isBelow_map {name cs : List Char} (f : Char → Char) (hname : name.map f = name)
    (hslash : f '/' = '/') (h : Glob.IsBelow name cs) : Glob.IsBelow name (cs.map f) := by
  rcases h with h | h
  · exact .inl (by simpa [hname, hslash] using h.map f)
  · exact .inr (by simpa [hname, hslash] using h.map f)

/-! ### Trees with names -/

/-- All entries of a tree stand under names. -/
inductive Entry.Named : Entry → Prop
  | file (content : Content) : Named (.file content)
  | directory {entries : List (String × Entry)}
    (isName : ∀ entry ∈ entries, Path.IsName entry.1)
    (named : ∀ entry ∈ entries, Named entry.2) : Named (.directory entries)

namespace Entry

variable {e e' : Entry}

theorem Named.isName_of_mem_files (h : e.Named) {names : Address} {content : Content}
    (hfile : (names, content) ∈ e.files) : ∀ n ∈ names, Path.IsName n := by
  induction h generalizing names with
  | file =>
    obtain ⟨rfl, -⟩ := Prod.mk.inj (List.mem_singleton.mp hfile)
    simp
  | directory isName _ ih =>
    obtain ⟨name, e, rest, hmem, rfl, hrest⟩ := mem_files_directory_iff.mp hfile
    exact List.forall_mem_cons.mpr ⟨isName (name, e) hmem, ih (name, e) hmem hrest⟩

theorem Named.at? (h : e.Named) {a : Address} (ha : e.at? a = some e') : e'.Named := by
  induction a generalizing e with
  | nil =>
    rw [Entry.at?, Option.some.injEq] at ha
    exact ha ▸ h
  | cons name names ih =>
    obtain ⟨child, hchild, hrest⟩ := Option.bind_eq_some_iff.mp ha
    refine ih ?_ hrest
    cases h with
    | file => cases hchild
    | directory _ named => exact named (name, child) (mem_of_lookup hchild)

end Entry

namespace FileSystem

variable {fs : FileSystem} {d : Path} {names : Address}

theorem HasFile.isName (h : fs.HasFile d names) (htree : fs.tree.Named) :
    ∀ n ∈ names, Path.IsName n := by
  obtain ⟨e, content, he, hfile⟩ := h
  obtain ⟨a, -, hat⟩ := entry_eq_ok he
  exact (htree.at? hat).isName_of_mem_files hfile

theorem HasFile.ne_nil (h : fs.HasFile d names) (hd : fs.isDirectory d = true) : names ≠ [] := by
  obtain ⟨e, content, he, hfile⟩ := h
  rw [isDirectory, he] at hd
  cases e with
  | file => cases hd
  | directory entries =>
    obtain ⟨name, e, rest, -, rfl, -⟩ := Entry.mem_files_directory_iff.mp hfile
    exact List.cons_ne_nil _ _

/-! ### Scans without tests -/

/-- The path of a file below a directory ends with its name. -/
theorem exists_under_eq_join (d : Path) (hne : names ≠ []) :
    ∃ q n, n ∈ names ∧ d.under names = Path.join q n := by
  obtain ⟨front, n, rfl⟩ := (List.eq_nil_or_concat names).resolve_left hne
  refine ⟨d.under front, n, by simp, ?_⟩
  rw [List.concat_eq_append, Path.under, List.foldl_append]
  rfl

/-- The name of a test, or a directory for tests in front of it, makes a path that of a test. -/
theorem isTest_of_name {root p q : Path} {n : String} (hp : p = q.join n)
    (h : (∃ ending ∈ testEndings, ending.toList <:+ n.toList) ∨
      .name testDirectory ∈ p.steps.dropLast) : IsTest root p := by
  refine .inr ?_
  rw [Path.toList_slashed]
  rcases h with ⟨ending, hmem, hending⟩ | hbelow
  · have hplain : ∀ ending ∈ testEndings, '\\' ∉ ending.toList := by decide
    refine .inl ⟨ending, hmem, ?_⟩
    have hsuffix := (hending.trans (hp ▸ Path.suffix_text_join q n)).map
      fun c => if c = '\\' then '/' else c
    rwa [Path.map_slashed (hplain ending hmem)] at hsuffix
  · exact .inr (isBelow_map _ (Path.map_slashed (by decide)) (by decide)
      (Path.isBelow_of_mem_steps hbelow))

/-- A scan that ignores tests finds what it finds otherwise, save where the path of a test is on the
way. So no file below what it includes is found that lies below a directory for tests, or has the
name of a test with one of four extensions. Names of tests with the other extensions of source files
hide nothing. -/
theorem scan_ignoresTests {root : Path} {o : ScanOptions} (ho : o.ignoresTests = true)
    (htree : fs.tree.Named)
    (hdirectories : ∀ d ∈ fs.included root o.includes, fs.isDirectory d = true) :
    (∀ f ∈ fs.scan root o, ∃ n, f.fileName? = some n ∧
      (∀ stem kind extension, kind ∈ testKinds → extension ∈ sourceExtensions →
        n = testName stem kind extension → extension ∉ testExtensions) ∧
      .name testDirectory ∉ f.steps.dropLast) ∧
    (∀ f, (∃ g ∈ fs.scan root o, g.equiv f = true) ↔ isSourceFile f = true ∧
      ∃ d ∈ fs.included root o.includes, ∃ names, fs.HasFile d names ∧
        (d.under names).equiv f = true ∧
        NoneSkipped (ignoredBy (patternAccepts root) root o.ignores) d names ∧
        ∀ front, front <+: names → front ≠ [] → ¬ IsTest root (d.under front)) ∧
    ∀ stem kind extension, kind ∈ testKinds → extension ∈ sourceExtensions →
      extension ∉ testExtensions →
        ∀ ending ∈ testEndings, ¬ ending.toList <:+ (testName stem kind extension).toList := by
  have hfound (f : Path) : (∃ g ∈ fs.scan root o, g.equiv f = true) ↔ isSourceFile f = true ∧
      ∃ d ∈ fs.included root o.includes, ∃ names, fs.HasFile d names ∧
        (d.under names).equiv f = true ∧
        NoneSkipped (ignoredBy (patternAccepts root) root o.ignores) d names ∧
        ∀ front, front <+: names → front ≠ [] → ¬ IsTest root (d.under front) := by
    rw [scan_eq_filesFrom, exists_filesFrom_iff]
    simp only [Leads, noneSkipped_ignoresTests_iff ho]
  refine ⟨fun f hf => ?_, hfound, ?_⟩
  · obtain ⟨-, d, hd, names, hfile, hequiv, -, htest⟩ :=
      (hfound f).mp ⟨f, hf, Path.equiv_iff.mpr rfl⟩
    have hne := hfile.ne_nil (hdirectories d hd)
    obtain ⟨q, n, hn, hjoin⟩ := exists_under_eq_join d hne
    have hsteps : f.steps = q.steps ++ [.name n] := by
      rw [Path.steps_eq_filter, ← Path.equiv_iff.mp hequiv, ← Path.steps_eq_filter, hjoin,
        Path.steps_join_name q (hfile.isName htree n hn)]
    have hnot := htest names (List.prefix_refl names) hne
    refine ⟨n, Path.fileName?_of_steps hsteps, ?_, fun hbelow => ?_⟩
    · rintro stem kind extension hkind - rfl hextension
      refine hnot (isTest_of_name hjoin (.inl ⟨testName "" kind extension, ?_, ?_⟩))
      · exact List.mem_flatMap.mpr ⟨kind, hkind, List.mem_map_of_mem hextension⟩
      · simp only [testName, String.toList_append, List.append_assoc]
        exact List.suffix_append _ _
    · refine hnot (isTest_of_name hjoin (.inr ?_))
      rwa [Path.steps_eq_filter, Path.equiv_iff.mp hequiv, ← Path.steps_eq_filter]
  · intro stem kind extension hkind hextension hother ending hending hsuffix
    -- the endings are not longer than what the name ends with, so they would be endings of that
    have hlonger : ∀ kind ∈ testKinds, ∀ extension ∈ sourceExtensions, extension ∉ testExtensions →
        ∀ ending ∈ testEndings, ending.toList.length ≤ (testName "" kind extension).toList.length ∧
          ¬ ending.toList <:+ (testName "" kind extension).toList := by decide
    obtain ⟨hlength, hnot⟩ := hlonger kind hkind extension hextension hother ending hending
    have hend : (testName "" kind extension).toList <:+ (testName stem kind extension).toList := by
      simp only [testName, String.toList_append, List.append_assoc]
      exact List.suffix_append _ _
    exact hnot (List.suffix_of_suffix_length_le hsuffix hend hlength)

set_option maxRecDepth 100000 in
theorem scan_ignoresTests_menu :
    let helper := Entry.directory [("open.ts", .file (.text ""))]
    let src := Entry.directory [("__tests__", helper), ("menu.spec.tsx", .file (.text "")),
      ("menu.tsx", .file (.text ""))]
    let fs : FileSystem := ⟨.directory [("src", src)], []⟩
    let o : ScanOptions := ⟨["src"], [], true⟩
    fs.scan ⟨"."⟩ o = [⟨"./src/menu.tsx"⟩] ∧
    (¬ ∃ f ∈ fs.scan ⟨"."⟩ o, f.equiv ⟨"./src/__tests__/open.ts"⟩ = true) ∧
    ∀ f ∈ fs.scan ⟨"."⟩ o, f.fileName? ≠ some "menu.spec.tsx" := by
  intro helper src fs o
  have hhelper : helper.Named :=
    .directory (List.forall_mem_singleton.mpr (by decide)) (List.forall_mem_singleton.mpr (.file _))
  have hsrc : src.Named := by
    refine .directory ?_ ?_ <;> simp only [List.forall_mem_cons]
    · decide
    · exact ⟨hhelper, .file _, .file _, List.forall_mem_nil _⟩
  have htree : fs.tree.Named :=
    .directory (List.forall_mem_singleton.mpr (by decide)) (List.forall_mem_singleton.mpr hsrc)
  have hincluded : fs.included ⟨"."⟩ o.includes = [⟨"./src"⟩] := by decide +kernel
  have hdirectories : ∀ d ∈ fs.included ⟨"."⟩ o.includes, fs.isDirectory d = true := by
    rw [hincluded, List.forall_mem_singleton]
    decide +kernel
  obtain ⟨hnames, -⟩ := @scan_ignoresTests fs ⟨"."⟩ o rfl htree hdirectories
  refine ⟨by decide +kernel, ?_, ?_⟩
  · rintro ⟨f, hf, hequiv⟩
    obtain ⟨-, -, -, hbelow⟩ := hnames f hf
    refine hbelow ?_
    rw [Path.steps_eq_filter, Path.equiv_iff.mp hequiv]
    decide +kernel
  · intro f hf hname
    obtain ⟨n, hn, htest, -⟩ := hnames f hf
    obtain rfl := Option.some.inj (hn.symm.trans hname)
    exact htest "menu" "spec" "tsx" (by decide) (by decide) (by decide) (by decide)

set_option maxRecDepth 100000 in
/-- A test in a module is found, its extension being none that names of tests are known by. -/
theorem scan_moduleTest :
    let src := Entry.directory [("menu.test.mts", .file (.text ""))]
    let fs : FileSystem := ⟨.directory [("src", src)], []⟩
    let o : ScanOptions := ⟨["src"], [], true⟩
    fs.included ⟨"."⟩ o.includes = [⟨"./src"⟩] ∧ fs.isDirectory ⟨"./src"⟩ = true ∧
    "mts" ∈ sourceExtensions ∧ testName "menu" "test" "mts" = "menu.test.mts" ∧
    fs.scan ⟨"."⟩ o = [⟨"./src/menu.test.mts"⟩] := by
  decide +kernel

end FileSystem

end Phrasebook
