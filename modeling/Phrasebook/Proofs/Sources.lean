import Phrasebook.Proofs.Sorted
import Phrasebook.Sources

/-!
# Which source files are found

The walk from a path finds the source files below it that no skipped entry hides
(`mem_sourcesAt_iff`). So the source files that are found from some paths are known from the set
of these and the set of what is ignored, whatever the patterns accept (`filesFrom_exact`).
-/

namespace Phrasebook

/-! ### The order of paths -/

namespace Path

theorem Component.lt_iff {a b : Component} : a.lt b = true ↔
    a.ctorIdx < b.ctorIdx ∨ ∃ m n, a = name m ∧ b = name n ∧ m < n := by
  cases a <;> cases b <;> simp [Component.lt, Component.ctorIdx]

theorem strictOrder_componentLt : Sorted.StrictOrder Component.lt where
  irrefl a := by
    rw [← Bool.not_eq_true, Component.lt_iff]
    rintro (h | ⟨m, n, rfl, hn, hlt⟩)
    · exact lt_irrefl _ h
    · obtain rfl := Component.name.inj hn
      exact lt_irrefl _ hlt
  trans a b c hab hbc := by
    rw [Component.lt_iff] at hab hbc ⊢
    rcases hab with hab | ⟨m, n, rfl, rfl, hmn⟩ <;> rcases hbc with hbc | ⟨n', k, hn, rfl, hnk⟩
    · exact .inl (hab.trans hbc)
    · subst hn
      exact .inl hab
    · exact .inl hbc
    · obtain rfl := Component.name.inj hn
      exact .inr ⟨m, k, rfl, rfl, lt_trans hmn hnk⟩
  trichotomous a b hab hba := by
    rw [← Bool.not_eq_true, Component.lt_iff, not_or] at hab hba
    have hidx : a.ctorIdx = b.ctorIdx := by omega
    cases a <;> cases b <;> try first | rfl | cases hidx
    case name.name m n =>
      have hmn : n ≤ m := not_lt.mp fun h => hab.2 ⟨m, n, rfl, rfl, h⟩
      have hnm : m ≤ n := not_lt.mp fun h => hba.2 ⟨n, m, rfl, rfl, h⟩
      rw [le_antisymm hnm hmn]

theorem componentsLt_cons_iff {a b : Component} {as bs : List Component} :
    componentsLt (a :: as) (b :: bs) = true ↔
      a.lt b = true ∨ a = b ∧ componentsLt as bs = true := by
  simp [componentsLt]

theorem strictOrder_componentsLt : Sorted.StrictOrder componentsLt where
  irrefl as := by
    induction as with
    | nil => rfl
    | cons a as ih => simp [componentsLt, strictOrder_componentLt.irrefl, ih]
  trans as bs cs hab hbc := by
    induction as generalizing bs cs with
    | nil => cases bs <;> cases cs <;> simp_all [componentsLt]
    | cons a as ih =>
      cases bs with
      | nil => simp [componentsLt] at hab
      | cons b bs =>
        cases cs with
        | nil => simp [componentsLt] at hbc
        | cons c cs =>
          rw [componentsLt_cons_iff] at hab hbc ⊢
          rcases hab with hab | ⟨rfl, hab⟩
          · rcases hbc with hbc | ⟨rfl, -⟩
            · exact .inl (strictOrder_componentLt.trans a b c hab hbc)
            · exact .inl hab
          · rcases hbc with hbc | ⟨rfl, hbc⟩
            · exact .inl hbc
            · exact .inr ⟨rfl, ih bs cs hab hbc⟩
  trichotomous as bs hab hba := by
    induction as generalizing bs with
    | nil => cases bs <;> simp_all [componentsLt]
    | cons a as ih =>
      cases bs with
      | nil => simp [componentsLt] at hba
      | cons b bs =>
        simp only [componentsLt, Bool.or_eq_false_iff] at hab hba
        obtain rfl := strictOrder_componentLt.trichotomous a b hab.1 hba.1
        rw [ih bs (by simpa using hab.2) (by simpa using hba.2)]

theorem equiv_iff {p q : Path} : p.equiv q = true ↔ p.components = q.components := beq_iff_eq

/-- The path that some names lead to, one after the other. -/
def under (d : Path) (names : Address) : Path := names.foldl join d

end Path

theorem isSourceFile_congr {p q : Path} (h : p.components = q.components) :
    isSourceFile p = isSourceFile q := by
  simp only [isSourceFile, Path.extension?, Path.fileName?, h]

/-! ### The files of a tree -/

namespace Entry

mutual

theorem filesAt_eq (address : Address) (e : Entry) :
    e.filesAt address = e.files.map fun (names, content) => (address ++ names, content) := by
  cases e with
  | file content => simp [files, filesAt]
  | directory entries =>
    rw [files, filesAt, filesAt]
    exact filesIn_eq address entries

theorem filesIn_eq (address : Address) (entries : List (String × Entry)) :
    filesIn address entries =
      (filesIn [] entries).map fun (names, content) => (address ++ names, content) := by
  cases entries with
  | nil => rfl
  | cons entry entries =>
    obtain ⟨name, e⟩ := entry
    rw [filesIn, filesIn, filesAt_eq, filesAt_eq ([] ++ [name]), filesIn_eq]
    simp [Function.comp_def]

end

theorem mem_files_directory_iff {entries : List (String × Entry)} {names : Address}
    {content : Content} : (names, content) ∈ (directory entries).files ↔
      ∃ name e rest, (name, e) ∈ entries ∧ names = name :: rest ∧ (rest, content) ∈ e.files := by
  rw [files, filesAt]
  induction entries with
  | nil => simp [filesIn]
  | cons entry entries ih =>
    obtain ⟨name, e⟩ := entry
    rw [filesIn, List.mem_append, ih, filesAt_eq]
    simp only [List.nil_append, List.singleton_append, List.mem_map, Prod.mk.injEq, Prod.exists,
      List.mem_cons]
    constructor
    · rintro (⟨rest, content, hmem, rfl, rfl⟩ | ⟨name', e', rest, hmem, rfl, hrest⟩)
      · exact ⟨name, e, rest, .inl ⟨rfl, rfl⟩, rfl, hmem⟩
      · exact ⟨name', e', rest, .inr hmem, rfl, hrest⟩
    · rintro ⟨name', e', rest, ⟨rfl, rfl⟩ | hmem, rfl, hrest⟩
      · exact .inl ⟨rest, content, hrest, rfl, rfl⟩
      · exact .inr ⟨name', e', rest, hmem, rfl, hrest⟩

end Entry

/-! ### Walking -/

theorem mem_sourcesIn_iff {skips : Path → Bool} {d f : Path} {entries : List (String × Entry)} :
    f ∈ sourcesIn skips d entries ↔
      ∃ name e, (name, e) ∈ entries ∧ skips (d.join name) = false ∧
        f ∈ sourcesOf skips (d.join name) e := by
  induction entries with
  | nil => simp [sourcesIn]
  | cons entry entries ih =>
    obtain ⟨name, e⟩ := entry
    have hfirst : f ∈ (if skips (d.join name) then [] else sourcesOf skips (d.join name) e) ↔
        skips (d.join name) = false ∧ f ∈ sourcesOf skips (d.join name) e := by
      cases skips (d.join name) <;> simp
    rw [sourcesIn, List.mem_append, ih, hfirst]
    constructor
    · rintro (h | ⟨name', e', hmem, h⟩)
      · exact ⟨name, e, List.mem_cons_self, h⟩
      · exact ⟨name', e', List.mem_cons_of_mem _ hmem, h⟩
    · rintro ⟨name', e', hmem, h⟩
      rcases List.mem_cons.mp hmem with heq | hmem
      · obtain ⟨rfl, rfl⟩ := Prod.mk.inj heq
        exact .inl h
      · exact .inr ⟨name', e', hmem, h⟩

/-- None of the paths on the way from `d` along some names is skipped, from the first one behind
`d` to the last one. -/
def NoneSkipped (skips : Path → Bool) (d : Path) (names : Address) : Prop :=
  ∀ front, front <+: names → front ≠ [] → skips (d.under front) = false

theorem noneSkipped_nil (skips : Path → Bool) (d : Path) : NoneSkipped skips d [] :=
  fun _ hfront hne => absurd (List.prefix_nil.mp hfront) hne

theorem noneSkipped_cons_iff {skips : Path → Bool} {d : Path} {name : String} {names : Address} :
    NoneSkipped skips d (name :: names) ↔
      skips (d.join name) = false ∧ NoneSkipped skips (d.join name) names := by
  constructor
  · intro h
    refine ⟨h [name] (by simp) (by simp), fun front hfront _ => ?_⟩
    exact h (name :: front) (List.cons_prefix_cons.mpr ⟨rfl, hfront⟩) (by simp)
  · rintro ⟨hname, hnames⟩ front hfront hne
    obtain ⟨_, rest, rfl⟩ := List.exists_cons_of_ne_nil hne
    obtain ⟨rfl, hrest⟩ := List.cons_prefix_cons.mp hfront
    by_cases h : rest = []
    · subst h
      exact hname
    · exact hnames rest hrest h

/-- The walk through a tree takes the source files at the ends of ways on which none is skipped. -/
theorem mem_sourcesOf_iff {skips : Path → Bool} {f : Path} : (e : Entry) → (d : Path) →
    (f ∈ sourcesOf skips d e ↔ isSourceFile f = true ∧
      ∃ names content, (names, content) ∈ e.files ∧ f = d.under names ∧ NoneSkipped skips d names)
  | .file content, d => by
    have hfiles : (Entry.file content).files = [([], content)] := rfl
    simp only [sourcesOf, hfiles, List.mem_singleton, Prod.mk.injEq]
    constructor
    · intro hf
      -- a file is the end of the empty way, if it is a source file
      split at hf
      · obtain rfl := List.mem_singleton.mp hf
        exact ⟨‹_›, [], content, ⟨rfl, rfl⟩, rfl, noneSkipped_nil skips f⟩
      · cases hf
    · rintro ⟨hsource, names, _, ⟨rfl, rfl⟩, hf, -⟩
      obtain rfl : f = d := hf
      rw [if_pos hsource]
      exact List.mem_singleton_self _
  | .directory entries, d => by
    rw [sourcesOf, mem_sourcesIn_iff]
    constructor
    · rintro ⟨name, e, hmem, hskip, hf⟩
      obtain ⟨hsource, names, content, hfile, rfl, hnone⟩ := (mem_sourcesOf_iff e _).mp hf
      exact ⟨hsource, name :: names, content,
        Entry.mem_files_directory_iff.mpr ⟨name, e, names, hmem, rfl, hfile⟩, rfl,
        noneSkipped_cons_iff.mpr ⟨hskip, hnone⟩⟩
    · rintro ⟨hsource, names, content, hfile, hf, hnone⟩
      obtain ⟨name, e, rest, hmem, rfl, hrest⟩ := Entry.mem_files_directory_iff.mp hfile
      obtain ⟨hskip, hnone⟩ := noneSkipped_cons_iff.mp hnone
      exact ⟨name, e, hmem, hskip,
        (mem_sourcesOf_iff e _).mpr ⟨hsource, rest, content, hrest, hf, hnone⟩⟩
termination_by e => sizeOf e
decreasing_by
  all_goals
    have := List.sizeOf_lt_of_mem hmem
    simp only [Entry.directory.sizeOf_spec, Prod.mk.sizeOf_spec] at this ⊢
    omega

namespace FileSystem

/-- Names lead to a file from the entry at a path. -/
def HasFile (fs : FileSystem) (d : Path) (names : Address) : Prop :=
  ∃ e content, fs.entry d = .ok e ∧ (names, content) ∈ e.files

/-- The path `d` is that of the file `f`, or of a directory that contains it, and nothing on the
way from `d` to `f` is skipped. -/
def Leads (fs : FileSystem) (skips : Path → Bool) (d f : Path) : Prop :=
  ∃ names, fs.HasFile d names ∧ (d.under names).equiv f = true ∧ NoneSkipped skips d names

theorem mem_sourcesAt_iff {fs : FileSystem} {skips : Path → Bool} {d f : Path} :
    f ∈ fs.sourcesAt skips d ↔
      isSourceFile f = true ∧
        ∃ names, fs.HasFile d names ∧ f = d.under names ∧ NoneSkipped skips d names := by
  unfold sourcesAt HasFile
  cases fs.entry d with
  | error fault => simp
  | ok e =>
    rw [mem_sourcesOf_iff]
    constructor
    · rintro ⟨hsource, names, content, hfile, hf⟩
      exact ⟨hsource, names, ⟨e, content, rfl, hfile⟩, hf⟩
    · rintro ⟨hsource, names, ⟨e', content, he, hfile⟩, hf⟩
      obtain rfl := Except.ok.inj he
      exact ⟨hsource, names, content, hfile, hf⟩

/-! ### The set of the files that are found -/

section Found

variable (fs : FileSystem) (skips : Path → Bool) (starts : List Path)

theorem components_filesFrom : (fs.filesFrom skips starts).map Path.components =
    Sorted.ofList Path.componentsLt
      ((starts.flatMap (fs.sourcesAt skips)).map Path.components) := by
  have hlt (p q : Path) : p.lt q = Path.componentsLt p.components q.components := rfl
  exact Sorted.map_union hlt [] _

theorem ascending_filesFrom : Sorted.Ascending Path.lt (fs.filesFrom skips starts) := by
  have h : Sorted.Ascending Path.componentsLt
      ((fs.filesFrom skips starts).map Path.components) := by
    rw [components_filesFrom]
    exact Sorted.ascending_ofList Path.strictOrder_componentsLt _
  exact List.pairwise_map.mp h

variable {fs skips starts}

theorem mem_components_filesFrom_iff {f : Path} :
    f.components ∈ (fs.filesFrom skips starts).map Path.components ↔
      isSourceFile f = true ∧ ∃ d ∈ starts, fs.Leads skips d f := by
  rw [components_filesFrom, Sorted.mem_ofList Path.strictOrder_componentsLt.trichotomous,
    List.mem_map]
  simp only [List.mem_flatMap, mem_sourcesAt_iff]
  constructor
  · rintro ⟨g, ⟨d, hd, hsource, names, hfile, rfl, hnone⟩, hg⟩
    rw [isSourceFile_congr hg] at hsource
    exact ⟨hsource, d, hd, names, hfile, Path.equiv_iff.mpr hg, hnone⟩
  · rintro ⟨hsource, d, hd, names, hfile, hf, hnone⟩
    rw [Path.equiv_iff] at hf
    rw [← isSourceFile_congr hf] at hsource
    exact ⟨d.under names, ⟨d, hd, hsource, names, hfile, rfl, hnone⟩, hf⟩

theorem exists_filesFrom_iff {f : Path} :
    (∃ g ∈ fs.filesFrom skips starts, g.equiv f = true) ↔
      isSourceFile f = true ∧ ∃ d ∈ starts, fs.Leads skips d f := by
  rw [← mem_components_filesFrom_iff, List.mem_map]
  simp only [Path.equiv_iff]

/-- The order of the starts and repetitions among them make no difference. -/
theorem components_filesFrom_congr {starts' : List Path} (h : ∀ d, d ∈ starts ↔ d ∈ starts') :
    (fs.filesFrom skips starts).map Path.components =
      (fs.filesFrom skips starts').map Path.components := by
  have horder := Path.strictOrder_componentsLt
  rw [components_filesFrom, components_filesFrom]
  refine (Sorted.ascending_ofList horder _).ext horder (Sorted.ascending_ofList horder _) ?_
  intro cs
  rw [Sorted.mem_ofList horder.trichotomous, Sorted.mem_ofList horder.trichotomous]
  simp only [List.mem_map, List.mem_flatMap, h]

end Found

end FileSystem

/-! ### What is ignored -/

/-- Whether one of the texts in `ignores` hides a path: as a pattern that accepts it, or as a path
below the root under which it lies. -/
def ignoredBy (accepts : String → Path → Bool) (root : Path) (ignores : List String) (p : Path) :
    Bool :=
  ignores.any fun s => if isPattern s then accepts s p else p.isUnder (root.join s)

section Ignored

variable {accepts : String → Path → Bool} {root : Path} {ignores ignores' : List String}

theorem ignoredBy_iff {p : Path} : ignoredBy accepts root ignores p = true ↔
    ∃ s ∈ ignores, (if isPattern s then accepts s p else p.isUnder (root.join s)) = true :=
  List.any_eq_true

theorem ignoredBy_mono (h : ignores ⊆ ignores') {p : Path}
    (hp : ignoredBy accepts root ignores p = true) : ignoredBy accepts root ignores' p = true := by
  obtain ⟨s, hs, hp⟩ := ignoredBy_iff.mp hp
  exact ignoredBy_iff.mpr ⟨s, h hs, hp⟩

theorem ignoredBy_congr (h : ∀ s, s ∈ ignores ↔ s ∈ ignores') :
    ignoredBy accepts root ignores = ignoredBy accepts root ignores' := by
  funext p
  rw [Bool.eq_iff_iff, ignoredBy_iff, ignoredBy_iff]
  simp only [h]

theorem FileSystem.Leads.mono {fs : FileSystem} {d f : Path} (h : ignores ⊆ ignores')
    (hlead : fs.Leads (ignoredBy accepts root ignores') d f) :
    fs.Leads (ignoredBy accepts root ignores) d f := by
  obtain ⟨names, hfile, hf, hnone⟩ := hlead
  refine ⟨names, hfile, hf, fun front hfront hne => ?_⟩
  by_contra hskip
  have hmore := ignoredBy_mono h ((Bool.not_eq_false _).mp hskip)
  rw [hnone front hfront hne] at hmore
  cases hmore

end Ignored

/-- The texts that an extraction ignores. -/
def ScanOptions.ignored (o : ScanOptions) : List String :=
  o.ignores ++ if o.ignoresTests then testFilePatterns else []

/-- A pattern accepts a path by its way from the root or by its whole text. One that cannot be
read accepts none. -/
def patternAccepts (root : Path) (s : String) (p : Path) : Bool :=
  match Glob.parse s with
  | .ok g => g.accepts ((p.relativeTo? root).getD p).slashed || g.accepts p.slashed
  | .error _ => false

theorem isPattern_of_mem_tests (o : ScanOptions) {s : String}
    (h : s ∈ if o.ignoresTests then testFilePatterns else []) : isPattern s = true := by
  have htests : ∀ s ∈ testFilePatterns, isPattern s = true := by decide
  split at h
  · exact htests s h
  · cases h

theorem any_globs_iff {root : Path} {patterns : List String} {p : Path} :
    ((patterns.filterMap fun s => (Glob.parse s).toOption).any fun g =>
      g.accepts ((p.relativeTo? root).getD p).slashed || g.accepts p.slashed) = true ↔
    ∃ s ∈ patterns, patternAccepts root s p = true := by
  rw [List.any_filterMap, List.any_eq_true]
  refine exists_congr fun s => and_congr_right fun _ => ?_
  unfold patternAccepts
  cases Glob.parse s <;> rfl

theorem ignores_eq_ignoredBy (root : Path) (o : ScanOptions) :
    (IgnoreRules.of root o).ignores = ignoredBy (patternAccepts root) root o.ignored := by
  funext p
  simp only [IgnoreRules.ignores, IgnoreRules.of]
  rw [Bool.eq_iff_iff, ignoredBy_iff, Bool.or_eq_true, any_globs_iff]
  simp only [List.any_map, List.any_eq_true, List.mem_filter, List.mem_append,
    ScanOptions.ignored, Function.comp_apply]
  constructor
  · rintro (⟨s, ⟨hs, hliteral⟩, hp⟩ | ⟨s, ⟨hs, hpattern⟩ | hs, hp⟩)
    · have hliteral : ¬ isPattern s = true := by simpa using hliteral
      exact ⟨s, .inl hs, by rwa [if_neg hliteral]⟩
    · exact ⟨s, .inl hs, by rwa [if_pos hpattern]⟩
    · exact ⟨s, .inr hs, by rwa [if_pos (isPattern_of_mem_tests o hs)]⟩
  · rintro ⟨s, hs, hp⟩
    by_cases hpattern : isPattern s = true
    · rw [if_pos hpattern] at hp
      exact .inr ⟨s, hs.imp (⟨·, hpattern⟩) id, hp⟩
    · rw [if_neg hpattern] at hp
      -- what names tests is always a pattern
      have hs := hs.resolve_right fun hs => hpattern (isPattern_of_mem_tests o hs)
      exact .inl ⟨s, ⟨hs, by simpa using hpattern⟩, hp⟩

/-! ### Included paths -/

namespace FileSystem

theorem mem_included_iff {fs : FileSystem} {root d : Path} {includes : List String} :
    d ∈ fs.included root includes ↔ includes = [] ∧ d = root ∨
      ∃ s ∈ includes, d ∈
        if isPattern s then (fs.directoriesLike (root.join s).text).toOption.getD []
        else if fs.has (root.join s) then [root.join s] else [] := by
  unfold included
  by_cases h : includes = []
  · simp [h]
  · rw [if_neg h, List.mem_flatMap]
    simp only [h, false_and, false_or]

theorem mem_included_congr {fs : FileSystem} {root d : Path} {includes includes' : List String}
    (h : ∀ s, s ∈ includes ↔ s ∈ includes') :
    d ∈ fs.included root includes ↔ d ∈ fs.included root includes' := by
  have hnil : includes = [] ↔ includes' = [] := by
    rw [List.eq_nil_iff_forall_not_mem, List.eq_nil_iff_forall_not_mem]
    simp only [h]
  rw [mem_included_iff, mem_included_iff, hnil]
  simp only [h]

theorem scan_eq_filesFrom (fs : FileSystem) (root : Path) (o : ScanOptions) : fs.scan root o =
    fs.filesFrom (ignoredBy (patternAccepts root) root o.ignored) (fs.included root o.includes) := by
  rw [scan, ignores_eq_ignoredBy]

/-- The files that are found are the source files to which one of the starts leads with nothing
ignored on the way, each once. What is found depends on the sets of the starts and of the ignored
texts only, and to ignore more finds no more. A scan finds these files from what it includes. -/
theorem filesFrom_exact (fs : FileSystem) (accepts : String → Path → Bool) (root : Path)
    (ignores : List String) (starts : List Path) :
    (∀ f, (∃ g ∈ fs.filesFrom (ignoredBy accepts root ignores) starts, g.equiv f = true) ↔
      isSourceFile f = true ∧ ∃ d ∈ starts, fs.Leads (ignoredBy accepts root ignores) d f) ∧
    Sorted.Ascending Path.lt (fs.filesFrom (ignoredBy accepts root ignores) starts) ∧
    (∀ ignores' starts', (∀ s, s ∈ ignores ↔ s ∈ ignores') → (∀ d, d ∈ starts ↔ d ∈ starts') →
      (fs.filesFrom (ignoredBy accepts root ignores) starts).map Path.components =
        (fs.filesFrom (ignoredBy accepts root ignores') starts').map Path.components) ∧
    (∀ ignores', ignores ⊆ ignores' →
      ∀ f ∈ fs.filesFrom (ignoredBy accepts root ignores') starts,
        ∃ g ∈ fs.filesFrom (ignoredBy accepts root ignores) starts, g.equiv f = true) ∧
    ∀ o : ScanOptions,
      fs.scan root o = fs.filesFrom (ignoredBy (patternAccepts root) root o.ignored)
        (fs.included root o.includes) ∧
      ∀ o' : ScanOptions, (∀ s, s ∈ o.includes ↔ s ∈ o'.includes) →
        (∀ s, s ∈ o.ignored ↔ s ∈ o'.ignored) →
        (fs.scan root o).map Path.components = (fs.scan root o').map Path.components := by
  refine ⟨fun f => exists_filesFrom_iff, ascending_filesFrom fs _ _, ?_, ?_, fun o => ⟨?_, ?_⟩⟩
  · intro ignores' starts' hignores hstarts
    rw [ignoredBy_congr hignores]
    exact components_filesFrom_congr hstarts
  · intro ignores' hmore f hf
    have hequiv : f.equiv f = true := Path.equiv_iff.mpr rfl
    obtain ⟨hsource, d, hd, hlead⟩ := exists_filesFrom_iff.mp ⟨f, hf, hequiv⟩
    exact exists_filesFrom_iff.mpr ⟨hsource, d, hd, hlead.mono hmore⟩
  · exact scan_eq_filesFrom fs root o
  · intro o' hincludes hignores
    rw [scan_eq_filesFrom, scan_eq_filesFrom, ignoredBy_congr hignores]
    exact components_filesFrom_congr fun d => mem_included_congr hincludes

set_option maxRecDepth 100000 in
/-- A directory that is ignored hides its files, but the walk from a path below it finds some. -/
theorem filesFrom_exact_ignoredParent :
    let fs : FileSystem := ⟨.directory [("app", .directory [
      ("a.ts", .file (.text "")), ("a.d.ts", .file (.text "")),
      ("gen", .directory [("b.ts", .file (.text "")),
        ("kept", .directory [("c.ts", .file (.text ""))])])])], []⟩
    let skips := ignoredBy (fun _ p => p.fileName? == some "gen") ⟨""⟩ ["gen*"]
    let starts : List Path := [⟨"app"⟩, ⟨"app/gen/kept"⟩]
    fs.filesFrom skips starts = [⟨"app/a.ts"⟩, ⟨"app/gen/kept/c.ts"⟩] ∧
    (∃ d ∈ starts, fs.Leads skips d ⟨"app//gen/kept/c.ts"⟩) ∧
    (fs.filesFrom skips (starts.reverse ++ starts)).map Path.components =
      [⟨"app/a.ts"⟩, ⟨"app/gen/kept/c.ts"⟩].map Path.components ∧
    ¬ ∃ d ∈ starts, fs.Leads skips d ⟨"app/gen/b.ts"⟩ := by
  intro fs skips starts
  have hfiles : fs.filesFrom skips starts = [⟨"app/a.ts"⟩, ⟨"app/gen/kept/c.ts"⟩] := by
    decide +kernel
  obtain ⟨hfound, -, hsame, -, -⟩ :=
    filesFrom_exact fs (fun _ p => p.fileName? == some "gen") ⟨""⟩ ["gen*"] starts
  have hstarts (d : Path) : d ∈ starts ↔ d ∈ starts.reverse ++ starts := by simp
  refine ⟨hfiles, ((hfound _).mp ⟨⟨"app/gen/kept/c.ts"⟩, ?_, by decide +kernel⟩).2, ?_, ?_⟩
  · exact hfiles ▸ by simp
  · rw [← hsame ["gen*"] _ (fun _ => .rfl) hstarts]
    exact congrArg _ hfiles
  · intro hlead
    obtain ⟨g, hg, hequiv⟩ := (hfound ⟨"app/gen/b.ts"⟩).mpr ⟨by decide +kernel, hlead⟩
    have hnot : ∀ g ∈ fs.filesFrom skips starts, ¬ g.equiv ⟨"app/gen/b.ts"⟩ = true := by
      rw [hfiles]
      decide +kernel
    exact hnot g hg hequiv

end FileSystem

end Phrasebook
