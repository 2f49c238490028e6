import Phrasebook.Config.Load
import Phrasebook.Proofs.FileSystem.Directory

/-!
# The nearest configuration

A search for a configuration takes the components of a path away one after the other, as they are
written (`finds_ancestorsUpTo`): a relative path never leads above the working directory, and in
front of a `..` the search passes directories below the one that it leads to. For paths without
`..` the parts of the path are the directories above its end, from where it begins
(`exists_governs_names_iff`).
-/

namespace Phrasebook

namespace FileSystem

variable {fs : FileSystem}

/-- Whether there is an entry with this name in a directory. -/
def HasIn (fs : FileSystem) (a : Address) (n : String) : Prop :=
  (fs.tree.at? (a ++ [n])).isSome = true

instance (fs : FileSystem) (a : Address) (n : String) : Decidable (fs.HasIn a n) :=
  inferInstanceAs (Decidable (_ = true))

theorem Opens.has_join_iff {p : Path} {a : Address} (h : fs.Opens p a) {n : String}
    (hn : Path.IsName n) (hnull : n.toList.any (·.toNat == 0) = false) :
    fs.has (p.join n) = true ↔ fs.HasIn a n := by
  rw [has_of_locate (h.locate_join hn hnull) (Path.namesDirectory_join_name p hn)]
  rfl

end FileSystem

namespace Config

variable {fs : FileSystem}

/-! ### The nearest configuration -/

/-- A directory at which the search goes on. -/
structure Passes (fs : FileSystem) (a : Address) : Prop where
  configuration : ¬ fs.HasIn a fileName
  repository : ¬ fs.HasIn a repositoryMark

/-- The first part `front` of a way leads to the nearest directory with a configuration, seen from
the end of the way, and no top of a repository is nearer. Ways are addresses, each of whose parts
is a directory above, or components as they are written. -/
structure Governs {α : Type} (fs : FileSystem) (place : List α → Address) (front way : List α) :
    Prop where
  above : front <+: way
  configuration : fs.HasIn (place front) fileName
  nearest : ∀ longer, front <+: longer → longer <+: way → longer ≠ front → Passes fs (place longer)

instance (fs : FileSystem) (a : Address) : Decidable (Passes fs a) :=
  decidable_of_iff (¬ fs.HasIn a fileName ∧ ¬ fs.HasIn a repositoryMark)
    ⟨fun ⟨configuration, repository⟩ => ⟨configuration, repository⟩,
      fun h => ⟨h.configuration, h.repository⟩⟩

instance {α : Type} [DecidableEq α] (fs : FileSystem) (place : List α → Address)
    (front way : List α) : Decidable (Governs fs place front way) :=
  decidable_of_iff (front <+: way ∧ fs.HasIn (place front) fileName ∧
      ∀ longer ∈ way.inits, front <+: longer → longer ≠ front → Passes fs (place longer))
    ⟨fun ⟨above, configuration, nearest⟩ => ⟨above, configuration, fun longer hlonger hway =>
        nearest longer ((List.mem_inits _ _).mpr hway) hlonger⟩,
      fun h => ⟨h.above, h.configuration, fun longer hway hlonger =>
        h.nearest longer hlonger ((List.mem_inits _ _).mp hway)⟩⟩

section Ways

variable {α : Type} {place : List α → Address} {front other way : List α} {last : α}

theorem Governs.unique (h : Governs fs place front way) (h' : Governs fs place other way) :
    front = other := by
  by_contra hne
  rcases List.prefix_or_prefix_of_prefix h.above h'.above with hlonger | hlonger
  · exact (h.nearest other hlonger h'.above (Ne.symm hne)).configuration h'.configuration
  · exact (h'.nearest front hlonger h.above hne).configuration h.configuration

theorem governs_self (h : fs.HasIn (place way) fileName) : Governs fs place way way where
  above := List.prefix_rfl
  configuration := h
  nearest _ hfront hlonger hne := absurd (hlonger.eq_of_length_le hfront.length_le) hne

/-- A directory at the end of the way that does not end the search. -/
theorem governs_concat_iff (h : Passes fs (place (way ++ [last]))) :
    Governs fs place front (way ++ [last]) ↔ Governs fs place front way := by
  constructor
  · intro hfront
    obtain hfull | habove := List.prefix_concat_iff.mp hfront.above
    · exact absurd (hfull ▸ hfront.configuration) h.configuration
    · exact ⟨habove, hfront.configuration, fun longer hlonger hway =>
        hfront.nearest longer hlonger (hway.trans (List.prefix_append _ _))⟩
  · intro hfront
    refine ⟨hfront.above.trans (List.prefix_append _ _), hfront.configuration,
      fun longer hlonger hway hne => ?_⟩
    obtain rfl | hway := List.prefix_concat_iff.mp hway
    · exact h
    · exact hfront.nearest longer hlonger hway hne

/-- A top of a repository at the end of the way ends the search there. -/
theorem not_governs_of_repository (hconfiguration : ¬ fs.HasIn (place way) fileName)
    (hrepository : fs.HasIn (place way) repositoryMark) : ¬ Governs fs place front way := by
  intro h
  by_cases hfull : way = front
  · exact hconfiguration (hfull ▸ h.configuration)
  · exact (h.nearest way h.above List.prefix_rfl hfull).repository hrepository

theorem not_governs_of_passes (h : Passes fs (place [])) : ¬ Governs fs place front [] := by
  intro hfront
  obtain rfl := List.prefix_nil.mp hfront.above
  exact h.configuration hfront.configuration

end Ways

/-! ### The search -/

/-- What is found along components: the configuration of the directory that governs their way, or
nothing if none does. -/
def Finds (fs : FileSystem) (base : Address) (cs : List Path.Component) : Option Path → Prop
  | some p => ∃ front, Governs fs (resolve base) front cs ∧
      fs.locate p = .ok (resolve base front ++ [fileName])
  | none => ∀ front, ¬ Governs fs (resolve base) front cs

theorem isName_fileName : Path.IsName fileName := by decide

theorem isName_repositoryMark : Path.IsName repositoryMark := by decide

theorem findIn_cons {p : Path} {a : Address} (h : fs.Opens p a) (ps : List Path) :
    fs.HasIn a fileName ∧ findIn fs (p :: ps) = some (p.join fileName) ∨
      ¬ fs.HasIn a fileName ∧ fs.HasIn a repositoryMark ∧ findIn fs (p :: ps) = none ∨
      Passes fs a ∧ findIn fs (p :: ps) = findIn fs ps := by
  rw [findIn, if_congr (h.has_join_iff isName_fileName (by decide)) rfl
    (if_congr (h.has_join_iff isName_repositoryMark (by decide)) rfl rfl)]
  by_cases hconfiguration : fs.HasIn a fileName
  · exact .inl ⟨hconfiguration, if_pos hconfiguration⟩
  by_cases hrepository : fs.HasIn a repositoryMark
  · exact .inr (.inl ⟨hconfiguration, hrepository, by
      rw [if_neg hconfiguration, if_pos hrepository]⟩)
  · exact .inr (.inr ⟨⟨hconfiguration, hrepository⟩, by
      rw [if_neg hconfiguration, if_neg hrepository]⟩)

/-- One step of the search, where what comes behind it is known. -/
theorem finds_cons {p : Path} {ps : List Path} {cs : List Path.Component}
    (h : fs.Opens p (resolve (fs.origin p) cs))
    (hrest : Passes fs (resolve (fs.origin p) cs) →
      Finds fs (fs.origin p) cs (findIn fs ps)) :
    Finds fs (fs.origin p) cs (findIn fs (p :: ps)) := by
  obtain ⟨hconfiguration, hfound⟩ | ⟨hconfiguration, hrepository, hfound⟩ | ⟨hpasses, hfound⟩ :=
    findIn_cons h ps
  · rw [hfound]
    exact ⟨cs, governs_self hconfiguration, h.locate_join isName_fileName (by decide)⟩
  · rw [hfound]
    exact fun front => not_governs_of_repository hconfiguration hrepository
  · rw [hfound]
    exact hrest hpasses

/-- The empty path at the end of a relative one stands for the working directory once more. -/
theorem findIn_empty {a : Address} (h : Passes fs a) (hopens : fs.Opens ⟨""⟩ a) (n : Nat) :
    findIn fs (Path.ancestorsUpTo n ⟨""⟩) = none := by
  cases n with
  | zero => rfl
  | succ n =>
    change findIn fs [⟨""⟩] = none
    obtain ⟨hconfiguration, -⟩ | ⟨-, hrepository, -⟩ | ⟨-, hfound⟩ := findIn_cons hopens []
    · exact absurd hconfiguration h.configuration
    · exact absurd hrepository h.repository
    · exact hfound

theorem finds_ancestorsUpTo {cs : List Path.Component} {p : Path} {n : Nat}
    (hbody : Path.body p.text.toList = cs) (hn : cs.length < n)
    (h : fs.Opens p (resolve (fs.origin p) cs)) :
    Finds fs (fs.origin p) cs (findIn fs (p.ancestorsUpTo n)) := by
  induction cs using List.reverseRecOn generalizing p n with
  | nil =>
    obtain ⟨n, rfl⟩ := Nat.exists_eq_add_of_lt hn
    rw [Path.ancestorsUpTo]
    -- no name is left: the walk ends here, or at the empty path, which opens the same directory
    obtain hparent | ⟨hparent, habsolute⟩ := Path.parent?_of_body_nil hbody
    · rw [hparent]
      exact finds_cons h fun hpasses front => not_governs_of_passes hpasses
    · rw [hparent]
      refine finds_cons h fun hpasses => ?_
      have horigin : fs.origin p = fs.workingDirectory := by simp [FileSystem.origin, habsolute]
      rw [findIn_empty hpasses ⟨rfl, by rw [horigin]; rfl, h.directory⟩]
      exact fun front => not_governs_of_passes hpasses
  | append_singleton cs c ih =>
    obtain ⟨n, rfl⟩ := Nat.exists_eq_add_of_lt hn
    obtain ⟨q, hparent, horigin, hfront, hopens⟩ := FileSystem.opens_parent? h.text h.follow hbody
    rw [Path.ancestorsUpTo, hparent]
    refine finds_cons h fun hpasses => ?_
    have hrest := ih hfront (n := (cs ++ [c]).length + n) (by simp; omega) (horigin ▸ hopens)
    rw [horigin] at hrest
    -- this directory has no file, so what governs the longer way governs the shorter one
    cases hfound : findIn fs (q.ancestorsUpTo ((cs ++ [c]).length + n)) with
    | none =>
      rw [hfound] at hrest
      exact fun front hway => hrest front ((governs_concat_iff hpasses).mp hway)
    | some found =>
      rw [hfound] at hrest
      obtain ⟨front, hway, hlocate⟩ := hrest
      exact ⟨front, (governs_concat_iff hpasses).mpr hway, hlocate⟩

theorem finds_find? {start : Path} (h : fs.isDirectory start = true) :
    Finds fs (fs.origin start) (Path.body start.text.toList) (find? fs start) := by
  obtain ⟨a, -, hopens⟩ := FileSystem.opens_of_isDirectory h
  refine finds_ancestorsUpTo rfl ?_ (hopens.address_eq ▸ hopens)
  rw [Path.components_eq, List.length_append]
  omega

/-! ### Ways without `..` -/

/-- Along names each part of the way leads to its own directory, from the first one on. -/
theorem exists_governs_names_iff (base a : Address) (names : List String) :
    (∃ front, resolve base front = a ∧ Governs fs (resolve base) front (names.map .name)) ↔
      base <+: a ∧ Governs fs id a (base ++ names) := by
  constructor
  · rintro ⟨front, rfl, above, configuration, nearest⟩
    obtain ⟨ns, hns, rfl⟩ := List.prefix_map_iff.mp above
    rw [resolve_names] at configuration ⊢
    refine ⟨List.prefix_append base ns, (List.prefix_append_right_inj base).mpr hns,
      configuration, ?_⟩
    rintro b ⟨rest, rfl⟩ hb hne
    rw [List.append_assoc] at hb hne ⊢
    rw [← resolve_names]
    have hlonger := (List.prefix_append_right_inj base).mp hb
    refine nearest _ ((List.prefix_append ns rest).map _) (hlonger.map _) fun heq => hne ?_
    rw [List.map_injective_iff.mpr (fun _ _ h => Path.Component.name.inj h) heq]
  · rintro ⟨⟨ns, rfl⟩, above, configuration, nearest⟩
    have hns := (List.prefix_append_right_inj base).mp above
    refine ⟨ns.map .name, resolve_names base ns, hns.map _, ?_, ?_⟩
    · rwa [resolve_names]
    · intro longer hfront hlonger hne
      obtain ⟨ms, hms, rfl⟩ := List.prefix_map_iff.mp hlonger
      rw [resolve_names]
      refine nearest _ ((List.prefix_append_right_inj base).mpr ?_)
        ((List.prefix_append_right_inj base).mpr hms) fun heq => hne ?_
      · obtain ⟨ks, hks, heq⟩ := List.prefix_map_iff.mp hfront
        rwa [List.map_injective_iff.mpr (fun _ _ h => Path.Component.name.inj h) heq]
      · rw [List.append_cancel_left heq]

/-! ### Loading -/

/-- Whether it is the configuration of the directory at `a` that is found for a path. -/
def Uses (fs : FileSystem) (start : Path) (a : Address) : Prop :=
  ∃ p, find? fs start = some p ∧ fs.locate p = .ok (a ++ [fileName])

/-- The configuration in a file. -/
def loadFile (fs : FileSystem) (p : Path) : Except LoadError (Config × Option Path) := do
  let text ← (fs.readText p).mapError (.unreadable p)
  let config ← (parse text).mapError (.unparsable p)
  config.validate.mapError .invalid
  return (config, some p)

theorem load_eq (fs : FileSystem) (start : Path) : load fs start =
    match find? fs start with
    | none => .ok ({}, none)
    | some p => loadFile fs p := rfl

theorem uses_iff {start : Path} (h : fs.isDirectory start = true) (a : Address) :
    Uses fs start a ↔ ∃ front, resolve (fs.origin start) front = a ∧
      Governs fs (resolve (fs.origin start)) front (Path.body start.text.toList) := by
  have hfinds := finds_find? h
  cases hfound : find? fs start with
  | none =>
    rw [hfound] at hfinds
    refine iff_of_false ?_ fun ⟨front, _, hfront⟩ => hfinds front hfront
    rintro ⟨p, hp, -⟩
    rw [hfound] at hp
    cases hp
  | some p =>
    rw [hfound] at hfinds
    obtain ⟨front, hfront, hlocate⟩ := hfinds
    constructor
    · rintro ⟨q, hq, ha⟩
      obtain rfl := Option.some.inj (hfound.symm.trans hq)
      rw [hlocate] at ha
      exact ⟨front, List.append_cancel_right (Except.ok.inj ha), hfront⟩
    · rintro ⟨other, rfl, hother⟩
      obtain rfl := hfront.unique hother
      exact ⟨p, hfound, hlocate⟩

theorem load_of_uses {start : Path} {a : Address} (h : Uses fs start a) :
    ∃ p, fs.locate p = .ok (a ++ [fileName]) ∧ load fs start = loadFile fs p := by
  obtain ⟨p, hfound, hlocate⟩ := h
  exact ⟨p, hlocate, by rw [load_eq, hfound]⟩

theorem load_of_not_uses {start : Path} (h : fs.isDirectory start = true)
    (hnone : ∀ a, ¬ Uses fs start a) : load fs start = .ok ({}, none) := by
  have hfinds := finds_find? h
  cases hfound : find? fs start with
  | none => rw [load_eq, hfound]
  | some p =>
    rw [hfound] at hfinds
    obtain ⟨front, -, hlocate⟩ := hfinds
    exact absurd ⟨p, hfound, hlocate⟩ (hnone _)

theorem uses_iff_of_names {start : Path} (h : fs.isDirectory start = true)
    (hparent : .parent ∉ start.steps) {d : Address} (hd : fs.locate start = .ok d) (a : Address) :
    Uses fs start a ↔ fs.origin start <+: a ∧ Governs fs id a d := by
  obtain ⟨names, hnames⟩ := Path.body_eq_names fun hmem => hparent (List.mem_append_right _ hmem)
  obtain ⟨d', hlocate, hopens⟩ := FileSystem.opens_of_isDirectory h
  obtain rfl := Except.ok.inj (hlocate.symm.trans hd)
  rw [uses_iff h, hnames, exists_governs_names_iff, hopens.address_eq, hnames, resolve_names]

/-- The configuration of a directory is that of the nearest part of its path as it is written. For
a path without `..` these are the directories above it, but for a relative one only those in the
working directory: it leads to the same configuration as an absolute path unless the directory that
governs lies above. -/
theorem load_nearest {fs : FileSystem} {start : Path} (h : fs.isDirectory start = true) :
    (∀ a, Uses fs start a ↔ ∃ front, resolve (fs.origin start) front = a ∧
      Governs fs (resolve (fs.origin start)) front (Path.body start.text.toList)) ∧
    (∀ a, Uses fs start a →
      ∃ p, fs.locate p = .ok (a ++ [fileName]) ∧ load fs start = loadFile fs p) ∧
    ((∀ a, ¬ Uses fs start a) → load fs start = .ok ({}, none)) ∧
    ∃ d, fs.locate start = .ok d ∧ (.parent ∉ start.steps →
      (∀ a, Uses fs start a ↔ fs.origin start <+: a ∧ Governs fs id a d) ∧
      ∀ other : Path, fs.isDirectory other = true → fs.locate other = .ok d →
        other.isAbsolute = true → .parent ∉ other.steps →
          ((∀ a, Uses fs start a ↔ Uses fs other a) ↔
            ∀ a, Governs fs id a d → fs.origin start <+: a)) := by
  obtain ⟨d, hd, -⟩ := FileSystem.opens_of_isDirectory h
  refine ⟨uses_iff h, fun a => load_of_uses, load_of_not_uses h, d, hd, fun hparent =>
    ⟨uses_iff_of_names h hparent hd, fun other hother hotherd habsolute hotherparent => ?_⟩⟩
  have horigin : fs.origin other = [] := if_pos habsolute
  have huses (a : Address) : Uses fs other a ↔ Governs fs id a d := by
    rw [uses_iff_of_names hother hotherparent hotherd, horigin]
    exact and_iff_right List.nil_prefix
  simp only [uses_iff_of_names h hparent hd, huses, and_iff_right_iff_imp]

set_option maxRecDepth 100000 in
theorem load_nearest_project :
    let project := Entry.directory [("src", .directory [])]
    let fs : FileSystem :=
      ⟨.directory [(".lingorc.json", .file (.text "")), ("project", project)], ["project"]⟩
    fs.isDirectory ⟨"/project/src"⟩ = true ∧ Uses fs ⟨"/project/src"⟩ [] ∧
    fs.isDirectory ⟨"src"⟩ = true ∧ load fs ⟨"src"⟩ = .ok ({}, none) := by
  intro project fs
  have habsolute : fs.isDirectory ⟨"/project/src"⟩ = true := by decide +kernel
  have hrelative : fs.isDirectory ⟨"src"⟩ = true := by decide +kernel
  obtain ⟨-, -, -, d, hd, hnames⟩ := load_nearest habsolute
  obtain rfl : ["project", "src"] = d := Except.ok.inj hd
  obtain ⟨-, -, hdefault, d, hd, hnames'⟩ := load_nearest hrelative
  obtain rfl : ["project", "src"] = d := Except.ok.inj hd
  refine ⟨habsolute, ((hnames (by decide)).1 []).mpr ⟨List.nil_prefix, by decide⟩, hrelative,
    hdefault fun a ha => ?_⟩
  obtain ⟨horigin, hgoverns⟩ := ((hnames' (by decide)).1 a).mp ha
  -- the only file lies above the working directory, where a relative path does not reach
  have hnone : ∀ b ∈ ["project", "src"].inits, ["project"] <+: b → ¬ fs.HasIn b fileName := by
    decide
  exact hnone a ((List.mem_inits _ _).mpr hgoverns.above) horigin hgoverns.configuration

set_option maxRecDepth 100000 in
/-- Relative paths do not lead above the working directory, and parts of a path in front of a `..`
are searched, though they lie below the directory that it leads to. -/
theorem find?_written :
    let b := Entry.directory [(".lingorc.json", .file (.text ""))]
    let fs : FileSystem := ⟨.directory [(".lingorc.json", .file (.text "")),
      ("a", .directory [("b", b)])], ["a"]⟩
    Governs fs id [] ["a"] ∧ fs.isDirectory ⟨"."⟩ = true ∧ fs.locate ⟨"."⟩ = .ok ["a"] ∧
    find? fs ⟨"."⟩ = none ∧
    fs.isDirectory ⟨"/a/b/.."⟩ = true ∧ fs.locate ⟨"/a/b/.."⟩ = .ok ["a"] ∧
    find? fs ⟨"/a/b/.."⟩ = some ⟨"/a/b/.lingorc.json"⟩ ∧
    find? fs ⟨"/a"⟩ = some ⟨"/.lingorc.json"⟩ := by
  decide +kernel

end Config

end Phrasebook
