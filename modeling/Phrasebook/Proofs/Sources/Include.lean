import Phrasebook.Extraction
import Phrasebook.Proofs.Sources

/-!
# Directories that are included as they are

A text without wildcards is taken as a path by the check of a configuration, and by a scan if
there is no bracket in it either (`isPattern_eq_false_iff`). Then the directory at the path is
walked with all its source files (`sources_of_literal`). A directory with a bracket in its name is
passed over (`sources_bracketedDirectory`).
-/

namespace Phrasebook

theorem isPattern_eq_false_iff {s : String} :
    isPattern s = false ↔ Config.hasWildcard s = false ∧ '[' ∉ s.toList := by
  have hstep (c : Char) : (c == '*' || c == '?' || c == '[') = false ↔
      (c == '*' || c == '?') = false ∧ c ≠ '[' := by
    rw [Bool.or_eq_false_iff, beq_eq_false_iff_ne]
  simp only [isPattern, Config.hasWildcard, List.any_eq_false, Bool.not_eq_true, hstep]
  constructor
  · exact fun h => ⟨fun c hc => (h c hc).1, fun hbracket => (h '[' hbracket).2 rfl⟩
  · rintro ⟨hwild, hbracket⟩ c hc
    exact ⟨hwild c hc, fun heq => hbracket (heq ▸ hc)⟩

namespace FileSystem

theorem has_of_isDirectory {fs : FileSystem} {p : Path} (h : fs.isDirectory p = true) :
    fs.has p = true := by
  unfold isDirectory at h
  unfold has
  cases hentry : fs.entry p with
  | ok e => rfl
  | error fault => simp [hentry] at h

theorem join_mem_included {fs : FileSystem} {root : Path} {includes : List String} {s : String}
    (hs : s ∈ includes) (hliteral : isPattern s = false) (h : fs.has (root.join s) = true) :
    root.join s ∈ fs.included root includes := by
  rw [mem_included_iff]
  refine .inr ⟨s, hs, ?_⟩
  rw [hliteral, if_neg Bool.false_ne_true, if_pos h]
  exact List.mem_singleton_self _

/-- A scan finds the source files below what it includes that nothing ignored hides. -/
theorem exists_scan {fs : FileSystem} {root d : Path} {o : ScanOptions} {names : Address}
    (hd : d ∈ fs.included root o.includes) (hfile : fs.HasFile d names)
    (hsource : isSourceFile (d.under names) = true)
    (hnone : NoneSkipped (IgnoreRules.of root o).ignores d names) :
    ∃ f ∈ fs.scan root o, f.equiv (d.under names) = true := by
  rw [scan]
  exact exists_filesFrom_iff.mpr ⟨hsource, d, hd, names, hfile, Path.equiv_iff.mpr rfl, hnone⟩

end FileSystem

namespace Extraction

/-- An included directory whose text the check of a configuration takes as it is is taken so by a
scan unless there is a bracket in it. Then it is walked: all source files in it are found that are
not ignored and lie in no ignored directory below it. -/
theorem sources_of_literal {c : Config} {fs : FileSystem} {root : Path} {s : String}
    (hs : s ∈ c.includes) (hwild : Config.hasWildcard s = false)
    (hdirectory : fs.isDirectory (root.join s) = true) :
    (isPattern s = false ↔ '[' ∉ s.toList) ∧
    ('[' ∉ s.toList → root.join s ∈ fs.included root c.includes ∧
      ∀ names, fs.HasFile (root.join s) names →
        isSourceFile ((root.join s).under names) = true →
        NoneSkipped (IgnoreRules.of root ⟨c.includes, c.ignores, c.ignoresTests⟩).ignores
          (root.join s) names →
        ∃ f ∈ sources c root fs, f.equiv ((root.join s).under names) = true) := by
  have hliteral : isPattern s = false ↔ '[' ∉ s.toList :=
    isPattern_eq_false_iff.trans (and_iff_right hwild)
  refine ⟨hliteral, fun hbracket => ?_⟩
  have hmem := FileSystem.join_mem_included hs (hliteral.mpr hbracket)
    (FileSystem.has_of_isDirectory hdirectory)
  exact ⟨hmem, fun names hfile hsource hnone => FileSystem.exists_scan hmem hfile hsource hnone⟩

set_option maxRecDepth 100000 in
theorem sources_of_literal_ignoredPart :
    let c : Config := { includes := ["app/(home)"], ignores := ["app/(home)/gen"] }
    let fs : FileSystem := ⟨.directory [("app", .directory [("(home)", .directory [
      ("a.ts", .file (.text "")), ("gen", .directory [("b.ts", .file (.text ""))])])])], []⟩
    ⟨"./app/(home)"⟩ ∈ fs.included ⟨"."⟩ c.includes ∧
    ∃ f ∈ sources c ⟨"."⟩ fs, f.equiv ⟨"./app/(home)/a.ts"⟩ = true := by
  intro c fs
  have hjoin : (Path.mk ".").join "app/(home)" = ⟨"./app/(home)"⟩ := by decide +kernel
  have hunder : ((Path.mk ".").join "app/(home)").under ["a.ts"] = ⟨"./app/(home)/a.ts"⟩ := by
    decide +kernel
  have hs : "app/(home)" ∈ c.includes := by decide
  obtain ⟨hmem, hfound⟩ := (@sources_of_literal c fs ⟨"."⟩ _ hs (by decide +kernel)
    (by decide +kernel)).2 (by decide +kernel)
  rw [hjoin] at hmem
  rw [← hunder]
  exact ⟨hmem, hfound ["a.ts"]
    ⟨_, .text "", rfl, by simp [Entry.files, Entry.filesAt, Entry.filesIn]⟩
    (by decide +kernel) (noneSkipped_cons_iff.mpr ⟨by decide +kernel, noneSkipped_nil _ _⟩)⟩

set_option maxRecDepth 100000 in
/-- The pattern `app/[locale]` finds directories whose names are one letter, and not the one with
this name. -/
theorem sources_bracketedDirectory :
    let c : Config := { includes := ["app/[locale]"] }
    let fs : FileSystem := ⟨.directory [("app", .directory [("[locale]", .directory [
      ("a.ts", .file (.text ""))])])], []⟩
    let d := (Path.mk ".").join "app/[locale]"
    c.validate = .ok () ∧ "app/[locale]" ∈ c.includes ∧
    Config.hasWildcard "app/[locale]" = false ∧ fs.isDirectory d = true ∧
    fs.HasFile d ["a.ts"] ∧ isSourceFile (d.under ["a.ts"]) = true ∧
    NoneSkipped (IgnoreRules.of ⟨"."⟩ ⟨c.includes, c.ignores, c.ignoresTests⟩).ignores d ["a.ts"] ∧
    sources c ⟨"."⟩ fs = [] := by
  intro c fs d
  have hfile : fs.HasFile d ["a.ts"] :=
    ⟨.directory [("a.ts", .file (.text ""))], .text "", by simp only [d, fs]; rfl,
      by simp [Entry.files, Entry.filesAt, Entry.filesIn]⟩
  exact ⟨by decide +kernel, by decide, by decide +kernel, by decide +kernel, hfile,
    by decide +kernel, noneSkipped_cons_iff.mpr ⟨by decide +kernel, noneSkipped_nil _ _⟩,
    by decide +kernel⟩

end Extraction

end Phrasebook
