import Phrasebook.Proofs.Script.Prefix
import Phrasebook.Transform

/-!
# Preparing a file

What is prepared of a file is that of the module which its text, or a beginning of it, is
(`prepare_of_readModule`). Of a text that has no such beginning nothing is prepared but its name
(`prepare_of_readModule_eq_none`).
-/

namespace Phrasebook

open Script (Module)

variable {source filename : String} {m : Module}

/-! ### The module of a text -/

theorem exists_of_readModule (h : readModule source filename = some m) :
    ∃ jsx cs, cs <+: source.toList ∧ Script.parse jsx cs = .ok m := by
  unfold readModule at h
  dsimp only at h
  split at h
  · rename_i m' hparse
    obtain rfl := Option.some.inj h
    exact ⟨_, _, List.prefix_rfl, hparse⟩
  · obtain ⟨cs, hcs, hparse⟩ := Script.exists_of_parsePrefix h
    exact ⟨_, cs, hcs, hparse⟩

theorem readModule_of_parse_eq_error {e : Script.SyntaxFailure}
    (h : Script.parse (Script.allowsTags filename) source.toList = .error e) :
    readModule source filename =
      Script.parsePrefix (Script.allowsTags filename) source.toList e.offset := by
  unfold readModule
  dsimp only
  rw [h]

/-! ### What is prepared -/

@[simp] theorem prepare_filename (source filename : String) (o : Options) :
    (prepare source filename o).filename = filename := by
  unfold prepare
  split <;> rfl

theorem prepare_of_readModule_eq_none (h : readModule source filename = none) (o : Options) :
    prepare source filename o = { filename } := by
  unfold prepare
  rw [h]

theorem prepare_of_readModule (h : readModule source filename = some m) (o : Options) :
    prepare source filename o =
      { filename
        candidates := (collect m source.toList).candidates
        exempted := (collect m source.toList).exempted
        importAt :=
          if m.items.any (bindsValue o.runtimeId) then none else some (importPlace m.items) } := by
  unfold prepare
  rw [h]

theorem candidates_prepare (h : readModule source filename = some m) (o : Options) :
    (prepare source filename o).candidates = (collect m source.toList).candidates := by
  rw [prepare_of_readModule h]

theorem exempted_prepare (h : readModule source filename = some m) (o : Options) :
    (prepare source filename o).exempted = (collect m source.toList).exempted := by
  rw [prepare_of_readModule h]

theorem importAt_prepare (h : readModule source filename = some m) (o : Options) :
    (prepare source filename o).importAt =
      if m.items.any (bindsValue o.runtimeId) then none else some (importPlace m.items) := by
  rw [prepare_of_readModule h]

theorem eq_importPlace (h : readModule source filename = some m) {o : Options} {place : ImportPlace}
    (hplace : place ∈ (prepare source filename o).importAt) : place = importPlace m.items := by
  rw [importAt_prepare h] at hplace
  split at hplace
  · cases hplace
  · exact (Option.some.inj hplace).symm

/-- The runtime is not imported into a file that does so itself. -/
theorem importAt_prepare_eq_none_iff (h : readModule source filename = some m) (o : Options) :
    (prepare source filename o).importAt = none ↔ m.items.any (bindsValue o.runtimeId) = true := by
  simp [importAt_prepare h]

theorem exists_readModule_of_candidates {o : Options}
    (h : (prepare source filename o).candidates ≠ []) :
    ∃ m, readModule source filename = some m := by
  cases hread : readModule source filename with
  | none => exact absurd (by rw [prepare_of_readModule_eq_none hread]) h
  | some m => exact ⟨m, rfl⟩

end Phrasebook
