import Phrasebook.Doc.Lookup
import Phrasebook.Transform

/-!
# Marks in front of a function

Of the comments that lead a token only the last one that is documentation counts
(`lastDoc_eq_some_iff`), also for the mark that exempts a function. So a mark in a comment further
in front is hidden by any documentation behind it, unless it is found in the text in front of the
function as well: `isExempt_resolve_iff` says exactly which marks count.
-/

namespace Phrasebook

open Script (Comment)

/-- The documentation that a comment is. -/
def Script.Comment.doc? (c : Comment) : Option DocComment :=
  if c.isBlock then DocComment.parse c.text else none

/-- The comment is documentation that exempts its function. -/
def Script.Comment.IsMarked (c : Comment) : Prop := c.doc?.any DocComment.exempts = true

instance (c : Comment) : Decidable c.IsMarked := inferInstanceAs (Decidable (_ = true))

namespace DocLookup

theorem lastDoc_eq_findSome? (comments : List Comment) :
    lastDoc comments = comments.reverse.findSome? Comment.doc? := by
  unfold lastDoc
  induction comments.reverse with
  | nil => rfl
  | cons c cs ih =>
    rw [List.findSome?_cons, ← ih, Comment.doc?]
    cases hc : c.isBlock with
    | true => rw [List.filter_cons_of_pos hc, List.findSome?_cons, if_pos rfl]
    | false => rw [List.filter_cons_of_neg (by rw [hc]; decide), if_neg (by decide)]

/-- It is the documentation behind which there is no other one. -/
theorem lastDoc_eq_some_iff {comments : List Comment} {doc : DocComment} :
    lastDoc comments = some doc ↔ ∃ before c after, comments = before ++ c :: after ∧
      c.doc? = some doc ∧ ∀ d ∈ after, d.doc? = none := by
  rw [lastDoc_eq_findSome?, List.findSome?_eq_some_iff]
  constructor
  · rintro ⟨after, c, before, heq, hdoc, hafter⟩
    refine ⟨before.reverse, c, after.reverse, ?_, hdoc, fun d hd => hafter d (by simpa using hd)⟩
    rw [← List.reverse_reverse comments, heq]
    simp
  · rintro ⟨before, c, after, rfl, hdoc, hafter⟩
    exact ⟨after.reverse, c, before.reverse, by simp, hdoc,
      fun d hd => hafter d (by simpa using hd)⟩

theorem any_lastDoc_iff {comments : List Comment} :
    (lastDoc comments).any DocComment.exempts = true ↔ ∃ before c after,
      comments = before ++ c :: after ∧ c.IsMarked ∧ ∀ d ∈ after, d.doc? = none := by
  rw [Option.any_eq_true]
  constructor
  · rintro ⟨doc, hdoc, hexempts⟩
    obtain ⟨before, c, after, heq, hc, hafter⟩ := lastDoc_eq_some_iff.mp hdoc
    refine ⟨before, c, after, heq, ?_, hafter⟩
    rw [Comment.IsMarked, hc, Option.any_some, hexempts]
  · rintro ⟨before, c, after, heq, hc, hafter⟩
    obtain ⟨doc, hdoc, hexempts⟩ := Option.any_eq_true _ _ |>.mp hc
    exact ⟨doc, lastDoc_eq_some_iff.mpr ⟨before, c, after, heq, hdoc, hafter⟩, hexempts⟩

/-- A function is exempt exactly if at one of its anchors there is a marked comment behind which no
other one is documentation, or if something that is found in the text in front of it has a mark.
Any other mark is lost. -/
theorem isExempt_resolve_iff (leading : List (List Comment)) (raw : List Char) :
    (resolve leading raw).isExempt = true ↔
      (∃ comments ∈ leading, ∃ before c after, comments = before ++ c :: after ∧ c.IsMarked ∧
        ∀ d ∈ after, d.doc? = none) ∨
      ∃ comment ∈ rawComments raw, hasMark comment = true := by
  have hstructured : (leading.filterMap lastDoc).any (·.exempts) = true ↔
      ∃ comments ∈ leading, (lastDoc comments).any DocComment.exempts = true := by
    rw [List.any_filterMap, List.any_eq_true]
    refine exists_congr fun comments => and_congr_right fun _ => ?_
    cases lastDoc comments <;> rfl
  rw [resolve, Bool.or_eq_true, hstructured, List.any_eq_true]
  simp only [any_lastDoc_iff]

/-- The mark is hidden by documentation behind it, and the text in front of the function begins
only behind the line of the property before it. -/
theorem resolve_hiddenMark :
    let comments : List Comment := [⟨true, "* @notranslate ".toList⟩, ⟨true, "* Menu ".toList⟩]
    (∃ c ∈ comments, c.IsMarked) ∧ (resolve [comments] []).isExempt = false ∧
      (resolve [comments.reverse] []).isExempt = true ∧
      ((prepare "const m = \x7b a: () => \"A\", /** @notranslate */ /** Menu */ b: () => \"B\" \x7d;"
        "menu.ts" {}).candidates.map (·.property)) = ["a", "b"] := by
  decide +kernel

end DocLookup

end Phrasebook
