import Phrasebook.Proofs.RawComments
import Phrasebook.Proofs.Revision

/-!
# Files without comments

Where no comment leads a token, marks and documentation can only come from the text in front of a
function, which is searched for comments character by character. The key of the property stands in
this text. Something in a key that reads as a comment counts as one, also within a string.
`prepare_of_uncommented` says exactly when a file without comments is read as one.
-/

namespace Phrasebook

open Collect (front searched)
open DocLookup (CommentLike blockComment hasMark rawComments rawDoc rawDoc_eq_none_iff)
open Script (Module)

/-- No comment leads a token of the module. -/
def Script.Module.Uncommented (m : Module) : Prop := ∀ place, m.leadingAt place = []

theorem Script.Module.uncommented_of_comments {m : Module} (h : m.comments = []) :
    m.Uncommented := fun place => by rw [Module.leadingAt, h]; rfl

namespace PlacedFunction

/-- What reads as a comment in the text in front of a message function. -/
def foundComments (source : List Char) (f : PlacedFunction) : List (List Char) :=
  rawComments (searched f.previousEnd.isSome (front source f.previousEnd f.brace f.functionLo))

variable {m : Module} (source : List Char) (f : PlacedFunction)

theorem doc_of_uncommented (h : m.Uncommented) :
    f.doc m source = ⟨(f.foundComments source).reverse.findSome? rawDoc,
      (f.foundComments source).any hasMark⟩ := by
  rw [doc_eq, h, h]
  rfl

/-- Nothing in front of the function that reads as a comment has a mark, and in nothing of it stands
a block comment. -/
def IsPlain : Prop :=
  ∀ comment ∈ f.foundComments source,
    hasMark comment = false ∧ ∀ text, ¬ blockComment text <:+: comment

theorem isPlain_iff (h : m.Uncommented) :
    f.IsPlain source ↔ (f.doc m source).isExempt = false ∧ (f.doc m source).doc = none := by
  rw [doc_of_uncommented source f h]
  simp only [IsPlain, List.any_eq_false, Bool.not_eq_true, List.findSome?_eq_none_iff,
    List.mem_reverse, rawDoc_eq_none_iff, forall_and]

/-- What is searched is a part of the text. -/
theorem searched_isInfix : searched f.previousEnd.isSome
    (front source f.previousEnd f.brace f.functionLo) <:+: source := by
  have hfront : front source f.previousEnd f.brace f.functionLo <:+: source := by
    rw [front]
    cases hslice : Text.slice? source (f.previousEnd.getD (f.brace + 1)) f.functionLo with
    | none => exact List.nil_infix
    | some text =>
      obtain ⟨before, after, rfl, -, -⟩ := Text.exists_of_slice? hslice
      exact ⟨before, after, List.append_assoc ..⟩
  rw [searched]
  split
  · exact ((List.drop_suffix _ _).trans (List.dropWhile_suffix _)).isInfix.trans hfront
  · exact hfront

theorem isPlain_of_not_commentLike (h : ∀ comment, CommentLike comment → ¬ comment <:+: source) :
    f.IsPlain source := by
  intro comment hcomment
  obtain ⟨hlike, hpart⟩ := DocLookup.commentLike_of_mem hcomment
  exact absurd (hpart.trans (f.searched_isInfix source)) (h comment hlike)

end PlacedFunction

theorem forall_mem_iff_of_forall₂ {α β : Type} {R : α → β → Prop} {P : α → Prop} {Q : β → Prop}
    {as : List α} {bs : List β} (h : List.Forall₂ R as bs) (hR : ∀ a b, R a b → (Q b ↔ P a)) :
    (∀ b ∈ bs, Q b) ↔ ∀ a ∈ as, P a := by
  induction h with
  | nil => simp
  | cons h hs ih => rw [List.forall_mem_cons, List.forall_mem_cons, hR _ _ h, ih]

/-- In a file without comments, a message function is exempt exactly if something in front of it
that reads as a comment has a mark, and the documentation of the others is that of the last one that
has any. So no message is exempt and none has documentation exactly if all of them are plain. -/
theorem prepare_of_uncommented {source filename : String} {m : Module}
    (hm : readModule source filename = some m) (h : m.Uncommented) (o : Options) :
    let marked (f : PlacedFunction) := (f.foundComments source.toList).any hasMark
    let p := prepare source filename o
    List.Forall₂ (fun f c => c.text = f.text ∧
        c.doc = (f.foundComments source.toList).reverse.findSome? rawDoc)
      ((placedOf m.items).filter fun f => !marked f) p.candidates ∧
    p.exempted = ((placedOf m.items).filter marked).length ∧
    ((p.exempted = 0 ∧ ∀ c ∈ p.candidates, c.doc = none) ↔
      ∀ f ∈ placedOf m.items, f.IsPlain source.toList) ∧
    ((∀ comment, CommentLike comment → ¬ comment <:+: source.toList) →
      p.exempted = 0 ∧ ∀ c ∈ p.candidates, c.doc = none) := by
  intro marked p
  -- without comments in the module only what is found in the text can exempt
  have hmarked (f : PlacedFunction) : (f.doc m source.toList).isExempt = marked f := by
    rw [f.doc_of_uncommented source.toList h]
  obtain ⟨hcandidates, hexempted⟩ := forall₂_candidates_prepare hm o
  simp only [hmarked] at hcandidates hexempted
  have hdocs (f : PlacedFunction) (c : Candidate)
      (hc : (f.messageFunction m source.toList).Yields c) :
      c.doc = (f.foundComments source.toList).reverse.findSome? rawDoc := by
    rw [hc.doc, PlacedFunction.messageFunction, f.doc_of_uncommented source.toList h]
  have hnone : (∀ c ∈ p.candidates, c.doc = none) ↔
      ∀ f ∈ (placedOf m.items).filter fun f => !marked f, (f.doc m source.toList).doc = none :=
    forall_mem_iff_of_forall₂ hcandidates fun f c hc => by rw [hc.doc]; rfl
  have hplain : (p.exempted = 0 ∧ ∀ c ∈ p.candidates, c.doc = none) ↔
      ∀ f ∈ placedOf m.items, f.IsPlain source.toList := by
    rw [hexempted, List.length_eq_zero_iff, List.filter_eq_nil_iff, hnone]
    simp only [PlacedFunction.isPlain_iff _ _ h, hmarked, List.mem_filter, Bool.not_eq_true',
      Bool.not_eq_true, and_imp]
    exact ⟨fun h f hf => ⟨h.1 f hf, h.2 f hf (h.1 f hf)⟩,
      fun h => ⟨fun f hf => (h f hf).1, fun f hf _ => (h f hf).2⟩⟩
  exact ⟨hcandidates.imp fun f c hc => ⟨hc.text, hdocs f c hc⟩, hexempted, hplain,
    fun hnot => hplain.mpr fun f _ => f.isPlain_of_not_commentLike _ hnot⟩

/-- A key with two slashes in a string, from which a line comment is read. -/
def slashedKey : String := "const m = \x7b 'a // b': () => \"Hi\" \x7d;"

set_option maxRecDepth 100000 in
theorem isPlain_slashedKey :
    ((readModule slashedKey "a.ts").any fun m => m.comments.isEmpty &&
      ((placedOf m.items).filter fun f => !(f.foundComments slashedKey.toList).any hasMark).map
        PlacedFunction.text == ["Hi"] &&
      (placedOf m.items).all fun f =>
        f.foundComments slashedKey.toList == ["// b': ".toList] &&
          !(f.doc m slashedKey.toList).isExempt && (f.doc m slashedKey.toList).doc.isNone) =
      true := by
  decide +kernel

/-- The comment that is read there neither exempts the message nor documents it. -/
theorem prepare_of_uncommented_slashedKey :
    (prepare slashedKey "a.ts" {}).candidates.map Candidate.text = ["Hi"] ∧
      (prepare slashedKey "a.ts" {}).exempted = 0 ∧
      ∀ c ∈ (prepare slashedKey "a.ts" {}).candidates, c.doc = none := by
  obtain ⟨m, hm, hcheck⟩ := (Option.any_eq_true ..).mp isPlain_slashedKey
  simp only [Bool.and_eq_true, List.all_eq_true, Bool.not_eq_true', Option.isNone_iff_eq_none,
    List.isEmpty_iff, beq_iff_eq] at hcheck
  obtain ⟨⟨hcomments, htexts⟩, hplain⟩ := hcheck
  have h := Module.uncommented_of_comments hcomments
  obtain ⟨hcandidates, -, hiff, -⟩ := prepare_of_uncommented hm h {}
  refine ⟨(map_text_of_forall₂ hcandidates fun _ _ h => h.1).trans htexts,
    hiff.mpr fun f hf => ?_⟩
  exact (f.isPlain_iff _ h).mpr ⟨(hplain f hf).1.2, (hplain f hf).2⟩

/-- Two keys that are strings which read as comments. -/
def commentedKeys : String :=
  "const m = \x7b\n  '/** @notranslate */': () => \"Hi\",\n  '/** Shown */': () => \"Lo\"\n\x7d;"

set_option maxRecDepth 100000 in
/-- No comment leads a token, but one message is exempt and the other one has documentation. -/
theorem prepare_commentedKeys :
    ((Script.parse false commentedKeys.toList).toOption.any (·.comments.isEmpty)) = true ∧
      (prepare commentedKeys "a.ts" {}).exempted = 1 ∧
      (prepare commentedKeys "a.ts" {}).candidates.map Candidate.doc =
        [some { prose := ["Shown"] }] := by
  decide +kernel

end Phrasebook
