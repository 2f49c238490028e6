import Phrasebook.Proofs.Placed
import Phrasebook.Proofs.Script.Alone

/-!
# What the range of a candidate covers

Behind a byte order mark the range of a candidate covers the expression that is returned, together
with comments that count as a part of its first token. Parsed on its own between parentheses it has
the text of the candidate. The mark itself is not counted: in a source that begins with one all
ranges lie too far in front.
-/

namespace Phrasebook

open Script (GapText Spelling foldAlone SpelledAt skipByteOrderMark)
open Text (byteLength slice? slice?_append)

/-- The bytes of a byte order mark in front of a text. -/
def markLength (cs : List Char) : Nat := if cs.head? = some '\uFEFF' then 3 else 0

theorem exists_byteOrderMark (cs : List Char) :
    ∃ mark, cs = mark ++ skipByteOrderMark cs ∧ byteLength mark = markLength cs := by
  unfold markLength
  split
  · rename_i hmark
    obtain ⟨rest, rfl⟩ := List.head?_eq_some_iff.mp hmark
    exact ⟨['\uFEFF'], rfl, rfl⟩
  · rename_i hmark
    exact ⟨[], (skipByteOrderMark_eq hmark).symm, rfl⟩

/-- What writes an expression is parsed between parentheses, behind comments and in front of the
line end that ends a string without a closing quote. -/
theorem foldAlone_append (jsx : Bool) {lead expr : List Char} {follow : Option Char} {text : String}
    (hlead : GapText false lead) (h : Spelling true follow expr text) :
    foldAlone jsx (lead ++ (expr ++ follow.toList)) = some text := by
  have hfollow : GapText false follow.toList := by
    cases follow with
    | none => exact .nil
    | some x =>
      refine .lineEnd ?_ .nil
      rcases h.isLineEnd_follow x rfl with rfl | rfl <;> decide
  have hparen := Spelling.paren hlead h hfollow (by cases follow <;> simp) (.inl rfl)
  exact Script.foldAlone_of_spelling jsx (by simpa using hparen)

/-- The range of a candidate covers an expression that writes its text. -/
theorem Prepared.Placed.spelledAt {p : Prepared} {text : List Char} (h : p.Placed text)
    {c : Candidate} (hc : c ∈ p.candidates) : SpelledAt text c.start c.stop c.text := by
  obtain ⟨a, b, ss, hrow, hsub, -⟩ := h
  obtain ⟨place, -, hstands, -⟩ := hrow.exists_place (hsub.subset (List.mem_map_of_mem hc))
  exact hstands.spelled

/-- In every source, the range of a candidate covers an expression that writes its text, behind
comments that count as a part of the first token, when a byte order mark in front of the source is
counted as well. Parsed on its own between parentheses it has that text: at the start of a line,
where all comments are ones, and mostly also elsewhere. A string without its closing quote still
needs a line end `follow` behind it. -/
theorem exists_slice_prepare (source filename : String) (o : Options) (jsx : Bool) {c : Candidate}
    (hc : c ∈ (prepare source filename o).candidates) : ∃ lead expr follow,
      slice? source.toList (markLength source.toList + c.start)
        (markLength source.toList + c.stop) = some (lead ++ expr) ∧
      (∃ lines, GapText lines lead) ∧ Spelling true follow expr c.text ∧
      foldAlone jsx ('\n' :: (lead ++ (expr ++ follow.toList))) = some c.text ∧
      (GapText false lead → foldAlone jsx (lead ++ (expr ++ follow.toList)) = some c.text) := by
  obtain ⟨before, lead, expr, after, htext, hstart, hstop, ⟨lines, hlead⟩, follow, hexpr⟩ :=
    (placed_prepare_text source filename o).spelledAt hc
  obtain ⟨mark, hsource, hmark⟩ := exists_byteOrderMark source.toList
  have hslice := slice?_append (mark ++ before) (lead ++ expr) after
  rw [Text.byteLength_append, hmark, hstart, Nat.add_assoc, hstop, List.append_assoc,
    List.append_assoc lead, ← htext, ← hsource] at hslice
  have hline := foldAlone_append jsx (hlead.atLineStart.lineEnd (c := '\n') (by decide)) hexpr
  rw [List.cons_append] at hline
  exact ⟨lead, expr, follow, hslice, ⟨lines, hlead⟩, hexpr, hline,
    fun hlead => foldAlone_append jsx hlead hexpr⟩

/-- A message in a file that begins with a byte order mark. -/
def markedSource : String := "\uFEFFconst m = \x7b a: () => \"A\" \x7d;"

def markedCandidate : Candidate where
  shape := .arrowExpression
  property := "a"
  text := "A"
  start := 21
  stop := 24
  params := []
  doc := none
  line := 1
  col := 13

set_option maxRecDepth 100000 in
theorem candidates_markedSource :
    (prepare markedSource "src/messages.ts" {}).candidates = [markedCandidate] := by
  decide +kernel

theorem exists_slice_prepare_marked :
    markedCandidate ∈ (prepare markedSource "src/messages.ts" {}).candidates ∧
      ∃ lead expr follow, slice? markedSource.toList 24 27 = some (lead ++ expr) ∧
        (∃ lines, GapText lines lead) ∧ Spelling true follow expr "A" ∧
        foldAlone false ('\n' :: (lead ++ (expr ++ follow.toList))) = some "A" ∧
        (GapText false lead → foldAlone false (lead ++ (expr ++ follow.toList)) = some "A") := by
  have hmem : markedCandidate ∈ (prepare markedSource "src/messages.ts" {}).candidates := by
    rw [candidates_markedSource]
    exact List.mem_singleton_self _
  exact ⟨hmem, exists_slice_prepare markedSource "src/messages.ts" {} false hmem⟩

/-- Without the mark being counted the range covers the arrow in front of the text. -/
theorem slice_markedSource : ∃ c ∈ (prepare markedSource "src/messages.ts" {}).candidates,
    slice? markedSource.toList c.start c.stop = some "=> ".toList ∧
      foldAlone false "=> ".toList ≠ some c.text := by
  refine ⟨markedCandidate, ?_, by decide +kernel, by decide +kernel⟩
  rw [candidates_markedSource]
  exact List.mem_singleton_self _

end Phrasebook
