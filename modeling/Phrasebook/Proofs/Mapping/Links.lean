import Phrasebook.Mapping.SourceMap
import Phrasebook.Proofs.Mapping.Segments
import Mathlib.Data.List.GetD

/-!
# Links added one after the other

A map is made by adding links in any order: `addLink` makes room up to the line of a link and puts
its segment at the end of that line. `linesOf` gives what has been accumulated in the end
(`linesOf_eq_foldl`), so that reading a map gives exactly that (`segments?_ofLinks`).
-/

namespace Phrasebook.Mapping

def Link.segment (l : Link) : Segment := ⟨l.generated.col, l.source⟩

/-- Adds a segment at the end of its line, behind as many empty lines as are missing. -/
def addLink (lines : List (List Segment)) (l : Link) : List (List Segment) :=
  (lines.rightpad (l.generated.line + 1) []).modify l.generated.line (· ++ [l.segment])

/-! ### One link -/

theorem length_addLink (lines : List (List Segment)) (l : Link) :
    (addLink lines l).length = max lines.length (l.generated.line + 1) := by
  rw [addLink, List.length_modify, List.rightpad, List.length_append, List.length_replicate]
  omega

theorem getD_rightpad {α : Type} (n : Nat) (a : α) (xs : List α) (i : Nat) :
    (xs.rightpad n a).getD i a = xs.getD i a := by
  simp only [List.rightpad, List.getD_eq_getElem?_getD, List.getElem?_append,
    List.getElem?_replicate]
  by_cases hi : i < xs.length
  · rw [if_pos hi]
  · rw [if_neg hi, List.getElem?_eq_none (Nat.le_of_not_lt hi)]
    split <;> rfl

/-- A link changes its own line only. -/
theorem getD_addLink (lines : List (List Segment)) (l : Link) (i : Nat) :
    (addLink lines l).getD i [] =
      lines.getD i [] ++ if l.generated.line = i then [l.segment] else [] := by
  rw [← getD_rightpad (l.generated.line + 1) [] lines i, addLink,
    List.getD_eq_getElem?_getD, List.getElem?_modify, List.getD_eq_getElem?_getD]
  by_cases hi : l.generated.line = i
  · -- there is such a line, for the lines have been made up to it
    have hlt : i < (lines.rightpad (l.generated.line + 1) []).length := by
      rw [List.rightpad, List.length_append, List.length_replicate]
      omega
    rw [List.getElem?_eq_getElem hlt]
    simp [hi]
  · simp [hi]

/-! ### All links -/

theorem length_linesOf_eq_foldl (links : List Link) :
    (linesOf links).length = links.foldl (fun n l => max n (l.generated.line + 1)) 0 := by
  simp [linesOf]

theorem length_linesOf_concat (links : List Link) (l : Link) :
    (linesOf (links ++ [l])).length = max (linesOf links).length (l.generated.line + 1) := by
  simp [length_linesOf_eq_foldl]

theorem line_lt_length_linesOf {links : List Link} {l : Link} (h : l ∈ links) :
    l.generated.line < (linesOf links).length := by
  induction links using List.reverseRecOn with
  | nil => cases h
  | append_singleton links last ih =>
    rw [length_linesOf_concat]
    rcases List.mem_append.mp h with h | h
    · exact lt_max_of_lt_left (ih h)
    · rw [List.mem_singleton.mp h]
      exact lt_max_of_lt_right (Nat.lt_succ_self _)

/-- A line has the segments of its links in their order. -/
theorem getD_linesOf (links : List Link) (i : Nat) :
    (linesOf links).getD i [] = (links.filter (·.generated.line == i)).map Link.segment := by
  by_cases hi : i < (linesOf links).length
  · rw [List.getD_eq_getElem?_getD, List.getElem?_eq_getElem hi]
    simp [linesOf, Link.segment]
  · have hnil : links.filter (·.generated.line == i) = [] := by
      refine List.filter_eq_nil_iff.mpr fun l hl hline => hi ?_
      rw [← eq_of_beq hline]
      exact line_lt_length_linesOf hl
    rw [List.getD_eq_default _ _ (Nat.le_of_not_lt hi), hnil]
    rfl

theorem eq_of_getD {α : Type} {a : α} {xs ys : List α} (hlength : xs.length = ys.length)
    (h : ∀ i, xs.getD i a = ys.getD i a) : xs = ys := by
  refine List.ext_getElem hlength fun i hx hy => ?_
  have hi := h i
  rwa [List.getD_eq_getElem _ _ hx, List.getD_eq_getElem _ _ hy] at hi

theorem linesOf_concat (links : List Link) (l : Link) :
    linesOf (links ++ [l]) = addLink (linesOf links) l := by
  refine eq_of_getD (a := []) ?_ fun i => ?_
  · rw [length_linesOf_concat, length_addLink]
  · rw [getD_addLink, getD_linesOf, getD_linesOf, List.filter_append, List.map_append]
    by_cases hi : l.generated.line = i <;> simp [hi]

theorem linesOf_eq_foldl (links : List Link) : linesOf links = links.foldl addLink [] := by
  induction links using List.reverseRecOn with
  | nil => rfl
  | append_singleton links l ih => rw [linesOf_concat, List.foldl_concat, ih]

/-- Whatever links are added in whatever order, their map is read back as the lines that have been
accumulated: as many as the last line with a segment needs, and on each of them its own segments in
the order in which they were added. The map of no links has one empty line. -/
theorem segments?_ofLinks (file source : String) {links : List Link} (h : ∀ l ∈ links, l.Fits) :
    (SourceMap.ofLinks file source links).segments? =
        some (if links = [] then [[]] else links.foldl addLink []) ∧
      (links.foldl addLink []).length =
        links.foldl (fun n l => max n (l.generated.line + 1)) 0 ∧
      ∀ i, (links.foldl addLink []).getD i [] =
        (links.filter (·.generated.line == i)).map Link.segment := by
  have hnil : linesOf links = [] ↔ links = [] := by
    refine ⟨fun hlines => ?_, fun hlinks => by rw [hlinks]; rfl⟩
    refine List.eq_nil_iff_forall_not_mem.mpr fun l hl => ?_
    have hlt := line_lt_length_linesOf hl
    rw [hlines] at hlt
    exact absurd hlt (Nat.not_lt_zero _)
  rw [← linesOf_eq_foldl]
  refine ⟨?_, length_linesOf_eq_foldl links, getD_linesOf links⟩
  rw [SourceMap.segments?, SourceMap.ofLinks, String.toList_ofList,
    decode_encode (fits_of_mem_linesOf h)]
  simp only [hnil]

/-- Lines out of order, one of them skipped, and differences of both signs up to the largest. -/
theorem segments?_ofLinks_unordered :
    (SourceMap.ofLinks "a.ts" "" [⟨⟨3, 7⟩, ⟨2, 0⟩⟩, ⟨⟨0, 4294967295⟩, ⟨4294967295, 5⟩⟩,
        ⟨⟨3, 2⟩, ⟨0, 4294967295⟩⟩, ⟨⟨1, 0⟩, ⟨0, 0⟩⟩]).segments? =
      some [[⟨4294967295, ⟨4294967295, 5⟩⟩], [⟨0, ⟨0, 0⟩⟩], [],
        [⟨7, ⟨2, 0⟩⟩, ⟨2, ⟨0, 4294967295⟩⟩]] :=
  (segments?_ofLinks "a.ts" "" (by decide)).1

end Phrasebook.Mapping
