import Phrasebook.Mapping.Segments
import Phrasebook.Proofs.Mapping.Position
import Phrasebook.Proofs.Mapping.Vlq
import Mathlib.Data.List.Induction

/-!
# Mapping segments read back

The sums that reading keeps are the column and the source position that writing took its
differences from (`Sums.at`). So each segment, line and list of lines is read back as it was
written, as long as all positions fit into 32 bits (`decode_encode`). `placed` goes from lines of
segments back to links; links in the order of their lines are what `linesOf` was made from
(`placed_linesOf`).
-/

namespace Phrasebook

/-! ### Splitting what was joined -/

namespace Text

theorem notMem_join {c sep : Char} (hc : c ≠ sep) {pieces : List (List Char)}
    (h : ∀ piece ∈ pieces, c ∉ piece) : c ∉ join [sep] pieces := by
  induction pieces with
  | nil => simp [join]
  | cons piece rest ih =>
    obtain ⟨hpiece, hrest⟩ := List.forall_mem_cons.mp h
    cases rest with
    | nil => simpa [join] using hpiece
    | cons next rest => simpa [join, hpiece, hc] using ih hrest

end Text

namespace Mapping

/-! ### Positions that fit -/

def Segment.Fits (s : Segment) : Prop := s.generatedCol < 0x100000000 ∧ s.source.Fits

def Link.Fits (l : Link) : Prop := l.generated.Fits ∧ l.source.Fits

instance (l : Link) : Decidable l.Fits := inferInstanceAs (Decidable (_ ∧ _))

theorem fits_lastSource {source : Position} (hs : source.Fits) {line : List Segment}
    (hl : ∀ s ∈ line, s.Fits) : (lastSource source line).Fits := by
  unfold lastSource
  cases h : line.getLast? with
  | none => exact hs
  | some s => exact (hl s (List.mem_of_getLast? h)).2

/-! ### One segment -/

/-- The sums behind a segment with this column and source position. -/
def Sums.at (col : Nat) (source : Position) : Sums := ⟨col, source.line, source.col⟩

theorem natAbs_difference_lt {a b : Nat} (ha : a < 0x100000000) (hb : b < 0x100000000) :
    (difference a b).natAbs < 2 ^ 63 := by
  unfold difference
  omega

theorem add_difference (a b : Nat) : (b : Int) + difference a b = a := by
  unfold difference
  omega

theorem position?_natCast {a : Nat} (ha : a < 0x100000000) : position? (a : Int) = some a := by
  rw [position?, if_pos (by omega), Int.toNat_natCast]

theorem encodeSegment_ne_nil (col : Nat) (source : Position) (s : Segment) :
    encodeSegment col source s ≠ [] := by
  simp [encodeSegment, Vlq.encode_ne_nil]

theorem ne_separator_of_mem_encodeSegment {col : Nat} {source : Position} {s : Segment} {c : Char}
    (h : c ∈ encodeSegment col source s) : c ≠ ',' ∧ c ≠ ';' := by
  simp only [encodeSegment, List.mem_append] at h
  rcases h with ((h | h) | h) | h <;> exact Vlq.ne_separator_of_mem_encode h

theorem decodeSegment_encodeSegment {col : Nat} {source : Position} {s : Segment}
    (hcol : col < 0x100000000) (hsource : source.Fits) (hs : s.Fits) :
    decodeSegment (.at col source) (encodeSegment col source s) =
      some (s, .at s.generatedCol s.source) := by
  have hvlq : Vlq.decode (encodeSegment col source s) =
      some [difference s.generatedCol col, 0, difference s.source.line source.line,
        difference s.source.col source.col] := by
    rw [← List.append_nil (encodeSegment ..)]
    simp only [encodeSegment, Vlq.decode, List.append_assoc]
    rw [Vlq.decodeFrom_encode (natAbs_difference_lt hs.1 hcol), Vlq.decodeFrom_encode (by decide),
      Vlq.decodeFrom_encode (natAbs_difference_lt hs.2.1 hsource.1),
      Vlq.decodeFrom_encode (natAbs_difference_lt hs.2.2 hsource.2)]
    simp [Vlq.decodeFrom]
  simp [decodeSegment, hvlq, Sums.at, add_difference, position?_natCast hs.1,
    position?_natCast hs.2.1, position?_natCast hs.2.2]

/-! ### Lines -/

theorem decodeLine_encodeLine {line : List Segment} (hl : ∀ s ∈ line, s.Fits) :
    ∀ (col : Nat) {source : Position}, col < 0x100000000 → source.Fits →
      ∃ col', decodeLine (.at col source) (encodeLine col source line) =
        some (line, .at col' (lastSource source line)) := by
  induction line with
  | nil => exact fun col _ _ _ => ⟨col, rfl⟩
  | cons s line ih =>
    intro col source hcol hsource
    obtain ⟨hs, hl⟩ := List.forall_mem_cons.mp hl
    obtain ⟨col', hrest⟩ := ih hl s.generatedCol hs.1 hs.2
    have hlast : lastSource source (s :: line) = lastSource s.source line := by
      cases line <;> simp [lastSource, List.getLast?_cons]
    refine ⟨col', ?_⟩
    rw [encodeLine, decodeLine, decodeSegment_encodeSegment hcol hsource hs, hlast]
    simp [hrest]

theorem mem_encodeLine {line : List Segment} {piece : List Char} :
    ∀ {col : Nat} {source : Position}, piece ∈ encodeLine col source line →
      ∃ col' source' s, piece = encodeSegment col' source' s := by
  induction line with
  | nil => simp [encodeLine]
  | cons s line ih =>
    intro col source h
    rcases List.mem_cons.mp h with rfl | h
    · exact ⟨col, source, s, rfl⟩
    · exact ih h

/-- The pieces of a line are those that were joined, also when there are none. -/
theorem pieces_join_encodeLine (col : Nat) (source : Position) (line : List Segment) :
    (Text.splitOn ',' (Text.join [','] (encodeLine col source line))).filter (· ≠ []) =
      encodeLine col source line := by
  have hpiece : ∀ piece ∈ encodeLine col source line, ',' ∉ piece ∧ piece ≠ [] := by
    intro piece h
    obtain ⟨col', source', s, rfl⟩ := mem_encodeLine h
    exact ⟨fun hc => (ne_separator_of_mem_encodeSegment hc).1 rfl,
      encodeSegment_ne_nil col' source' s⟩
  by_cases hnil : encodeLine col source line = []
  · rw [hnil]
    rfl
  · rw [Text.splitOn_join hnil fun piece h => (hpiece piece h).1]
    exact List.filter_eq_self.mpr fun piece h => decide_eq_true (hpiece piece h).2

theorem notMem_join_encodeLine (col : Nat) (source : Position) (line : List Segment) :
    ';' ∉ Text.join [','] (encodeLine col source line) := by
  refine Text.notMem_join (by decide) fun piece h => ?_
  obtain ⟨col', source', s, rfl⟩ := mem_encodeLine h
  exact fun hc => (ne_separator_of_mem_encodeSegment hc).2 rfl

theorem decodeLines_encodeLines {lines : List (List Segment)}
    (hl : ∀ line ∈ lines, ∀ s ∈ line, s.Fits) :
    ∀ (col : Nat) {source : Position}, source.Fits →
      decodeLines (.at col source) (encodeLines source lines) = some lines := by
  induction lines with
  | nil => intros; rfl
  | cons line lines ih =>
    intro col source hsource
    obtain ⟨hline, hl⟩ := List.forall_mem_cons.mp hl
    obtain ⟨col', hread⟩ := decodeLine_encodeLine hline 0 (by decide) hsource
    have hrest := ih hl col' (fits_lastSource hsource hline)
    have hzero : ({ Sums.at col source with col := 0 } : Sums) = .at 0 source := rfl
    rw [encodeLines, decodeLines, pieces_join_encodeLine, hzero, hread]
    simp [hrest]

theorem notMem_encodeLines {lines : List (List Segment)} {text : List Char} :
    ∀ {source : Position}, text ∈ encodeLines source lines → ';' ∉ text := by
  induction lines with
  | nil => simp [encodeLines]
  | cons line lines ih =>
    intro source h
    rcases List.mem_cons.mp h with rfl | h
    · exact notMem_join_encodeLine 0 source line
    · exact ih h

/-- Lines of segments are read back as they were written. The text of no lines is that of one
line without segments. -/
theorem decode_encode {lines : List (List Segment)} (hl : ∀ line ∈ lines, ∀ s ∈ line, s.Fits) :
    decode (encode lines) = some (if lines = [] then [[]] else lines) := by
  cases lines with
  | nil => rfl
  | cons line lines =>
    rw [decode, encode, Text.splitOn_join (by simp [encodeLines]) fun _ h => notMem_encodeLines h,
      if_neg (by simp)]
    exact decodeLines_encodeLines hl 0 Position.fits_zero

/-! ### Links from lines -/

/-- The links that segments stand for, line by line. -/
def placed (lines : List (List Segment)) : List Link :=
  lines.zipIdx.flatMap fun (line, i) => line.map fun s => ⟨⟨i, s.generatedCol⟩, s.source⟩

section Ascending

variable {α : Type} {f : α → Nat}

theorem filter_lt_append_filter_eq {n : Nat} {xs : List α} (h : xs.Pairwise (f · ≤ f ·))
    (hn : ∀ x ∈ xs, f x < n + 1) :
    xs.filter (fun x => decide (f x < n)) ++ xs.filter (f · == n) = xs := by
  induction xs with
  | nil => rfl
  | cons x xs ih =>
    obtain ⟨hx, hxs⟩ := List.pairwise_cons.mp h
    obtain ⟨hxn, hxsn⟩ := List.forall_mem_cons.mp hn
    by_cases hlt : f x < n
    · rw [List.filter_cons_of_pos (by simpa using hlt),
        List.filter_cons_of_neg (by simpa using hlt.ne), List.cons_append, ih hxs hxsn]
    · -- from here on everything lies on the last line
      have hall : ∀ y ∈ x :: xs, f y = n := by
        intro y hy
        have hle : f x ≤ f y := by
          rcases List.mem_cons.mp hy with rfl | hy
          · exact le_rfl
          · exact hx y hy
        have := hn y hy
        omega
      rw [List.filter_eq_nil_iff.mpr fun y hy => by simp [hall y hy], List.nil_append,
        List.filter_eq_self.mpr fun y hy => by simp [hall y hy]]

theorem flatMap_range_filter : ∀ (n : Nat) {xs : List α}, xs.Pairwise (f · ≤ f ·) →
    (∀ x ∈ xs, f x < n) → (List.range n).flatMap (fun i => xs.filter (f · == i)) = xs
  | 0, xs, _, hn => by
    cases xs with
    | nil => rfl
    | cons x xs => exact absurd (hn x (by simp)) (by omega)
  | n + 1, xs, h, hn => by
    have hlow : ∀ i ∈ List.range n, xs.filter (f · == i) =
        (xs.filter fun x => decide (f x < n)).filter (f · == i) := by
      intro i hi
      rw [List.filter_filter]
      refine List.filter_congr fun x _ => ?_
      by_cases hxi : f x = i
      · simp [hxi, List.mem_range.mp hi]
      · simp [hxi]
    rw [List.range_succ, List.flatMap_append, List.flatMap_singleton, List.flatMap_congr hlow,
      flatMap_range_filter n (h.filter _) fun x hx => by simpa using (List.mem_filter.mp hx).2]
    exact filter_lt_append_filter_eq h hn

end Ascending

/-- The number of lines that links need: that of the last one. -/
def lineCount (links : List Link) : Nat := (links.getLast?.map (·.generated.line + 1)).getD 0

theorem fits_of_mem_linesOf {links : List Link} (hfit : ∀ l ∈ links, l.Fits) :
    ∀ line ∈ linesOf links, ∀ s ∈ line, s.Fits := by
  intro line hline s hs
  obtain ⟨i, -, rfl⟩ := List.mem_map.mp hline
  obtain ⟨l, hl, rfl⟩ := List.mem_map.mp hs
  have hlf := hfit l (List.mem_filter.mp hl).1
  exact ⟨hlf.1.2, hlf.2⟩

section LinesOf

variable {links : List Link} (h : links.Pairwise (·.generated.line ≤ ·.generated.line))
include h

theorem foldl_max_line :
    links.foldl (fun n l => max n (l.generated.line + 1)) 0 = lineCount links := by
  induction links using List.reverseRecOn with
  | nil => rfl
  | append_singleton ls l ih =>
    obtain ⟨hls, -, hl⟩ := List.pairwise_append.mp h
    have hle : lineCount ls ≤ l.generated.line + 1 := by
      unfold lineCount
      cases hlast : ls.getLast? with
      | none => exact Nat.zero_le _
      | some x => exact Nat.succ_le_succ (hl x (List.mem_of_getLast? hlast) l (by simp))
    rw [List.foldl_append, ih hls]
    simpa [lineCount] using hle

theorem length_linesOf : (linesOf links).length = lineCount links := by
  simp [linesOf, foldl_max_line h]

theorem line_lt_lineCount {l : Link} (hl : l ∈ links) : l.generated.line < lineCount links := by
  induction links using List.reverseRecOn with
  | nil => simp at hl
  | append_singleton ls last ih =>
    obtain ⟨hls, -, hlast⟩ := List.pairwise_append.mp h
    have hcount : lineCount (ls ++ [last]) = last.generated.line + 1 := by simp [lineCount]
    rw [hcount]
    rcases List.mem_append.mp hl with hl | hl
    · exact Nat.lt_succ_of_le (hlast l hl last (by simp))
    · rw [List.mem_singleton.mp hl]
      exact Nat.lt_succ_self _

/-- Links in the order of their lines are found again in the lines made from them. -/
theorem placed_linesOf : placed (linesOf links) = links := by
  have hzip : (linesOf links).zipIdx = (List.range (lineCount links)).map fun i =>
      ((links.filter (·.generated.line == i)).map fun l => ⟨l.generated.col, l.source⟩, i) := by
    refine List.ext_getElem (by simp [length_linesOf h]) fun i h1 h2 => ?_
    simp [linesOf]
  have hback : ∀ i, ((links.filter (·.generated.line == i)).map fun l =>
      (⟨l.generated.col, l.source⟩ : Segment)).map (fun s => ⟨⟨i, s.generatedCol⟩, s.source⟩) =
        links.filter (·.generated.line == i) := by
    intro i
    rw [List.map_map]
    refine (List.map_congr_left fun l hl => ?_).trans (List.map_id _)
    have hline : l.generated.line = i := by simpa using (List.mem_filter.mp hl).2
    simp [← hline]
  rw [placed, hzip, List.flatMap_map]
  simp only [hback]
  exact flatMap_range_filter _ h fun l hl => line_lt_lineCount h hl

/-- What is read back from the text of links that fit are these links, on as many lines as the
last one needs, at least one. -/
theorem decode_encode_linesOf (hfit : ∀ l ∈ links, l.Fits) :
    ∃ lines, decode (encode (linesOf links)) = some lines ∧ placed lines = links ∧
      lines.length = max 1 (lineCount links) := by
  refine ⟨_, decode_encode (fits_of_mem_linesOf hfit), ?_⟩
  have hlength := length_linesOf h
  by_cases hnil : linesOf links = []
  · rw [if_pos hnil]
    have hplaced := placed_linesOf h
    rw [hnil] at hplaced hlength
    exact ⟨hplaced, by rw [← hlength]; rfl⟩
  · rw [if_neg hnil, ← hlength]
    have := List.length_pos_iff.mpr hnil
    exact ⟨placed_linesOf h, by omega⟩

end LinesOf

end Mapping

end Phrasebook
