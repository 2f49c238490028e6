import Phrasebook.Proofs.RawComments
import Phrasebook.Proofs.Script.Word

/-!
# Tags that exempt are marks

The comments that stand anywhere in front of a function are only searched for the mark that
exempts it; they are not read as documentation. Nothing is missed that way: the name of a tag
stands in the text of its comment behind an at sign and ends at a blank or with the text
(`endsAtBlank_of_mem_tags`), and that is all the search asks for (`isExempt_resolve_of_exempts`).
-/

namespace Phrasebook

/-! ### Pieces of a text that end at a blank -/

namespace Text

/-- A piece of a text behind which there is a blank, or nothing. -/
def EndsAtBlank (piece text : List Char) : Prop :=
  ∃ before after, text = before ++ (piece ++ after) ∧ ∀ c ∈ after.head?, isBlank c = true

namespace EndsAtBlank

theorem refl (text : List Char) : EndsAtBlank text text := ⟨[], [], by simp, by simp⟩

theorem trans {inner piece text : List Char} (h₁ : EndsAtBlank inner piece)
    (h₂ : EndsAtBlank piece text) : EndsAtBlank inner text := by
  obtain ⟨before₁, after₁, rfl, hafter₁⟩ := h₁
  obtain ⟨before₂, after₂, rfl, hafter₂⟩ := h₂
  refine ⟨before₂ ++ before₁, after₁ ++ after₂, by simp, ?_⟩
  cases after₁ with
  | nil => exact hafter₂
  | cons c cs => exact hafter₁

theorem of_suffix {piece text : List Char} (h : piece <:+ text) : EndsAtBlank piece text := by
  obtain ⟨before, rfl⟩ := h
  exact ⟨before, [], by simp, by simp⟩

theorem append_right (piece : List Char) {after : List Char}
    (h : ∀ c ∈ after.head?, isBlank c = true) : EndsAtBlank piece (piece ++ after) :=
  ⟨[], after, rfl, h⟩

theorem trimStart (text : List Char) : EndsAtBlank (trimStart text) text :=
  of_suffix (List.dropWhile_suffix _)

theorem trimEnd (text : List Char) : EndsAtBlank (trimEnd text) text := by
  have hsplit : text = Text.trimEnd text ++ (text.reverse.takeWhile isBlank).reverse := by
    rw [Text.trimEnd, ← List.reverse_append, List.takeWhile_append_dropWhile, List.reverse_reverse]
  have hblanks : ∀ c ∈ (text.reverse.takeWhile isBlank).reverse.head?, isBlank c = true := by
    intro c hc
    exact List.mem_takeWhile_imp (List.mem_reverse.mp (List.mem_of_head? hc))
  exact ⟨[], _, hsplit, hblanks⟩

theorem trim (text : List Char) : EndsAtBlank (trim text) text :=
  (trimEnd _).trans (trimStart text)

theorem chomp (line : List Char) : EndsAtBlank (chomp line) line := by
  rw [Text.chomp]
  split
  · rename_i hlast
    obtain ⟨before, rfl⟩ := List.getLast?_eq_some_iff.mp hlast
    rw [List.dropLast_concat]
    exact append_right before (by simp [isBlank])
  · exact refl line

theorem of_mem_lines {line text : List Char} (h : line ∈ lines text) : EndsAtBlank line text := by
  induction text using line_induction with
  | last text hline =>
    by_cases hne : text = []
    · simp [hne, lines, splitOn] at h
    · rw [lines_of_notMem hline hne, List.mem_singleton] at h
      exact h ▸ refl text
  | cons first rest hline ih =>
    rw [lines_append hline] at h
    rcases List.mem_cons.mp h with rfl | hmem
    · exact (chomp first).trans (append_right first (by simp [isBlank]))
    · exact (ih hmem).trans (of_suffix ⟨first ++ ['\n'], by simp⟩)

/-- The first word of a text and a sign in front of it. -/
theorem word (c : Char) (text : List Char) :
    EndsAtBlank (c :: text.takeWhile (!isBlank ·)) (c :: text) := by
  have hsplit := List.takeWhile_append_dropWhile (p := (!isBlank ·)) (l := text)
  have hblank : ∀ d ∈ (text.dropWhile (!isBlank ·)).head?, isBlank d = true := by
    intro d hd
    have hstop := List.head?_dropWhile_not (!isBlank ·) text
    rw [hd] at hstop
    simpa using hstop
  exact ⟨[], _, by rw [List.nil_append, List.cons_append, hsplit], hblank⟩

end EndsAtBlank

/-- A blank is part of no word. -/
theorem isWordChar_of_isBlank {c : Char} (h : isBlank c = true) : isWordChar c = false := by
  have hcodes : (Script.spaceCodes.all fun n => !isWordChar (Char.ofNat n)) = true := by
    decide +kernel
  have hc := List.all_eq_true.mp hcodes _ (Script.mem_spaceCodes (by rw [Script.isSpace, h]; rfl))
  rwa [Char.ofNat_toNat, Bool.not_eq_true'] at hc

end Text

/-! ### Where a tag stands -/

namespace DocComment

open Text (EndsAtBlank)

theorem endsAtBlank_content (line : List Char) : EndsAtBlank (content line) line := by
  rw [content]
  split
  · rename_i rest hrest
    have hstar : EndsAtBlank rest (Text.trimStart line) :=
      .of_suffix (hrest ▸ List.suffix_cons '*' rest)
    exact (EndsAtBlank.trim rest).trans (hstar.trans (.trimStart line))
  · exact (EndsAtBlank.trim _).trans (.trimStart line)

/-- The name of a tag that adding a line leads to is that of a tag that was there, or it begins
the line. -/
theorem name_of_mem_addLine {doc : DocComment} {line : List Char} {tag : DocTag}
    (h : tag ∈ (doc.addLine line).tags) :
    (∃ old ∈ doc.tags, old.name = tag.name) ∨ ∃ rest, line = '@' :: rest ∧
      tag.name = String.ofList (rest.takeWhile (!Text.isBlank ·)) := by
  unfold addLine at h
  split at h
  · exact .inl ⟨tag, h, rfl⟩
  · rename_i rest
    rcases List.mem_append.mp h with hmem | hmem
    · exact .inl ⟨tag, hmem, rfl⟩
    · obtain rfl := List.mem_singleton.mp hmem
      exact .inr ⟨rest, rfl, rfl⟩
  · split at h
    · rename_i last hlast
      rcases List.mem_append.mp h with hmem | hmem
      · exact .inl ⟨tag, List.dropLast_subset _ hmem, rfl⟩
      · obtain rfl := List.mem_singleton.mp hmem
        exact .inl ⟨last, List.mem_of_getLast? hlast, rfl⟩
    · exact .inl ⟨tag, h, rfl⟩

theorem name_of_mem_foldl {lines : List (List Char)} {doc : DocComment} {tag : DocTag}
    (h : tag ∈ (lines.foldl addLine doc).tags) :
    (∃ old ∈ doc.tags, old.name = tag.name) ∨ ∃ rest, '@' :: rest ∈ lines ∧
      tag.name = String.ofList (rest.takeWhile (!Text.isBlank ·)) := by
  induction lines generalizing doc with
  | nil => exact .inl ⟨tag, h, rfl⟩
  | cons line lines ih =>
    rcases ih h with ⟨old, hold, hname⟩ | ⟨rest, hmem, hname⟩
    · rcases name_of_mem_addLine hold with ⟨older, holder, hnames⟩ | ⟨rest, hline, hrest⟩
      · exact .inl ⟨older, holder, hnames.trans hname⟩
      · exact .inr ⟨rest, by simp [hline], hname ▸ hrest⟩
    · exact .inr ⟨rest, List.mem_cons_of_mem _ hmem, hname⟩

/-- The name of each tag stands in the text behind an at sign, as a word that ends there. -/
theorem endsAtBlank_of_mem_tags {text : List Char} {doc : DocComment} {tag : DocTag}
    (h : parse text = some doc) (htag : tag ∈ doc.tags) :
    EndsAtBlank ('@' :: tag.name.toList) text := by
  unfold parse at h
  split at h
  · rename_i body
    obtain rfl := Option.some.inj h
    rcases name_of_mem_foldl htag with ⟨old, hold, _⟩ | ⟨rest, hmem, hname⟩
    · exact absurd hold (List.not_mem_nil)
    · obtain ⟨line, hline, hcontent⟩ := List.mem_map.mp hmem
      have hbody : EndsAtBlank ('@' :: rest) body :=
        hcontent ▸ (endsAtBlank_content line).trans (.of_mem_lines hline)
      rw [hname, String.toList_ofList]
      exact (EndsAtBlank.word '@' rest).trans (hbody.trans (.of_suffix (List.suffix_cons _ _)))
  · exact absurd h (by simp)

end DocComment

/-! ### The search for a mark -/

namespace DocLookup

open Text (EndsAtBlank)

theorem startsWithWord_append {word name rest : List Char} (h : name.map Char.toLower = word)
    (hrest : ∀ c ∈ rest.head?, Text.isWordChar c = false) :
    startsWithWord word (name ++ rest) = true := by
  induction name generalizing word with
  | nil =>
    subst h
    cases rest with
    | nil => rfl
    | cons c cs => simp [startsWithWord, hrest c rfl]
  | cons c cs ih =>
    subst h
    simp [startsWithWord, sameLetter, ih rfl]

theorem hasMark_append {text : List Char} (before : List Char) (h : hasMark text = true) :
    hasMark (before ++ text) = true := by
  induction before with
  | nil => exact h
  | cons c cs ih => rw [List.cons_append, hasMark, ih, Bool.or_true]

/-- The name of a tag that exempts is a mark wherever it ends. -/
theorem hasMark_at {name rest : List Char}
    (h : name.map Char.toLower = DocTag.exempting.toList.map Char.toLower)
    (hrest : ∀ c ∈ rest.head?, Text.isWordChar c = false) :
    hasMark ('@' :: (name ++ rest)) = true := by
  have hlower : DocTag.exempting.toList.map Char.toLower = DocTag.exempting.toList := by decide
  rw [hasMark, startsWithWord_append (h.trans hlower) hrest]
  rfl

/-- Documentation that exempts has the mark in its comment. -/
theorem hasMark_of_exempts {text : List Char} {doc : DocComment}
    (hparse : DocComment.parse text = some doc) (h : doc.exempts = true) :
    hasMark (blockComment text) = true := by
  obtain ⟨tag, htag, hnamed⟩ := List.any_eq_true.mp h
  obtain ⟨before, after, htext, hafter⟩ := DocComment.endsAtBlank_of_mem_tags hparse htag
  -- the name of a tag ends at a blank, or with the comment
  have hends : ∀ c ∈ (after ++ ['*', '/']).head?, Text.isWordChar c = false := by
    cases after with
    | nil =>
      intro d hd
      obtain rfl := Option.some.inj hd
      decide
    | cons c cs =>
      intro d hd
      exact Text.isWordChar_of_isBlank (hafter d hd)
  have hcomment : blockComment text =
      ('/' :: '*' :: before) ++ ('@' :: (tag.name.toList ++ (after ++ ['*', '/']))) := by
    rw [blockComment, htext]
    simp
  rw [hcomment]
  exact hasMark_append _ (hasMark_at (beq_iff_eq.mp hnamed) hends)

/-- A comment whose documentation exempts does so wherever it is found, be it in front of a token
or not. -/
theorem isExempt_resolve_of_exempts {text raw : List Char} {doc : DocComment}
    (hparse : DocComment.parse text = some doc) (h : doc.exempts = true)
    (hfound : blockComment text ∈ rawComments raw) (leading : List (List Script.Comment)) :
    (resolve leading raw).isExempt = true := by
  have hmark : (rawComments raw).any hasMark = true :=
    List.any_eq_true.mpr ⟨_, hfound, hasMark_of_exempts hparse h⟩
  rw [resolve, hmark]
  exact Bool.or_true _

/-- The tag may be written in capital letters and end with its line, behind a comment that says
nothing. -/
theorem isExempt_resolve_capitals :
    (resolve [] "/* Menu */ /** Open.\n * @NoTranslate\r\n */ ".toList).isExempt = true := by
  have hparse : DocComment.parse "* Open.\n * @NoTranslate\r\n ".toList =
      some { prose := ["Open."], tags := [⟨"NoTranslate", ""⟩] } := by decide
  have hfound : blockComment "* Open.\n * @NoTranslate\r\n ".toList ∈
      rawComments "/* Menu */ /** Open.\n * @NoTranslate\r\n */ ".toList := by decide
  exact isExempt_resolve_of_exempts hparse (by decide) hfound []

end DocLookup

end Phrasebook
