import Phrasebook.Proofs.RawComments
import Mathlib.Logic.Relation

/-!
# Documentation does not depend on its layout

What is read from a documentation comment stays the same when it is laid out anew: with other
gutters in front of its lines, other blanks or line ends behind them, more or fewer empty lines, and
with its lines broken at other spaces (`parse_reflow`). Most of it leaves the lines that are added
alone; they are those of the text in front of a line end and then those of the text behind it
(`addLines_newline`). Only a break makes two lines of one. Their effect on the documentation
differs in how the prose is kept, so that it is compared up to `Alike`.
-/

namespace Phrasebook

/-! ### Blanks at the ends -/

namespace Text

/-- White space within a line. -/
def IsGap (cs : List Char) : Prop := ∀ c ∈ cs, isBlank c = true ∧ c ≠ '\n'

instance (cs : List Char) : Decidable (IsGap cs) :=
  decidable_of_iff ((cs.all fun c => isBlank c && c != '\n') = true) (by simp [IsGap])

theorem IsGap.nil : IsGap [] := fun _ h => absurd h List.not_mem_nil

theorem IsGap.notMem {gap : List Char} (h : IsGap gap) : '\n' ∉ gap := fun hmem => (h _ hmem).2 rfl

theorem trimStart_gap {gap : List Char} (h : IsGap gap) (cs : List Char) :
    trimStart (gap ++ cs) = trimStart cs :=
  List.dropWhile_append_of_pos fun c hc => (h c hc).1

theorem trimEnd_eq_self_iff {cs : List Char} :
    trimEnd cs = cs ↔ ∀ c ∈ cs.getLast?, isBlank c = false := by
  refine List.rdropWhile_eq_self_iff.trans ⟨fun h c hc => ?_, fun h hne => ?_⟩
  · obtain ⟨hne, rfl⟩ := List.mem_getLast?_eq_getLast hc
    exact Bool.eq_false_iff.mpr (h hne)
  · exact Bool.eq_false_iff.mp (h _ (List.getLast_mem_getLast? hne))

theorem trimEnd_trimEnd (cs : List Char) : trimEnd (trimEnd cs) = trimEnd cs :=
  List.rdropWhile_idempotent isBlank cs

theorem trimEnd_of_suffix {cs text : List Char} (h : cs <:+ text) (htext : trimEnd text = text) :
    trimEnd cs = cs := by
  obtain ⟨before, rfl⟩ := h
  refine trimEnd_eq_self_iff.mpr fun c hc => trimEnd_eq_self_iff.mp htext c ?_
  rw [List.getLast?_append, hc]
  rfl

theorem trimStart_append {front : List Char} (h : trimStart front ≠ []) (cs : List Char) :
    trimStart (front ++ cs) = trimStart front ++ cs := by
  rw [trimStart, List.dropWhile_append, ← trimStart, if_neg (mt List.isEmpty_iff.mp h)]

theorem trimEnd_append {back : List Char} (h : trimEnd back ≠ []) (cs : List Char) :
    trimEnd (cs ++ back) = cs ++ trimEnd back := by
  have hne : ¬ (back.reverse.dropWhile isBlank).isEmpty = true := fun hnil =>
    h (List.reverse_eq_nil_iff.mpr (List.isEmpty_iff.mp hnil))
  rw [trimEnd, List.reverse_append, List.dropWhile_append, if_neg hne, List.reverse_append,
    List.reverse_reverse, trimEnd]

theorem trim_of_trimEnd {cs : List Char} (h : trimEnd cs = cs) : trim cs = trimStart cs :=
  trimEnd_of_suffix (List.dropWhile_suffix isBlank) h

/-- There is more than blanks behind a blank that does not end its text. -/
theorem trim_ne_nil_of_blank {blank : Char} (hblank : isBlank blank = true) {cs : List Char}
    (h : trimEnd (blank :: cs) = blank :: cs) : trim cs ≠ [] := by
  intro hnil
  have hcs : trimEnd cs = cs := trimEnd_of_suffix (List.suffix_cons blank cs) h
  rw [trim_of_trimEnd hcs] at hnil
  have hall : ∀ c ∈ blank :: cs, isBlank c = true :=
    List.forall_mem_cons.mpr ⟨hblank, List.dropWhile_eq_nil_iff.mp hnil⟩
  have hends : trimEnd (blank :: cs) = [] := List.rdropWhile_eq_nil_iff.mpr hall
  exact absurd (h.symm.trans hends) (List.cons_ne_nil _ _)

/-- Two words with a space between them: a text that does not end in a blank, and what begins with
none. -/
theorem trim_append_word {front : List Char} (hfront : trimEnd front = front) {c : Char}
    (hc : isBlank c = false) (cs : List Char) :
    trim (front ++ ' ' :: c :: cs) =
      if trim front = [] then c :: trimEnd cs else trim front ++ ' ' :: c :: trimEnd cs := by
  have hword : trimEnd (c :: cs) = c :: trimEnd cs := trimEnd_cons hc cs
  rw [trim_of_trimEnd hfront, trim, trimStart, List.dropWhile_append, ← trimStart]
  by_cases hnil : trimStart front = []
  · have hspace : List.dropWhile isBlank (' ' :: c :: cs) = c :: cs := trimStart_cons hc cs
    rw [if_pos (List.isEmpty_iff.mpr hnil), if_pos hnil, hspace, hword]
  · have hback : trimEnd (' ' :: c :: cs) = ' ' :: c :: trimEnd cs := by
      have hne : trimEnd (c :: cs) ≠ [] := by simp [hword]
      simpa [hword] using trimEnd_append hne [' ']
    rw [if_neg (mt List.isEmpty_iff.mp hnil), if_neg hnil, trimEnd_append (by simp [hback]), hback]

theorem join_concat {pieces : List (List Char)} (h : pieces ≠ []) (sep piece : List Char) :
    join sep (pieces ++ [piece]) = join sep pieces ++ sep ++ piece := by
  induction pieces with
  | nil => exact absurd rfl h
  | cons first pieces ih =>
    cases pieces with
    | nil => simp [join]
    | cons second pieces => simpa [join] using ih

end Text

namespace ParamDoc

theorem afterBlank_word {word : List Char} (h : ∀ c ∈ word, Text.isBlank c = false) :
    afterBlank word = [] := by
  rw [afterBlank, List.dropWhile_eq_nil_iff.mpr fun c hc => by rw [h c hc]; rfl]
  rfl

theorem afterBlank_append {word : List Char} (h : ∀ c ∈ word, Text.isBlank c = false) {blank : Char}
    (hblank : Text.isBlank blank = true) (cs : List Char) :
    afterBlank (word ++ blank :: cs) = cs := by
  rw [afterBlank, List.dropWhile_append_of_pos fun c hc => by rw [h c hc]; rfl,
    List.dropWhile_cons_of_neg (by simp [hblank])]
  rfl

end ParamDoc

/-! ### A tag whose line goes on -/

namespace DocTag

theorem ofLine_word {word : List Char} (h : ∀ c ∈ word, Text.isBlank c = false) :
    ofLine word = ⟨String.ofList word, ""⟩ := by
  have hall : ∀ c ∈ word, (!Text.isBlank c) = true := fun c hc => by rw [h c hc]; rfl
  rw [ofLine, ParamDoc.afterBlank_word h, List.takeWhile_eq_self_iff.mpr hall]
  rfl

theorem ofLine_body {word : List Char} (h : ∀ c ∈ word, Text.isBlank c = false) {blank : Char}
    (hblank : Text.isBlank blank = true) (body : List Char) :
    ofLine (word ++ blank :: body) = ⟨String.ofList word, String.ofList (Text.trim body)⟩ := by
  have hall : ∀ c ∈ word, (!Text.isBlank c) = true := fun c hc => by rw [h c hc]; rfl
  rw [ofLine, ParamDoc.afterBlank_append h hblank, List.takeWhile_append_of_pos hall,
    List.takeWhile_cons_of_neg (by simp [hblank]), List.append_nil]

/-- A line of a tag with a space in it is a tag and what is added to it. -/
theorem ofLine_append {line : List Char} (hline : Text.trimEnd line = line) {c : Char}
    (hc : Text.isBlank c = false) {cs : List Char} (hcs : Text.trimEnd cs = cs) :
    ofLine (line ++ ' ' :: c :: cs) = (ofLine line).extend (c :: cs) := by
  have hsplit := List.takeWhile_append_dropWhile (p := (!Text.isBlank ·)) (l := line)
  have hword : ∀ d ∈ line.takeWhile (!Text.isBlank ·), Text.isBlank d = false := fun d hd => by
    simpa using List.mem_takeWhile_imp hd
  generalize line.takeWhile (!Text.isBlank ·) = word at hsplit hword
  cases hrest : line.dropWhile (!Text.isBlank ·) with
  -- the line was a name alone, and what is added is its body
  | nil =>
    rw [hrest, List.append_nil] at hsplit
    subst hsplit
    have htrim : Text.trim (c :: cs) = c :: cs := by
      rw [Text.trim, Text.trimStart_cons hc, Text.trimEnd_cons hc, hcs]
    rw [ofLine_word hword, ofLine_body hword (by decide), htrim]
    simp [extend]
  -- the line had a body, which is prolonged
  | cons blank body =>
    have hblank : Text.isBlank blank = true := by
      have hstop := List.head?_dropWhile_not (!Text.isBlank ·) line
      rw [hrest] at hstop
      simpa using hstop
    rw [hrest] at hsplit
    subst hsplit
    have hend : Text.trimEnd (blank :: body) = blank :: body :=
      Text.trimEnd_of_suffix (List.suffix_append _ _) hline
    have hbody : Text.trimEnd body = body :=
      Text.trimEnd_of_suffix (List.suffix_cons blank body) hend
    have hne : Text.trim body ≠ [] := Text.trim_ne_nil_of_blank hblank hend
    have htrim := Text.trim_append_word hbody hc cs
    rw [if_neg hne, hcs] at htrim
    rw [List.append_assoc, List.cons_append, ofLine_body hword hblank, ofLine_body hword hblank,
      htrim, extend, if_neg (by simpa using hne)]
    simp [String.ofList_append, String.append_assoc]

/-- A line with a space in it is added like the two lines that it is broken into there. -/
theorem extend_append {line : List Char} (h : line ≠ []) (tag : DocTag) (c : Char)
    (cs : List Char) :
    tag.extend (line ++ ' ' :: c :: cs) = (tag.extend line).extend (c :: cs) := by
  have hne : (tag.extend line).body ≠ "" := by
    simp [extend, String.append_eq_empty_iff, h]
  rw [extend, extend, if_neg hne]
  simp [extend, String.ofList_append, String.append_assoc]

end DocTag

/-! ### Lines with gutters -/

namespace DocComment

open Text (IsGap trim trimStart trimEnd)

/-- What may stand in front of the content of a line: white space and a star, or no star. -/
inductive IsGutter : List Char → Prop
  | gap {gap : List Char} (h : IsGap gap) : IsGutter gap
  | star {before after : List Char} (hbefore : IsGap before) (hafter : IsGap after) :
    IsGutter (before ++ '*' :: after)

theorem IsGutter.notMem {gutter : List Char} (h : IsGutter gutter) : '\n' ∉ gutter := by
  cases h with
  | gap h => exact h.notMem
  | star hbefore hafter => simp [hbefore.notMem, hafter.notMem]

theorem content_gutter {gutter line : List Char} (h : IsGutter gutter)
    (hline : ∀ c ∈ line.head?, c ≠ '*' ∧ Text.isBlank c = false) :
    content (gutter ++ line) = trimEnd line := by
  have hstart : trimStart line = line := by
    cases line with
    | nil => rfl
    | cons c cs => exact Text.trimStart_cons (hline c rfl).2 cs
  cases h with
  | gap h =>
    have hstar : (trimStart (gutter ++ line)).head? ≠ some '*' := by
      rw [Text.trimStart_gap h, hstart]
      exact fun hhead => (hline _ hhead).1 rfl
    rw [content_of_not_star hstar, trim, Text.trimStart_gap h, hstart]
  | star hbefore hafter =>
    rw [content, List.append_assoc, Text.trimStart_gap hbefore, List.cons_append,
      Text.trimStart_cons (by decide)]
    exact (congrArg trimEnd (Text.trimStart_gap hafter line)).trans (congrArg trimEnd hstart)

theorem content_gap {gap : List Char} (h : IsGap gap) (line : List Char) :
    content (line ++ gap) = content line := by
  induction gap using List.reverseRecOn with
  | nil => rw [List.append_nil]
  | append_singleton gap c ih =>
    rw [← List.append_assoc, content_append_blank (h c (by simp)).1]
    exact ih fun d hd => h d (List.mem_append_left _ hd)

/-- The content of a line does not end in a blank if the line does not. -/
theorem trimEnd_content (line : List Char) : trimEnd (content line) = content line := by
  rw [content]
  split <;> exact Text.trimEnd_trimEnd _

/-- The content of a line with a space in it, which may be the one behind the star. -/
theorem content_break (front : List Char) {c d : Char} (hc : Text.isBlank c = false)
    (hd : Text.isBlank d = false) (cs : List Char) :
    content (front ++ c :: ' ' :: d :: cs) =
      if content (front ++ [c]) = [] then d :: trimEnd cs
      else content (front ++ [c]) ++ ' ' :: d :: trimEnd cs := by
  have hend : trimEnd (front ++ [c]) = front ++ [c] :=
    Text.trimEnd_eq_self_iff.mpr (by simpa using hc)
  have hstart : trimStart (front ++ [c]) ≠ [] := fun hnil => by
    have := List.dropWhile_eq_nil_iff.mp hnil c (by simp)
    rw [hc] at this
    exact absurd this (by decide)
  have hsplit : front ++ c :: ' ' :: d :: cs = (front ++ [c]) ++ ' ' :: d :: cs := by simp
  rw [hsplit]
  -- what is added does not change whether the line begins with a star
  by_cases hstar : (trimStart (front ++ [c])).head? = some '*'
  · obtain ⟨rest, hrest⟩ := List.head?_eq_some_iff.mp hstar
    have hrestEnd : trimEnd rest = rest :=
      Text.trimEnd_of_suffix ((hrest ▸ List.suffix_cons '*' rest).trans
        (List.dropWhile_suffix Text.isBlank)) hend
    rw [content, content, Text.trimStart_append hstart, hrest]
    exact Text.trim_append_word hrestEnd hd cs
  · have hstar' : (trimStart ((front ++ [c]) ++ ' ' :: d :: cs)).head? ≠ some '*' := by
      obtain ⟨x, xs, hx⟩ := List.exists_cons_of_ne_nil hstart
      rw [Text.trimStart_append hstart, hx]
      rwa [hx] at hstar
    rw [content_of_not_star hstar, content_of_not_star hstar']
    exact Text.trim_append_word hend hd cs

/-! ### Lines that are added -/

theorem addLines_newline (before after : List Char) (doc : DocComment) :
    addLines doc (before ++ '\n' :: after) = addLines (addLines doc before) after := by
  induction before using Text.line_induction generalizing doc with
  | last line hline => rw [addLines_append hline, addLines_of_notMem hline]
  | cons line rest hline ih =>
    rw [List.append_assoc, List.cons_append, addLines_append hline, ih, addLines_append hline]

theorem addLines_gap {gap : List Char} (h : IsGap gap) (before : List Char) (doc : DocComment) :
    addLines doc (before ++ gap) = addLines doc before := by
  induction before using Text.line_induction generalizing doc with
  | last line hline =>
    rw [addLines_of_notMem (by simp [hline, h.notMem]), addLines_of_notMem hline, content_gap h]
  | cons line rest hline ih =>
    rw [List.append_assoc, List.cons_append, addLines_append hline, ih, addLines_append hline]

/-- What ends a line. -/
inductive IsLineEnd : List Char → Prop
  | lf : IsLineEnd ['\n']
  | crlf : IsLineEnd ['\r', '\n']

theorem addLines_lineEnd {lineEnd : List Char} (h : IsLineEnd lineEnd)
    (before after : List Char) (doc : DocComment) :
    addLines doc (before ++ (lineEnd ++ after)) = addLines (addLines doc before) after := by
  cases h with
  | lf => exact addLines_newline before after doc
  | crlf =>
    have hgap : IsGap ['\r'] := by simp [IsGap, Text.isBlank]
    have hsplit : before ++ (['\r', '\n'] ++ after) = (before ++ ['\r']) ++ '\n' :: after := by simp
    rw [hsplit, addLines_newline, addLines_gap hgap]

/-- A line begins behind this text. -/
def IsLineStart (before : List Char) : Prop := ∀ c ∈ before.getLast?, c = '\n'

instance (before : List Char) : Decidable (IsLineStart before) :=
  decidable_of_iff (before.getLast?.all (· == '\n') = true)
    (by simp [IsLineStart, Option.all_eq_true])

theorem addLines_lineStart {before : List Char} (h : IsLineStart before) (rest : List Char)
    (doc : DocComment) :
    addLines doc (before ++ rest) = addLines (addLines doc before) rest := by
  rcases List.eq_nil_or_concat before with rfl | ⟨front, c, rfl⟩
  · rfl
  · obtain rfl : c = '\n' := h c (by simp)
    have hsplit : front.concat '\n' ++ rest = front ++ '\n' :: rest := by simp
    rw [hsplit, addLines_newline, List.concat_eq_append, addLines_newline]
    rfl

/-- A text whose first line has neither a gutter nor a star in front. -/
def HasNoGutter (rest : List Char) : Prop :=
  ∀ c ∈ rest.head?, c ≠ '*' ∧ (Text.isBlank c = true → c = '\n')

theorem hasNoGutter_cons {c : Char} (hstar : c ≠ '*') (hc : Text.isBlank c = false)
    (cs : List Char) : HasNoGutter (c :: cs) := by
  intro d hd
  obtain rfl : c = d := by simpa using hd
  exact ⟨hstar, fun h => absurd h (by simp [hc])⟩

theorem HasNoGutter.content {rest line : List Char} (h : HasNoGutter rest)
    (hhead : ∀ c ∈ line.head?, c ∈ rest.head?) (hline : '\n' ∉ line) {gutter : List Char}
    (hgutter : IsGutter gutter) : content (gutter ++ line) = trimEnd line := by
  refine content_gutter hgutter fun c hc =>
    ⟨(h c (hhead c hc)).1, Bool.eq_false_iff.mpr fun hb => ?_⟩
  exact hline ((h c (hhead c hc)).2 hb ▸ List.mem_of_head? hc)

theorem addLines_gutter {gutter rest : List Char} (hgutter : IsGutter gutter)
    (hrest : HasNoGutter rest) (doc : DocComment) :
    addLines doc (gutter ++ rest) = addLines doc rest := by
  induction rest using Text.line_induction with
  | last line hline =>
    rw [addLines_of_notMem (by simp [hline, hgutter.notMem]), addLines_of_notMem hline,
      hrest.content (fun c hc => hc) hline hgutter,
      ← hrest.content (fun c hc => hc) hline (.gap .nil), List.nil_append]
  | cons line after hline _ =>
    have hhead : ∀ c ∈ line.head?, c ∈ (line ++ '\n' :: after).head? := fun c hc => by
      rw [List.head?_append, hc]
      rfl
    rw [← List.append_assoc, addLines_append (by simp [hline, hgutter.notMem]),
      addLines_append hline, hrest.content hhead hline hgutter,
      ← hrest.content hhead hline (.gap .nil), List.nil_append]

theorem addLines_gutter_nil {gutter : List Char} (h : IsGutter gutter) (doc : DocComment) :
    addLines doc gutter = doc := by
  have hnone : HasNoGutter [] := fun c hc => absurd hc (by simp)
  have hadd := addLines_gutter h hnone doc
  rwa [List.append_nil] at hadd

/-! ### Documentation that reads alike -/

/-- The same tags and the same description, whose lines may be others. -/
structure Alike (doc doc' : DocComment) : Prop where
  tags : doc.tags = doc'.tags
  prose : doc.prose = [] ↔ doc'.prose = []
  description : doc.description = doc'.description

theorem Alike.refl (doc : DocComment) : Alike doc doc := ⟨rfl, Iff.rfl, rfl⟩

theorem description_concat (prose : List String) (tags : List DocTag) (line : List Char) :
    description ⟨prose ++ [String.ofList line], tags⟩ =
      if prose = [] then String.ofList line
      else description ⟨prose, tags⟩ ++ " " ++ String.ofList line := by
  by_cases h : prose = []
  · simp [description, h, Text.join]
  · have hne : prose.map String.toList ≠ [] := by simpa using h
    rw [if_neg h, description, description, List.map_append, List.map_singleton,
      Text.join_concat hne, String.ofList_append, String.ofList_append, String.toList_ofList]

/-- What a line that begins no tag does. -/
theorem addLine_other {line : List Char} (hne : line ≠ []) (hat : line.head? ≠ some '@')
    (doc : DocComment) : doc.addLine line =
      match doc.tags.getLast? with
      | some tag => { doc with tags := doc.tags.dropLast ++ [tag.extend line] }
      | none => { doc with prose := doc.prose ++ [String.ofList line] } := by
  unfold DocComment.addLine
  split
  · exact absurd rfl hne
  · exact absurd rfl hat
  · rfl

theorem Alike.addLine {doc doc' : DocComment} (h : Alike doc doc') (line : List Char) :
    Alike (doc.addLine line) (doc'.addLine line) := by
  obtain ⟨prose, tags⟩ := doc
  obtain ⟨prose', tags'⟩ := doc'
  obtain ⟨rfl, hprose, hdescription⟩ := h
  unfold DocComment.addLine
  split
  · exact ⟨rfl, hprose, hdescription⟩
  · exact ⟨rfl, hprose, hdescription⟩
  · dsimp only at hprose ⊢
    split
    · exact ⟨rfl, hprose, hdescription⟩
    · refine ⟨rfl, by simp, ?_⟩
      rw [description_concat, description_concat, hdescription]
      simp only [hprose]

theorem Alike.addLines {doc doc' : DocComment} (h : Alike doc doc') (text : List Char) :
    Alike (doc.addLines text) (doc'.addLines text) := by
  unfold DocComment.addLines
  induction (Text.lines text).map DocComment.content generalizing doc doc' with
  | nil => exact h
  | cons line lines ih => exact ih (h.addLine line)

/-- A line reads like two lines that it is broken into at a space. -/
theorem alike_addLine_break {line : List Char} (hline : trimEnd line = line) (hne : line ≠ [])
    {c : Char} (hc : Text.isBlank c = false) (hat : c ≠ '@') {cs : List Char}
    (hcs : trimEnd cs = cs) (doc : DocComment) :
    Alike (doc.addLine (line ++ ' ' :: c :: cs)) ((doc.addLine line).addLine (c :: cs)) := by
  have hhead : (c :: cs).head? ≠ some '@' := by simpa using hat
  rw [addLine_other (List.cons_ne_nil c cs) hhead]
  by_cases htag : line.head? = some '@'
  · -- the line of a tag, to which the second line is added
    obtain ⟨rest, rfl⟩ := List.head?_eq_some_iff.mp htag
    have hrest : trimEnd rest = rest := Text.trimEnd_of_suffix (List.suffix_cons _ _) hline
    simp only [List.cons_append, DocComment.addLine, List.getLast?_concat, List.dropLast_concat,
      DocTag.ofLine_append hrest hc hcs]
    exact .refl _
  · have htag' : (line ++ ' ' :: c :: cs).head? ≠ some '@' := by
      rwa [List.head?_append_of_ne_nil _ hne]
    rw [addLine_other hne htag, addLine_other (by simp) htag']
    cases htags : doc.tags.getLast? with
    | some tag =>
      -- both lines are added to the tag before them
      simp only [List.getLast?_concat, List.dropLast_concat, DocTag.extend_append hne]
      exact .refl _
    | none =>
      -- both lines are prose
      simp only [htags]
      refine ⟨rfl, by simp, ?_⟩
      have hsnoc : doc.prose ++ [String.ofList line] ≠ [] := by simp
      rw [description_concat, description_concat _ _ (c :: cs), if_neg hsnoc, description_concat]
      split <;> simp [String.ofList_append, String.append_assoc]

/-- A line whose content is broken into two, or is left to the second line by its star. -/
theorem alike_addLine_content (front : List Char) {c d : Char} (hc : Text.isBlank c = false)
    (hd : Text.isBlank d = false) (hat : d ≠ '@') (hstar : d ≠ '*') {cs : List Char}
    (hcs : '\n' ∉ d :: cs) (doc : DocComment) :
    Alike (doc.addLine (content (front ++ c :: ' ' :: d :: cs)))
      ((doc.addLine (content (front ++ [c]))).addLine (content (d :: cs))) := by
  have hcontent : content (d :: cs) = d :: trimEnd cs :=
    ((hasNoGutter_cons hstar hd cs).content (fun _ h => h) hcs (.gap .nil)).trans
      (Text.trimEnd_cons hd cs)
  rw [content_break front hc hd, hcontent]
  split
  · rename_i hnil
    rw [hnil]
    exact .refl _
  · rename_i hne
    exact alike_addLine_break (trimEnd_content _) hne hd hat (Text.trimEnd_trimEnd cs) doc

theorem alike_addLines_break (front : List Char) {c d : Char} (hc : Text.isBlank c = false)
    (hd : Text.isBlank d = false) (hat : d ≠ '@') (hstar : d ≠ '*') (after : List Char)
    (doc : DocComment) :
    Alike (addLines doc (front ++ c :: ' ' :: d :: after))
      (addLines (addLines doc (front ++ [c])) (d :: after)) := by
  have hc' : c ≠ '\n' := fun h => absurd hc (by rw [h]; decide)
  have hd' : d ≠ '\n' := fun h => absurd hd (by rw [h]; decide)
  -- on the lines in front of the one that is broken, and then on those behind it
  induction front using Text.line_induction generalizing doc with
  | cons line rest hline ih =>
    simp only [List.append_assoc, List.cons_append, addLines_append hline]
    exact ih _
  | last front hfront =>
    have hfront' : '\n' ∉ front ++ [c] := by simp [hfront, hc'.symm]
    have hlast : ∀ cs, '\n' ∉ cs → Alike (addLines doc (front ++ c :: ' ' :: d :: cs))
        (addLines (addLines doc (front ++ [c])) (d :: cs)) := by
      intro cs hcs
      have hsecond : '\n' ∉ d :: cs := by simp [hcs, hd'.symm]
      rw [addLines_of_notMem (by simp [hfront, hcs, hc'.symm, hd'.symm]),
        addLines_of_notMem hfront', addLines_of_notMem hsecond]
      exact alike_addLine_content front hc hd hat hstar hsecond doc
    induction after using Text.line_induction with
    | last cs hcs => exact hlast cs hcs
    | cons cs rest hcs _ =>
      have hsplit : front ++ c :: ' ' :: d :: (cs ++ '\n' :: rest) =
          (front ++ c :: ' ' :: d :: cs) ++ '\n' :: rest := by simp
      rw [hsplit, addLines_newline, ← List.cons_append, addLines_newline]
      exact (hlast cs hcs).addLines rest

/-! ### Another layout -/

/-- A change of the layout of a text that leaves its words and their order alone. -/
inductive Reflow : List Char → List Char → Prop
  /-- Another gutter in front of a line that does not go on with a star. -/
  | gutter {before gutter gutter' rest : List Char} (hbefore : IsLineStart before)
      (hgutter : IsGutter gutter) (hgutter' : IsGutter gutter') (hrest : HasNoGutter rest) :
    Reflow (before ++ (gutter ++ rest)) (before ++ (gutter' ++ rest))
  /-- Other blanks and another sign at the end of a line. -/
  | lineEnd {before gap gap' lineEnd lineEnd' after : List Char} (hgap : IsGap gap)
      (hgap' : IsGap gap') (hend : IsLineEnd lineEnd) (hend' : IsLineEnd lineEnd') :
    Reflow (before ++ gap ++ (lineEnd ++ after)) (before ++ gap' ++ (lineEnd' ++ after))
  /-- Other blanks at the end of the text. -/
  | textEnd {before gap gap' : List Char} (hgap : IsGap gap) (hgap' : IsGap gap') :
    Reflow (before ++ gap) (before ++ gap')
  /-- A line with nothing but a gutter in it. -/
  | emptyLine {before gutter lineEnd after : List Char} (hbefore : IsLineStart before)
      (hgutter : IsGutter gutter) (hend : IsLineEnd lineEnd) :
    Reflow (before ++ after) (before ++ (gutter ++ (lineEnd ++ after)))
  /-- Such a line at the end of the text. -/
  | lastLine {before lineEnd gutter : List Char} (hend : IsLineEnd lineEnd)
      (hgutter : IsGutter gutter) : Reflow before (before ++ (lineEnd ++ gutter))
  /-- A line that is broken between two words with a space between them. -/
  | lineBreak {front : List Char} {c d : Char} {lineEnd gutter after : List Char}
      (hc : Text.isBlank c = false) (hd : Text.isBlank d = false) (hat : d ≠ '@') (hstar : d ≠ '*')
      (hend : IsLineEnd lineEnd) (hgutter : IsGutter gutter) :
    Reflow (front ++ c :: ' ' :: d :: after) (front ++ [c] ++ (lineEnd ++ (gutter ++ d :: after)))

theorem Reflow.alike {text text' : List Char} (h : Reflow text text') (doc : DocComment) :
    Alike (addLines doc text) (addLines doc text') := by
  cases h with
  | gutter hbefore hgutter hgutter' hrest =>
    rw [addLines_lineStart hbefore, addLines_lineStart hbefore, addLines_gutter hgutter hrest,
      addLines_gutter hgutter' hrest]
    exact .refl _
  | lineEnd hgap hgap' hend hend' =>
    rw [addLines_lineEnd hend, addLines_lineEnd hend', addLines_gap hgap, addLines_gap hgap']
    exact .refl _
  | textEnd hgap hgap' =>
    rw [addLines_gap hgap, addLines_gap hgap']
    exact .refl _
  | emptyLine hbefore hgutter hend =>
    rw [addLines_lineStart hbefore, addLines_lineStart hbefore, addLines_lineEnd hend,
      addLines_gutter_nil hgutter]
    exact .refl _
  | lastLine hend hgutter =>
    rw [addLines_lineEnd hend, addLines_gutter_nil hgutter]
    exact .refl _
  | lineBreak hc hd hat hstar hend hgutter =>
    rw [addLines_lineEnd hend, addLines_gutter hgutter (hasNoGutter_cons hstar hd _)]
    exact alike_addLines_break _ hc hd hat hstar _ doc

theorem Alike.symm {doc doc' : DocComment} (h : Alike doc doc') : Alike doc' doc :=
  ⟨h.tags.symm, h.prose.symm, h.description.symm⟩

theorem Alike.trans {doc doc' doc'' : DocComment} (h : Alike doc doc') (h' : Alike doc' doc'') :
    Alike doc doc'' :=
  ⟨h.tags.trans h'.tags, h.prose.trans h'.prose, h.description.trans h'.description⟩

/-- However often the layout of a documentation comment is changed, the same description and the
same tags are read from it. -/
theorem parse_reflow {body body' : List Char} (h : Relation.EqvGen Reflow body body') :
    ∃ doc doc', parse ('*' :: body) = some doc ∧ parse ('*' :: body') = some doc' ∧
      doc.description = doc'.description ∧ doc.tags = doc'.tags := by
  have halike : Alike (addLines {} body) (addLines {} body') := by
    induction h with
    | rel _ _ h => exact h.alike {}
    | refl _ => exact .refl _
    | symm _ _ _ ih => exact ih.symm
    | trans _ _ _ _ _ ih ih' => exact ih.trans ih'
  exact ⟨_, _, parse_star body, parse_star body', halike.description, halike.tags⟩

/-- An empty line in front of a tag, and a break behind its name. -/
theorem parse_reflow_context : ∃ doc doc',
    parse "* @context Menu bar".toList = some doc ∧
      parse "*\r\n @context\n * Menu bar".toList = some doc' ∧
      doc.description = doc'.description ∧ doc.tags = doc'.tags := by
  have hgutter : IsGutter " * ".toList :=
    @IsGutter.star [' '] [' '] (by decide) (by decide)
  have hempty : Reflow " @context Menu bar".toList "\r\n @context Menu bar".toList :=
    @Reflow.emptyLine [] [] ['\r', '\n'] " @context Menu bar".toList (by decide) (.gap .nil) .crlf
  have hbreak : Reflow "\r\n @context Menu bar".toList "\r\n @context\n * Menu bar".toList :=
    @Reflow.lineBreak "\r\n @contex".toList 't' 'M' ['\n'] " * ".toList "enu bar".toList
      (by decide) (by decide) (by decide) (by decide) .lf hgutter
  exact parse_reflow (.trans _ _ _ (.rel _ _ hempty) (.rel _ _ hbreak))

end DocComment

end Phrasebook
