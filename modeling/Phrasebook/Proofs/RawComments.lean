import Phrasebook.Doc.Lookup
import Phrasebook.Proofs.Script.Gap
import Mathlib.Data.List.DropRight

/-!
# Comments that are read from a text

Where no comment leads a token, documentation is looked for in what reads as a comment in a stretch
of text. `rawComments_eq_nil_iff` says when nothing there does. What is made of such a comment is
not what is made of the same comment in front of a token: the sign that begins it counts as the
star of a documentation comment, and block comments are looked for in line comments, too.
`resolve_comment` says exactly when the two lookups agree.
-/

namespace Phrasebook

open Script (blockCommentFrom blockCommentFrom_append passes_blockCommentFrom)

/-! ### Blanks and lines -/

namespace Text

theorem trimStart_cons {c : Char} (h : isBlank c = false) (cs : List Char) :
    trimStart (c :: cs) = c :: cs :=
  List.dropWhile_cons_of_neg (by rw [h]; decide)

theorem trimEnd_cons {c : Char} (h : isBlank c = false) (cs : List Char) :
    trimEnd (c :: cs) = c :: trimEnd cs := by
  have hc : List.dropWhile isBlank [c] = [c] := trimStart_cons h []
  rw [trimEnd, trimEnd, List.reverse_cons, List.dropWhile_append, hc]
  by_cases hnil : (cs.reverse.dropWhile isBlank).isEmpty = true
  · rw [if_pos hnil, List.isEmpty_iff.mp hnil]
    rfl
  · rw [if_neg hnil, List.reverse_append]
    rfl

theorem trimEnd_append_blank {c : Char} (h : isBlank c = true) (cs : List Char) :
    trimEnd (cs ++ [c]) = trimEnd cs :=
  List.rdropWhile_concat_pos isBlank cs c h

theorem length_trimEnd_le_append (before cs : List Char) :
    (trimEnd cs).length ≤ (trimEnd (before ++ cs)).length := by
  rw [trimEnd, trimEnd, List.length_reverse, List.length_reverse, List.reverse_append,
    List.dropWhile_append]
  by_cases hnil : (cs.reverse.dropWhile isBlank).isEmpty = true
  · rw [List.isEmpty_iff.mp hnil]
    exact Nat.zero_le _
  · rw [if_neg hnil, List.length_append]
    exact Nat.le_add_right _ _

theorem length_trim_le (cs : List Char) : (trim cs).length ≤ (trimEnd cs).length := by
  have hsplit := List.takeWhile_append_dropWhile (p := isBlank) (l := cs)
  calc (trim cs).length
      ≤ (trimEnd (cs.takeWhile isBlank ++ trimStart cs)).length := length_trimEnd_le_append _ _
    _ = (trimEnd cs).length := by rw [trimStart, hsplit]

/-- A blank at the end of a text stays only if there is something in front of it. -/
theorem trimStart_append_blank {c : Char} (h : isBlank c = true) (cs : List Char) :
    trimStart (cs ++ [c]) = if (trimStart cs).isEmpty then [] else trimStart cs ++ [c] := by
  rw [trimStart, List.dropWhile_append, List.dropWhile_cons_of_pos h]
  rfl

theorem trim_append_blank {c : Char} (h : isBlank c = true) (cs : List Char) :
    trim (cs ++ [c]) = trim cs := by
  rw [trim, trim, trimStart_append_blank h]
  by_cases hnil : (trimStart cs).isEmpty = true
  · rw [if_pos hnil, List.isEmpty_iff.mp hnil]
  · rw [if_neg hnil, trimEnd_append_blank h]

theorem lines_of_notMem {line : List Char} (h : '\n' ∉ line) (hne : line ≠ []) :
    lines line = [line] := by
  obtain ⟨c, cs, rfl⟩ := List.exists_cons_of_ne_nil hne
  rw [lines, splitOn_of_notMem h]
  rfl

theorem lines_append {line : List Char} (h : '\n' ∉ line) (rest : List Char) :
    lines (line ++ '\n' :: rest) = chomp line :: lines rest := by
  have hne := splitOn_ne_nil '\n' rest
  rw [lines, splitOn_append h, List.dropLast_cons_of_ne_nil hne, List.map_cons,
    List.getLast?_cons, lines, List.getLast?_eq_some_getLast hne, Option.getD_some]
  cases (splitOn '\n' rest).getLast hne <;> rfl

/-- What holds of one line, and of a text in front of which another line is put, holds of every
text. -/
@[elab_as_elim]
theorem line_induction {motive : List Char → Prop}
    (last : ∀ line, '\n' ∉ line → motive line)
    (cons : ∀ line rest, '\n' ∉ line → motive rest → motive (line ++ '\n' :: rest))
    (text : List Char) : motive text := by
  induction hlength : text.length using Nat.strong_induction_on generalizing text with
  | _ n ih =>
    subst hlength
    have hline : '\n' ∉ text.takeWhile (· != '\n') := fun hmem => by
      simpa using List.mem_takeWhile_imp hmem
    rcases line_cases text with ⟨htake, _⟩ | ⟨line, rest, htext, htake, _⟩
    · exact last text (htake ▸ hline)
    · rw [htake] at hline
      subst htext
      exact cons line rest hline (ih _ (by simp; omega) rest rfl)

theorem length_join_cons (sep piece : List Char) (pieces : List (List Char)) :
    (join sep (piece :: pieces)).length =
      piece.length + (if pieces = [] then 0 else sep.length + (join sep pieces).length) := by
  cases pieces with
  | nil => rfl
  | cons next rest =>
    rw [join, List.length_append, List.length_append, if_neg (List.cons_ne_nil _ _), Nat.add_assoc]
    exact List.cons_ne_nil _ _

end Text

/-! ### Documentation with a star more -/

namespace DocComment

open Text (trim trimStart trimEnd chomp)

theorem content_append_blank {c : Char} (h : Text.isBlank c = true) (line : List Char) :
    content (line ++ [c]) = content line := by
  rw [content, content, Text.trimStart_append_blank h]
  by_cases hnil : (trimStart line).isEmpty = true
  · rw [if_pos hnil, List.isEmpty_iff.mp hnil]
  · obtain ⟨d, ds, hds⟩ := List.exists_cons_of_ne_nil fun h => hnil (List.isEmpty_iff.mpr h)
    rw [if_neg hnil, hds, List.cons_append]
    by_cases hstar : d = '*'
    · subst hstar
      exact Text.trim_append_blank h ds
    · have hgoal := Text.trim_append_blank h (d :: ds)
      simpa [hstar] using hgoal

theorem content_chomp (line : List Char) : content (chomp line) = content line := by
  rw [chomp]
  split
  · rename_i hlast
    obtain ⟨before, rfl⟩ := List.getLast?_eq_some_iff.mp hlast
    rw [List.dropLast_concat, content_append_blank (by decide)]
  · rfl

/-- Adds lines of a comment. -/
def addLines (doc : DocComment) (text : List Char) : DocComment :=
  ((Text.lines text).map content).foldl addLine doc

theorem parse_star (body : List Char) : parse ('*' :: body) = some (addLines {} body) := rfl

theorem addLines_of_notMem {line : List Char} (h : '\n' ∉ line) (doc : DocComment) :
    addLines doc line = doc.addLine (content line) := by
  by_cases hne : line = []
  · subst hne
    rfl
  · rw [addLines, Text.lines_of_notMem h hne]
    rfl

theorem addLines_append {line : List Char} (h : '\n' ∉ line) (rest : List Char)
    (doc : DocComment) :
    addLines doc (line ++ '\n' :: rest) = addLines (doc.addLine (content line)) rest := by
  rw [addLines, Text.lines_append h, List.map_cons, List.foldl_cons, content_chomp, addLines]

/-- The first line is added and then those behind it. -/
theorem addLines_first (doc : DocComment) (text : List Char) :
    addLines doc text = addLines (doc.addLine (content (text.takeWhile (· != '\n'))))
      ((text.dropWhile (· != '\n')).drop 1) := by
  have hline : '\n' ∉ text.takeWhile (· != '\n') := fun hmem => by
    simpa using List.mem_takeWhile_imp hmem
  rcases Text.line_cases text with ⟨htake, hdrop⟩ | ⟨line, rest, htext, htake, hdrop⟩
  · rw [htake] at hline
    rw [htake, hdrop, addLines_of_notMem hline]
    rfl
  · rw [htake] at hline
    rw [htake, hdrop, List.drop_one, List.tail_cons, htext, addLines_append hline]

/-- Prose in front of what there is already stays there. -/
theorem addLine_prose (p : List String) (doc : DocComment) (line : List Char) :
    addLine { doc with prose := p ++ doc.prose } line =
      { addLine doc line with prose := p ++ (addLine doc line).prose } := by
  unfold addLine
  split
  · rfl
  · rfl
  · cases doc.tags.getLast? with
    | some tag => rfl
    | none =>
      dsimp only
      rw [List.append_assoc]

theorem foldl_addLine_prose (p : List String) (doc : DocComment) (lines : List (List Char)) :
    lines.foldl addLine { doc with prose := p ++ doc.prose } =
      { lines.foldl addLine doc with prose := p ++ (lines.foldl addLine doc).prose } := by
  induction lines generalizing doc with
  | nil => rfl
  | cons line lines ih => rw [List.foldl_cons, List.foldl_cons, addLine_prose, ih]

theorem prose_addLines (s : String) (text : List Char) :
    (addLines { prose := [s] } text).prose = s :: (addLines {} text).prose :=
  congrArg DocComment.prose (foldl_addLine_prose [s] {} _)

/-- Behind a tag no line is prose. -/
theorem addLine_of_tag {doc : DocComment} (h : doc.tags ≠ []) (line : List Char) :
    (addLine doc line).prose = doc.prose ∧ (addLine doc line).tags ≠ [] := by
  unfold addLine
  split
  · exact ⟨rfl, h⟩
  · exact ⟨rfl, by simp⟩
  · rw [List.getLast?_eq_some_getLast h]
    exact ⟨rfl, by simp⟩

theorem prose_addLines_of_tag {doc : DocComment} (h : doc.tags ≠ []) (text : List Char) :
    (addLines doc text).prose = doc.prose := by
  unfold addLines
  induction (Text.lines text).map content generalizing doc with
  | nil => rfl
  | cons line lines ih =>
    obtain ⟨hprose, htags⟩ := addLine_of_tag h line
    rw [List.foldl_cons, ih htags, hprose]

/-- The length of the description of documentation with this prose. -/
def proseLength (prose : List String) : Nat := (Text.join [' '] (prose.map String.toList)).length

theorem length_description (doc : DocComment) :
    doc.description.toList.length = proseLength doc.prose := by
  rw [description, String.toList_ofList, proseLength]

theorem proseLength_cons (s : String) (prose : List String) :
    proseLength (s :: prose) =
      s.toList.length + (if prose = [] then 0 else 1 + proseLength prose) := by
  rw [proseLength, List.map_cons, Text.length_join_cons]
  simp only [List.map_eq_nil_iff, proseLength]
  rfl

/-- A longer line of prose in front makes a longer description, whatever the shorter line is. -/
theorem proseLength_addLine_lt {line : List Char} {s : String}
    (h : line.length < s.toList.length) (text : List Char) :
    proseLength (addLines (addLine {} line) text).prose <
      proseLength (addLines { prose := [s] } text).prose := by
  rw [prose_addLines, proseLength_cons]
  unfold addLine
  split
  · -- nothing
    split
    · rename_i hnil
      rw [hnil]
      exact Nat.lt_of_le_of_lt (Nat.zero_le _) h
    · omega
  · -- a tag
    rw [prose_addLines_of_tag (by simp)]
    exact Nat.lt_of_lt_of_le (Nat.lt_of_le_of_lt (Nat.zero_le _) h) (Nat.le_add_right _ _)
  · -- prose
    have hprose := prose_addLines (String.ofList line) text
    simp only [List.getLast?_nil, List.nil_append]
    rw [hprose, proseLength_cons, String.toList_ofList]
    omega

/-- The first line behind the star that makes a comment documentation begins with a star itself. -/
def IsStarred (body : List Char) : Prop :=
  (trimStart (body.takeWhile (· != '\n'))).head? = some '*'

instance (body : List Char) : Decidable (IsStarred body) :=
  inferInstanceAs (Decidable (_ = some '*'))

theorem content_star (line : List Char) : content ('*' :: line) = trim line := by
  rw [content, Text.trimStart_cons (by decide)]
  rfl

theorem content_of_not_star {line : List Char} (h : (trimStart line).head? ≠ some '*') :
    content line = trim line := by
  rw [content]
  split
  · rename_i rest hrest
    rw [hrest] at h
    exact absurd rfl h
  · rw [trim, trim, trimStart, trimStart, List.dropWhile_idempotent]

/-- With a star more in front, the first line keeps a star of its own. -/
theorem parse_star_star (body : List Char) :
    (parse ('*' :: '*' :: body) = parse ('*' :: body) ↔ ¬ IsStarred body) ∧
      ((parse ('*' :: '*' :: body)).map description = (parse ('*' :: body)).map description ↔
        ¬ IsStarred body) := by
  have hstar : parse ('*' :: '*' :: body) =
      some (addLines (addLine {} (trim (body.takeWhile (· != '\n'))))
        ((body.dropWhile (· != '\n')).drop 1)) := by
    rw [parse_star, addLines_first]
    simp [content_star]
  have hbody : parse ('*' :: body) =
      some (addLines (addLine {} (content (body.takeWhile (· != '\n'))))
        ((body.dropWhile (· != '\n')).drop 1)) := by
    rw [parse_star, addLines_first]
  by_cases h : IsStarred body
  · -- the description is longer by that star
    have hne : (parse ('*' :: '*' :: body)).map description ≠
        (parse ('*' :: body)).map description := by
      obtain ⟨rest, hrest⟩ := List.head?_eq_some_iff.mp h
      have htrim : trim (body.takeWhile (· != '\n')) = '*' :: trimEnd rest := by
        rw [trim, hrest, Text.trimEnd_cons (by decide)]
      have hcontent : content (body.takeWhile (· != '\n')) = trim rest := by
        rw [content, hrest]
        rfl
      have hlength : (trim rest).length < (String.ofList ('*' :: trimEnd rest)).toList.length := by
        rw [String.toList_ofList]
        exact Nat.lt_succ_of_le (Text.length_trim_le rest)
      have hlt := proseLength_addLine_lt hlength ((body.dropWhile (· != '\n')).drop 1)
      intro heq
      rw [hstar, hbody, htrim, hcontent] at heq
      have hlengths := congrArg (fun s : String => s.toList.length) (Option.some.inj heq)
      rw [length_description, length_description] at hlengths
      exact absurd hlengths (Nat.ne_of_gt hlt)
    exact ⟨⟨fun heq => absurd (congrArg _ heq) hne, fun hnot => absurd h hnot⟩,
      ⟨fun heq => absurd heq hne, fun hnot => absurd h hnot⟩⟩
  · have heq : parse ('*' :: '*' :: body) = parse ('*' :: body) := by
      rw [hstar, hbody, content_of_not_star h]
    exact ⟨⟨fun _ => h, fun _ => heq⟩, ⟨fun _ => h, fun _ => congrArg _ heq⟩⟩

/-- A star in front of a text changes its documentation, and even the description alone, unless the
text is documentation and its first line has no further star. -/
theorem parse_star_iff (text : List Char) :
    (parse ('*' :: text) = parse text ↔ ∃ body, text = '*' :: body ∧ ¬ IsStarred body) ∧
      ((parse ('*' :: text)).map description = (parse text).map description ↔
        ∃ body, text = '*' :: body ∧ ¬ IsStarred body) := by
  by_cases hstar : ∃ body, text = '*' :: body
  · obtain ⟨body, rfl⟩ := hstar
    have hbody : (∃ body', '*' :: body = '*' :: body' ∧ ¬ IsStarred body') ↔ ¬ IsStarred body := by
      simp
    rw [hbody]
    exact parse_star_star body
  · have hnone : parse text = none := by
      rw [parse]
      exact fun body hbody => hstar ⟨body, hbody⟩
    have hnot : ¬ ∃ body, text = '*' :: body ∧ ¬ IsStarred body :=
      fun ⟨body, hbody, _⟩ => hstar ⟨body, hbody⟩
    simp [hnone, hnot, parse_star]

end DocComment

namespace DocLookup

/-! ### What reads as a comment -/

def blockComment (text : List Char) : List Char := '/' :: '*' :: (text ++ ['*', '/'])

def lineComment (text : List Char) : List Char := '/' :: '/' :: text

/-- A comment, or what reads as one. -/
inductive CommentLike : List Char → Prop
  | block {text : List Char} (h : ¬ ['*', '/'] <:+: text) : CommentLike (blockComment text)
  | line {text : List Char} (h : '\n' ∉ text) : CommentLike (lineComment text)

theorem blockCommentFrom_eq_none_iff {pos : Nat} {cs : List Char} :
    blockCommentFrom pos cs = none ↔ ¬ ['*', '/'] <:+: cs := by
  fun_induction blockCommentFrom pos cs with
  | case1 => simp
  | case2 pos rest => simp [List.infix_cons_iff]
  | case3 pos c rest hne ih =>
    rw [Option.map_eq_none_iff, ih, List.infix_cons_iff, not_or, iff_and_self]
    rintro - ⟨after, hafter⟩
    obtain ⟨rfl, rfl⟩ := List.cons.inj hafter
    exact hne _ rfl rfl

/-- What is found in a text reads as a comment. -/
theorem commentLike_of_mem {n : Nat} {cs comment : List Char} (h : comment ∈ rawCommentsUpTo n cs) :
    CommentLike comment ∧ comment <:+: cs := by
  fun_induction rawCommentsUpTo n cs with
  | case1 => cases h
  | case2 => cases h
  | case3 n rest text after hblock ih =>
    -- a block comment that ends: the search goes on behind it
    obtain ⟨hfree, hpasses, -⟩ := passes_blockCommentFrom hblock
    have hrest : '/' :: '*' :: rest = blockComment text ++ after.rest := by
      rw [show rest = _ from hpasses]
      rfl
    rw [hrest]
    rcases List.mem_cons.mp h with rfl | hmem
    · exact ⟨.block hfree, (List.prefix_append _ _).isInfix⟩
    · obtain ⟨hlike, hpart⟩ := ih hmem
      exact ⟨hlike, hpart.trans (List.suffix_append _ _).isInfix⟩
  -- a block comment that does not end is none
  | case4 n rest hblock ih =>
    obtain ⟨hlike, hpart⟩ := ih h
    exact ⟨hlike, List.infix_cons hpart⟩
  | case5 n rest ih =>
    -- a line comment reaches to the end of its line
    have hsplit := List.takeWhile_append_dropWhile (p := (· != '\n')) (l := rest)
    rcases List.mem_cons.mp h with rfl | hmem
    · refine ⟨.line fun hmem => ?_, ?_⟩
      · simpa using List.mem_takeWhile_imp hmem
      · exact List.IsPrefix.isInfix ⟨_, congrArg (['/', '/'] ++ ·) hsplit⟩
    · obtain ⟨hlike, hpart⟩ := ih hmem
      exact ⟨hlike,
        List.infix_cons (List.infix_cons (hpart.trans (List.dropWhile_suffix _).isInfix))⟩
  | case6 n c rest hblock hline ih =>
    obtain ⟨hlike, hpart⟩ := ih h
    exact ⟨hlike, List.infix_cons hpart⟩

/-- Something is found in a text in which something reads as a comment. -/
theorem rawCommentsUpTo_ne_nil {n : Nat} {cs comment : List Char} (hn : cs.length ≤ n)
    (hlike : CommentLike comment) (hpart : comment <:+: cs) : rawCommentsUpTo n cs ≠ [] := by
  have hnil : ¬ comment <:+: [] := by
    rw [List.infix_nil]
    cases hlike <;> exact List.cons_ne_nil _ _
  fun_induction rawCommentsUpTo n cs with
  | case1 cs =>
    rw [List.eq_nil_of_length_eq_zero (Nat.le_zero.mp hn)] at hpart
    exact absurd hpart hnil
  | case2 => exact absurd hpart hnil
  | case3 => exact List.cons_ne_nil _ _
  | case4 n rest hblock ih =>
    refine ih (Nat.le_of_succ_le_succ hn) ((List.infix_cons_iff.mp hpart).resolve_left ?_)
    rintro ⟨after, hafter⟩
    rw [blockCommentFrom_eq_none_iff] at hblock
    cases hlike with
    | @block text hfree =>
      obtain rfl := (List.cons.inj (List.cons.inj hafter).2).2
      exact hblock ⟨text, after, by simp⟩
    | line => exact absurd (List.cons.inj (List.cons.inj hafter).2).1 (by decide)
  | case5 => exact List.cons_ne_nil _ _
  | case6 n c rest hblock hline ih =>
    refine ih (Nat.le_of_succ_le_succ hn) ((List.infix_cons_iff.mp hpart).resolve_left ?_)
    rintro ⟨after, hafter⟩
    cases hlike with
    | block =>
      obtain ⟨rfl, hrest⟩ := List.cons.inj hafter
      exact hblock _ rfl hrest.symm
    | line =>
      obtain ⟨rfl, hrest⟩ := List.cons.inj hafter
      exact hline _ rfl hrest.symm

/-- Nothing is found in a text exactly if nothing in it reads as a comment. -/
theorem rawComments_eq_nil_iff {cs : List Char} :
    rawComments cs = [] ↔ ∀ comment, CommentLike comment → ¬ comment <:+: cs := by
  constructor
  · intro h comment hlike hpart
    exact rawCommentsUpTo_ne_nil (Nat.le_refl _) hlike hpart h
  · intro h
    refine List.eq_nil_iff_forall_not_mem.mpr fun comment hmem => ?_
    obtain ⟨hlike, hpart⟩ := commentLike_of_mem hmem
    exact h comment hlike hpart

/-- What is nothing but a comment is found as a whole. -/
theorem rawComments_of_commentLike {comment : List Char} (h : CommentLike comment) :
    rawComments comment = [comment] := by
  have hnil (n : Nat) : rawCommentsUpTo n [] = [] := by cases n <;> rfl
  cases h with
  | @block text hfree =>
    rw [rawComments, blockComment, List.length_cons, rawCommentsUpTo,
      blockCommentFrom_append hfree]
    simp [hnil]
  | @line text hline =>
    have hall : ∀ c ∈ text, (c != '\n') = true := fun c hc => by
      rw [bne_iff_ne]
      rintro rfl
      exact hline hc
    rw [rawComments, lineComment, List.length_cons, rawCommentsUpTo,
      List.takeWhile_eq_self_iff.mpr hall, List.dropWhile_eq_nil_iff.mpr hall, hnil]

/-! ### What is made of it -/

theorem infix_blockComment (text : List Char) : ['*', '/'] <:+: blockComment text :=
  ⟨'/' :: '*' :: text, [], by simp [blockComment]⟩

theorem rawDoc_eq_none_iff {cs : List Char} :
    rawDoc cs = none ↔ ∀ text, ¬ blockComment text <:+: cs := by
  fun_induction rawDoc cs with
  | case1 => simp [blockComment]
  | case2 rest =>
    -- what begins like documentation has some if its comment ends
    have hparse (text : List Char) : DocComment.parse ('*' :: text) ≠ none := nofun
    rw [Option.bind_eq_none_iff]
    constructor
    · intro h text hpart
      have hnone : blockCommentFrom 0 rest = none := by
        rw [Option.eq_none_iff_forall_ne_some]
        exact fun a ha => hparse _ (h a ha)
      rw [blockCommentFrom_eq_none_iff] at hnone
      rcases List.infix_cons_iff.mp hpart with ⟨after, hafter⟩ | hpart
      · obtain rfl := (List.cons.inj (List.cons.inj hafter).2).2
        exact hnone ⟨text, after, by simp⟩
      · rcases List.infix_cons_iff.mp hpart with ⟨after, hafter⟩ | hpart
        · exact absurd (List.cons.inj hafter).1 (by decide)
        · exact hnone ((infix_blockComment text).trans hpart)
    · intro h a ha
      have hnone : ¬ ['*', '/'] <:+: rest := by
        rintro ⟨text, after, rfl⟩
        exact h text ⟨[], after, by simp [blockComment]⟩
      rw [← blockCommentFrom_eq_none_iff, ha] at hnone
      cases hnone
  | case3 c rest hne ih =>
    -- no block comment begins at this character
    rw [ih]
    refine forall_congr' fun text => not_congr ?_
    rw [List.infix_cons_iff, iff_or_self]
    rintro ⟨after, hafter⟩
    obtain ⟨rfl, hrest⟩ := List.cons.inj hafter
    exact absurd hrest.symm (hne _ rfl)

/-- It is that of the first block comment. -/
theorem rawDoc_append {before text : List Char} (hbefore : ¬ ['/', '*'] <:+: before ++ ['/'])
    (htext : ¬ ['*', '/'] <:+: text) (after : List Char) :
    rawDoc (before ++ (blockComment text ++ after)) = DocComment.parse ('*' :: text) := by
  induction before with
  | nil =>
    have hblock := blockCommentFrom_append htext 0 after
    simp [blockComment, rawDoc, hblock]
  | cons c cs ih =>
    rw [List.cons_append, List.infix_cons_iff, not_or] at hbefore
    rw [List.cons_append, rawDoc, ih hbefore.2]
    rintro rest rfl hrest
    refine hbefore.1 ?_
    cases cs with
    | nil => cases hrest
    | cons d ds =>
      obtain ⟨rfl, -⟩ := List.cons.inj hrest
      exact ⟨ds ++ ['/'], rfl⟩

theorem rawDoc_blockComment {text : List Char} (h : ¬ ['*', '/'] <:+: text) :
    rawDoc (blockComment text) = DocComment.parse ('*' :: text) := by
  have hdoc : rawDoc ([] ++ (blockComment text ++ [])) = DocComment.parse ('*' :: text) :=
    rawDoc_append (by decide) h []
  rwa [List.nil_append, List.append_nil] at hdoc

theorem doc_resolve_of_commentLike {comment : List Char} (h : CommentLike comment) :
    (resolve [] comment).doc = rawDoc comment := by
  rw [resolve, rawComments_of_commentLike h]
  cases hdoc : rawDoc comment <;> simp [hdoc]

/-- A comment as one that leads a token and the same comment in a text. A block comment there is
always documentation, as if a star stood in front of its text. It has the documentation that it
should have, or only the same description, exactly if it is a documentation comment and no star
follows the first one on its line. A line comment has none exactly if no block comment stands in it;
else it has that of the first one. -/
theorem resolve_comment (text : List Char) :
    (¬ ['*', '/'] <:+: text →
      (resolve [[⟨true, text⟩]] []).doc = DocComment.parse text ∧
      (resolve [] (blockComment text)).doc = DocComment.parse ('*' :: text) ∧
      ((resolve [] (blockComment text)).doc = DocComment.parse text ↔
        ∃ body, text = '*' :: body ∧ ¬ DocComment.IsStarred body) ∧
      ((resolve [] (blockComment text)).doc.map DocComment.description =
          (DocComment.parse text).map DocComment.description ↔
        ∃ body, text = '*' :: body ∧ ¬ DocComment.IsStarred body)) ∧
    ('\n' ∉ text →
      ((resolve [] (lineComment text)).doc = none ↔
        ∀ inner, ¬ blockComment inner <:+: lineComment text) ∧
      ∀ before inner after, lineComment text = before ++ (blockComment inner ++ after) →
        ¬ ['/', '*'] <:+: before ++ ['/'] → ¬ ['*', '/'] <:+: inner →
        (resolve [] (lineComment text)).doc = DocComment.parse ('*' :: inner)) := by
  refine ⟨fun htext => ?_, fun htext => ?_⟩
  · have hraw : (resolve [] (blockComment text)).doc = DocComment.parse ('*' :: text) := by
      rw [doc_resolve_of_commentLike (.block htext), rawDoc_blockComment htext]
    refine ⟨?_, hraw, ?_⟩
    · cases hdoc : DocComment.parse text <;>
        simp [resolve, lastDoc, rawComments, rawCommentsUpTo, hdoc]
    · rw [hraw]
      exact DocComment.parse_star_iff text
  · have hraw := doc_resolve_of_commentLike (.line htext)
    rw [hraw]
    refine ⟨rawDoc_eq_none_iff, fun before inner after heq hbefore hinner => ?_⟩
    rw [heq, rawDoc_append hbefore hinner]

theorem resolve_comment_menu :
    (resolve [] (blockComment "* Menu ".toList)).doc = DocComment.parse "* Menu ".toList ∧
    (resolve [] (blockComment "** Menu ".toList)).doc ≠ DocComment.parse "** Menu ".toList ∧
    (resolve [] (lineComment " Menu".toList)).doc = none ∧
    (resolve [] (lineComment " see /** Menu */".toList)).doc =
      DocComment.parse "** Menu ".toList := by
  have hsingle : "* Menu ".toList = '*' :: " Menu ".toList := by decide +kernel
  have hdouble : "** Menu ".toList = '*' :: "* Menu ".toList := by decide +kernel
  have hline : lineComment " see /** Menu */".toList =
      "// see ".toList ++ (blockComment "* Menu ".toList ++ []) := by decide +kernel
  refine ⟨?_, ?_, ?_, ?_⟩
  · have h := (resolve_comment "* Menu ".toList).1 (by decide +kernel)
    exact h.2.2.1.mpr ⟨" Menu ".toList, hsingle, by decide +kernel⟩
  · have h := (resolve_comment "** Menu ".toList).1 (by decide +kernel)
    refine mt h.2.2.1.mp ?_
    rintro ⟨body, hbody, hstarred⟩
    rw [hdouble] at hbody
    rw [← (List.cons.inj hbody).2] at hstarred
    exact hstarred (by decide +kernel)
  · have h := (resolve_comment " Menu".toList).2 (by decide +kernel)
    refine h.1.mpr fun inner hpart => ?_
    have hmem : '*' ∈ lineComment " Menu".toList := hpart.subset (by simp [blockComment])
    exact absurd hmem (by decide +kernel)
  · have h := (resolve_comment " see /** Menu */".toList).2 (by decide +kernel)
    rw [h.2 _ _ _ hline (by decide +kernel) (by decide +kernel), hdouble]

/-- Neither comment is documentation in front of a token. -/
theorem resolve_plainComment :
    (resolve [[⟨true, " plain ".toList⟩]] []).doc = none ∧
    (resolve [] (blockComment " plain ".toList)).doc = some { prose := ["plain"] } ∧
    (resolve [] (lineComment " see /** Menu */".toList)).doc = some { prose := ["Menu"] } := by
  decide +kernel

end DocLookup

end Phrasebook
