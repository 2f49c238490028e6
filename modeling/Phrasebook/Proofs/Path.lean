import Phrasebook.Path
import Mathlib.Data.List.Infix

/-!
# Steps of paths

The steps of a path are its components without a single point at the beginning, which leads
nowhere. They are got from the text of a path as a whole (`body_append`), so that each operation on
paths has one law: `steps_join`, `steps_ofPieces`, `steps_parent?`, `steps_relativeTo?`,
`steps_ofComponents`.
-/

namespace Phrasebook

namespace Text

theorem splitOn_append_cons {sep : Char} (cs rest : List Char) :
    splitOn sep (cs ++ sep :: rest) = splitOn sep cs ++ splitOn sep rest := by
  induction cs with
  | nil => simp [splitOn]
  | cons c cs ih =>
    rw [List.cons_append, splitOn, splitOn, ih]
    split
    · rfl
    · cases h : splitOn sep cs with
      | nil => exact absurd h (splitOn_ne_nil sep cs)
      | cons piece pieces => rfl

theorem notMem_of_mem_splitOn {sep : Char} {cs piece : List Char} (h : piece ∈ splitOn sep cs) :
    sep ∉ piece := by
  induction cs generalizing piece with
  | nil => simp_all [splitOn]
  | cons c cs ih =>
    rw [splitOn] at h
    split at h
    · rcases List.mem_cons.mp h with rfl | h
      · simp
      · exact ih h
    · rename_i hc
      cases hsplit : splitOn sep cs with
      | nil => exact absurd hsplit (splitOn_ne_nil sep cs)
      | cons first pieces =>
        rw [hsplit] at h ih
        rcases List.mem_cons.mp h with rfl | h
        · exact List.not_mem_cons_of_ne_of_not_mem (Ne.symm hc) (ih List.mem_cons_self)
        · exact ih (List.mem_cons_of_mem first h)

theorem subset_of_mem_splitOn {sep : Char} {cs piece : List Char} (h : piece ∈ splitOn sep cs) :
    piece ⊆ cs := by
  induction cs generalizing piece with
  | nil => simp_all [splitOn]
  | cons c cs ih =>
    rw [splitOn] at h
    split at h
    · rcases List.mem_cons.mp h with rfl | h
      · exact List.nil_subset _
      · exact List.subset_cons_of_subset c (ih h)
    · cases hsplit : splitOn sep cs with
      | nil => exact absurd hsplit (splitOn_ne_nil sep cs)
      | cons first pieces =>
        rw [hsplit] at h ih
        rcases List.mem_cons.mp h with rfl | h
        · exact List.cons_subset_cons c (ih List.mem_cons_self)
        · exact List.subset_cons_of_subset c (ih (List.mem_cons_of_mem first h))

theorem join_append {sep : List Char} {ps qs : List (List Char)} (hps : ps ≠ []) (hqs : qs ≠ []) :
    join sep (ps ++ qs) = join sep ps ++ sep ++ join sep qs := by
  obtain ⟨q, qs, rfl⟩ := List.exists_cons_of_ne_nil hqs
  induction ps with
  | nil => exact absurd rfl hps
  | cons p ps ih =>
    cases ps with
    | nil => rfl
    | cons next ps =>
      have hstep (pieces : List (List Char)) :
          join sep (p :: next :: pieces) = p ++ sep ++ join sep (next :: pieces) := rfl
      have hrest := ih (List.cons_ne_nil next ps)
      rw [List.cons_append] at hrest
      rw [List.cons_append, List.cons_append, hstep, hstep, hrest]
      simp only [List.append_assoc]

theorem join_isPrefix (sep : List Char) {ps qs : List (List Char)} (h : ps <+: qs) :
    join sep ps <+: join sep qs := by
  obtain ⟨rest, rfl⟩ := h
  by_cases hps : ps = []
  · subst hps
    exact List.nil_prefix
  by_cases hrest : rest = []
  · rw [hrest, List.append_nil]
  · rw [join_append hps hrest, List.append_assoc]
    exact List.prefix_append _ _

end Text

namespace Path

/-! ### Bodies -/

/-- What a text means behind a root. -/
def body (cs : List Char) : List Component := bodyComponents (Text.splitOn '/' cs)

theorem bodyComponents_append (ps qs : List (List Char)) :
    bodyComponents (ps ++ qs) = bodyComponents ps ++ bodyComponents qs := by
  simp [bodyComponents]

theorem bodyComponents_cons_of_void {piece : List Char} (h : isVoid piece = true)
    (pieces : List (List Char)) : bodyComponents (piece :: pieces) = bodyComponents pieces := by
  simp [bodyComponents, h]

theorem bodyComponents_cons {piece : List Char} (h : ¬ isVoid piece = true)
    (pieces : List (List Char)) :
    bodyComponents (piece :: pieces) = pieceComponent piece :: bodyComponents pieces := by
  simp [bodyComponents, h]

theorem body_append (cs rest : List Char) : body (cs ++ '/' :: rest) = body cs ++ body rest := by
  rw [body, Text.splitOn_append_cons, bodyComponents_append]
  rfl

theorem body_cons (rest : List Char) : body ('/' :: rest) = body rest := body_append [] rest

theorem body_join {pieces : List (List Char)} (h : ∀ piece ∈ pieces, '/' ∉ piece) :
    body (Text.join ['/'] pieces) = bodyComponents pieces := by
  cases pieces with
  | nil => rfl
  | cons piece pieces => rw [body, Text.splitOn_join (by simp) h]

theorem bodyComponents_dropVoidEnd (pieces : List (List Char)) :
    bodyComponents (dropVoidEnd pieces) = bodyComponents pieces := by
  induction pieces using List.reverseRecOn with
  | nil => rfl
  | append_singleton pieces piece ih =>
    by_cases h : isVoid piece = true
    · have hdrop : dropVoidEnd (pieces ++ [piece]) = dropVoidEnd pieces := by
        simp [dropVoidEnd, h]
      rw [hdrop, ih, bodyComponents_append, bodyComponents_cons_of_void h]
      exact (List.append_nil _).symm
    · simp [dropVoidEnd, h]

theorem bodyComponents_dropBody (n : Nat) (pieces : List (List Char)) :
    bodyComponents (dropBody n pieces) = (bodyComponents pieces).drop n := by
  induction pieces generalizing n with
  | nil => cases n <;> rfl
  | cons piece pieces ih =>
    unfold dropBody
    by_cases h : isVoid piece = true
    · rw [if_pos h, ih, bodyComponents_cons_of_void h]
    · rw [if_neg h]
      cases n with
      | zero => rfl
      | succ n => rw [ih, bodyComponents_cons h, List.drop_succ_cons]

/-! ### Steps -/

def steps (p : Path) : List Component :=
  (if p.isAbsolute then [.root] else []) ++ body p.text.toList

theorem mk_text (p : Path) : mk p.text = p := rfl

theorem isAbsolute_iff {p : Path} : p.isAbsolute = true ↔ ∃ rest, p.text.toList = '/' :: rest := by
  rw [isAbsolute, List.isPrefixOf_iff_prefix]
  exact ⟨fun ⟨rest, h⟩ => ⟨rest, h.symm⟩, fun ⟨rest, h⟩ => ⟨rest, h.symm⟩⟩

/-- The empty piece in front of the first slash of an absolute path means nothing. -/
theorem bodyComponents_pieces (p : Path) : bodyComponents p.pieces = body p.text.toList := by
  by_cases h : p.isAbsolute = true
  · obtain ⟨rest, hrest⟩ := isAbsolute_iff.mp h
    rw [pieces, if_pos h, hrest, body_cons]
    rfl
  · rw [pieces, if_neg h]
    rfl

theorem bodyComponents_drop_headLength (p : Path) :
    bodyComponents (p.pieces.drop p.headLength) = body p.text.toList := by
  rw [← bodyComponents_pieces, headLength]
  split
  · rename_i h
    obtain ⟨-, hhead⟩ := Bool.and_eq_true_iff.mp h
    obtain ⟨tail, htail⟩ : ∃ tail, p.pieces = ['.'] :: tail := by
      cases hp : p.pieces with
      | nil => simp [hp] at hhead
      | cons piece tail => simp_all
    rw [htail, List.drop_one, List.tail_cons, bodyComponents_cons_of_void (by decide)]
  · rfl

theorem components_eq (p : Path) : p.components =
    (if p.isAbsolute then [.root] else if p.headLength = 1 then [.current] else [])
      ++ body p.text.toList := by
  rw [components, bodyComponents_drop_headLength]

theorem current_notMem_body (cs : List Char) : .current ∉ body cs := by
  simp only [body, bodyComponents, List.mem_map, not_exists, not_and]
  intro piece _
  unfold pieceComponent
  split <;> simp

theorem root_notMem_body (cs : List Char) : .root ∉ body cs := by
  simp only [body, bodyComponents, List.mem_map, not_exists, not_and]
  intro piece _
  unfold pieceComponent
  split <;> simp

theorem filter_body (cs : List Char) : (body cs).filter (· ≠ .current) = body cs :=
  List.filter_eq_self.mpr fun c hc => by
    simpa using fun h : c = .current => current_notMem_body cs (h ▸ hc)

theorem steps_eq_filter (p : Path) : p.steps = p.components.filter (· ≠ .current) := by
  rw [components_eq, List.filter_append, filter_body, steps]
  split
  · rfl
  · split <;> rfl

/-! ### Operations -/

theorem steps_of_isAbsolute {p : Path} (h : p.isAbsolute = true) :
    p.steps = .root :: body p.text.toList := by
  rw [steps, if_pos h]
  rfl

theorem steps_of_not_isAbsolute {p : Path} (h : ¬ p.isAbsolute = true) :
    p.steps = body p.text.toList := by
  rw [steps, if_neg h]
  rfl

theorem isAbsolute_congr {p q : Path} (h : p.text.toList.head? = q.text.toList.head?) :
    p.isAbsolute = q.isAbsolute := by
  unfold isAbsolute
  cases hp : p.text.toList <;> cases hq : q.text.toList <;> simp_all [List.isPrefixOf]

/-- A path whose text begins and goes on as another one has its steps and more. -/
theorem steps_eq_append {p q : Path} {more : List Component}
    (hhead : q.text.toList.head? = p.text.toList.head?)
    (hbody : body q.text.toList = body p.text.toList ++ more) : q.steps = p.steps ++ more := by
  rw [steps, steps, hbody, isAbsolute_congr hhead, List.append_assoc]

theorem steps_join (p : Path) (rest : String) : (p.join rest).steps =
    if (Path.mk rest).isAbsolute then (Path.mk rest).steps
    else p.steps ++ (Path.mk rest).steps := by
  by_cases hrest : (Path.mk rest).isAbsolute = true
  · simp [join, hrest]
  by_cases hp : p.text = ""
  · have hsteps : p.steps = [] := by
      obtain ⟨text⟩ := p
      subst hp
      rfl
    simp [join, hrest, hp, hsteps]
  rw [if_neg hrest, join, if_neg (by simp [hrest, hp]), steps_of_not_isAbsolute hrest]
  have hne : p.text.toList ≠ [] := by simpa using hp
  -- a slash is put between the two unless there is one already
  by_cases hend : p.text.toList.getLast? = some '/'
  · rw [if_pos hend]
    obtain ⟨front, hfront⟩ := List.getLast?_eq_some_iff.mp hend
    refine steps_eq_append ?_ ?_
    · rw [String.toList_append, List.head?_append_of_ne_nil _ hne]
    · rw [String.toList_append, hfront, List.append_assoc, List.singleton_append, body_append,
        body_append]
      simp [body, bodyComponents, Text.splitOn, isVoid]
  · rw [if_neg hend]
    refine steps_eq_append ?_ ?_
    · rw [String.toList_append, String.toList_append, List.append_assoc,
        List.head?_append_of_ne_nil _ hne]
    · rw [String.toList_append, String.toList_append, List.append_assoc]
      exact body_append _ _

theorem steps_ofPieces {absolute : Bool} {pieces : List (List Char)}
    (hslash : ∀ piece ∈ pieces, '/' ∉ piece) (hhead : pieces.head? = some [] → absolute = true) :
    (ofPieces absolute pieces).steps =
      (if absolute then [.root] else []) ++ bodyComponents pieces := by
  cases absolute with
  | true =>
    have habsolute : (ofPieces true pieces).isAbsolute = true :=
      isAbsolute_iff.mpr ⟨Text.join ['/'] pieces, by simp [ofPieces]⟩
    rw [steps_of_isAbsolute habsolute, ofPieces, String.toList_ofList, if_pos rfl, body_cons,
      body_join hslash]
    rfl
  | false =>
    have habsolute : ¬ (ofPieces false pieces).isAbsolute = true := by
      rw [isAbsolute_iff]
      rintro ⟨rest, hrest⟩
      simp only [ofPieces, Bool.false_eq_true, if_false, String.toList_ofList] at hrest
      have hne : pieces ≠ [] := by
        rintro rfl
        cases hrest
      -- a slash in front comes from an empty first piece
      have hsplit := Text.splitOn_join hne hslash
      rw [hrest, Text.splitOn, if_pos rfl] at hsplit
      exact Bool.false_ne_true (hhead (by rw [← hsplit]; rfl))
    rw [steps_of_not_isAbsolute habsolute, ofPieces, String.toList_ofList]
    exact body_join hslash

theorem slash_notMem_of_mem_pieces {p : Path} {piece : List Char} (h : piece ∈ p.pieces) :
    '/' ∉ piece := by
  unfold pieces at h
  split at h <;> exact Text.notMem_of_mem_splitOn h

/-- Only the empty path has an empty piece in front and is not absolute. -/
theorem head?_pieces {p : Path} (h : p.pieces.head? = some []) :
    p.isAbsolute = true ∨ p.pieces = [[]] := by
  by_cases habsolute : p.isAbsolute = true
  · exact .inl habsolute
  refine .inr ?_
  rw [pieces, if_neg habsolute] at h ⊢
  cases htext : p.text.toList with
  | nil => rfl
  | cons c cs =>
    exfalso
    have hc : c ≠ '/' := by
      rintro rfl
      exact habsolute (isAbsolute_iff.mpr ⟨cs, htext⟩)
    rw [htext, Text.splitOn, if_neg hc] at h
    split at h <;> simp at h

theorem dropVoidEnd_isPrefix (pieces : List (List Char)) : dropVoidEnd pieces <+: pieces := by
  rw [dropVoidEnd, ← List.reverse_suffix, List.reverse_reverse]
  exact List.dropWhile_suffix _

theorem bodyComponents_take_headLength (p : Path) :
    bodyComponents (p.pieces.take p.headLength) = [] := by
  have h := bodyComponents_append (p.pieces.take p.headLength) (p.pieces.drop p.headLength)
  rw [List.take_append_drop, bodyComponents_pieces, bodyComponents_drop_headLength] at h
  exact List.self_eq_append_left.mp h

theorem take_append_isPrefix {α : Type} {xs ys : List α} {n : Nat} (h : ys <+: xs.drop n) :
    xs.take n ++ ys <+: xs := by
  have happend := (List.prefix_append_right_inj (xs.take n)).mpr h
  rwa [List.take_append_drop] at happend

theorem head?_of_isPrefix {α : Type} {xs ys : List α} {x : α} (h : xs <+: ys)
    (hx : xs.head? = some x) : ys.head? = some x := by
  obtain ⟨rest, rfl⟩ := h
  rw [List.head?_append, hx]
  rfl

/-- The path made of the first pieces of another one, an absolute one if that is absolute. -/
theorem steps_ofPieces_of_isPrefix {p : Path} {pieces : List (List Char)} (h : pieces <+: p.pieces)
    (hempty : p.pieces = [[]] → pieces = []) :
    (ofPieces p.isAbsolute pieces).steps =
      (if p.isAbsolute then [.root] else []) ++ bodyComponents pieces := by
  refine steps_ofPieces (fun piece hp => slash_notMem_of_mem_pieces (h.subset hp)) fun hhead => ?_
  refine (head?_pieces (head?_of_isPrefix h hhead)).resolve_right fun hpieces => ?_
  rw [hempty hpieces] at hhead
  cases hhead

/-- The path made of the first pieces of another one has the beginning of its text. -/
theorem text_ofPieces_isPrefix {p : Path} {pieces : List (List Char)} (h : pieces <+: p.pieces) :
    (ofPieces p.isAbsolute pieces).text.toList <+: p.text.toList := by
  have hjoin := Text.join_isPrefix ['/'] h
  by_cases habsolute : p.isAbsolute = true
  · obtain ⟨rest, hrest⟩ := isAbsolute_iff.mp habsolute
    rw [Path.pieces, if_pos habsolute, hrest, List.drop_one, List.tail_cons,
      Text.join_splitOn] at hjoin
    rw [ofPieces, if_pos habsolute, String.toList_ofList, hrest]
    exact List.cons_prefix_cons.mpr ⟨rfl, hjoin⟩
  · rw [Path.pieces, if_neg habsolute, Text.join_splitOn] at hjoin
    rwa [ofPieces, if_neg habsolute, String.toList_ofList]

theorem dropVoidEnd_eq_concat {pieces front : List (List Char)} {piece : List Char}
    (h : (dropVoidEnd pieces).reverse = piece :: front) :
    dropVoidEnd pieces = front.reverse ++ [piece] ∧ ¬ isVoid piece = true := by
  refine ⟨List.reverse_eq_cons_iff.mp h, ?_⟩
  rw [dropVoidEnd, List.reverse_reverse] at h
  have hhead := List.head?_dropWhile_not (p := isVoid) (l := pieces.reverse)
  simpa [h] using hhead

theorem dropVoidEnd_isPrefix_of_cons {pieces front : List (List Char)} {piece : List Char}
    (h : (dropVoidEnd pieces).reverse = piece :: front) :
    dropVoidEnd front.reverse <+: pieces :=
  (dropVoidEnd_isPrefix _).trans (((dropVoidEnd_eq_concat h).1 ▸ List.prefix_append _ _).trans
    (dropVoidEnd_isPrefix _))

theorem text_parent?_isPrefix {p q : Path} (h : p.parent? = some q) :
    q.text.toList <+: p.text.toList := by
  rw [parent?] at h
  split at h
  · rename_i hreverse
    obtain rfl := Option.some.inj h
    exact text_ofPieces_isPrefix (take_append_isPrefix (dropVoidEnd_isPrefix_of_cons hreverse))
  · split at h
    · obtain rfl := Option.some.inj h
      exact List.nil_prefix
    · cases h

/-- What is left when the last component that means something is taken away. -/
theorem steps_parent? {p : Path} {front : List Component} {last : Component}
    (h : body p.text.toList = front ++ [last]) :
    ∃ q, p.parent? = some q ∧ q.steps = (if p.isAbsolute then [.root] else []) ++ front := by
  have hbody : bodyComponents (dropVoidEnd (p.pieces.drop p.headLength)) = front ++ [last] := by
    rw [bodyComponents_dropVoidEnd, bodyComponents_drop_headLength, h]
  cases hreverse : (dropVoidEnd (p.pieces.drop p.headLength)).reverse with
  | nil =>
    rw [List.reverse_eq_nil_iff.mp hreverse] at hbody
    simp [bodyComponents] at hbody
  | cons piece pieces =>
    obtain ⟨hpieces, hvoid⟩ := dropVoidEnd_eq_concat hreverse
    have hdrop := dropVoidEnd_isPrefix_of_cons hreverse
    refine ⟨ofPieces p.isAbsolute (p.pieces.take p.headLength ++ dropVoidEnd pieces.reverse),
      ?_, ?_⟩
    · rw [parent?, hreverse]
    · -- the empty text has one empty piece, which would be kept as a head
      have hempty : p.pieces ≠ [[]] := by
        intro hempty
        rw [← bodyComponents_pieces, hempty] at h
        simp [bodyComponents, isVoid] at h
      rw [steps_ofPieces_of_isPrefix (take_append_isPrefix hdrop) fun h => absurd h hempty,
        bodyComponents_append,
        bodyComponents_take_headLength, List.nil_append, bodyComponents_dropVoidEnd]
      rw [hpieces, bodyComponents_append, bodyComponents_cons hvoid] at hbody
      rw [(List.append_inj' hbody rfl).1]

theorem head?_dropBody (n : Nat) (pieces : List (List Char)) :
    (dropBody n pieces).head? ≠ some [] := by
  induction pieces generalizing n with
  | nil => cases n <;> simp [dropBody]
  | cons piece pieces ih =>
    unfold dropBody
    by_cases h : isVoid piece = true
    · rw [if_pos h]
      exact ih n
    · rw [if_neg h]
      cases n with
      | zero =>
        intro hhead
        obtain rfl : piece = [] := by simpa using hhead
        exact h rfl
      | succ n => exact ih n

theorem dropBody_subset (n : Nat) (pieces : List (List Char)) : dropBody n pieces ⊆ pieces := by
  induction pieces generalizing n with
  | nil => cases n <;> simp [dropBody]
  | cons piece pieces ih =>
    unfold dropBody
    split
    · exact List.Subset.trans (ih n) (List.subset_cons_self _ _)
    · cases n with
      | zero => exact List.Subset.refl _
      | succ n => exact List.Subset.trans (ih n) (List.subset_cons_self _ _)

/-- Behind some components of a path, of which the first one need not belong to its body. -/
theorem filter_drop_components (p : Path) {n : Nat} (hn : n ≠ 0) :
    (p.components.drop n).filter (· ≠ .current) =
      (body p.text.toList).drop (if p.isAbsolute || p.headLength = 1 then n - 1 else n) := by
  have hfilter (n : Nat) :
      ((body p.text.toList).drop n).filter (· ≠ .current) = (body p.text.toList).drop n :=
    List.filter_eq_self.mpr fun c hc => by
      simpa using fun h : c = .current => current_notMem_body _ (h ▸ List.mem_of_mem_drop hc)
  obtain ⟨n, rfl⟩ := Nat.exists_eq_succ_of_ne_zero hn
  rw [components_eq]
  by_cases habsolute : p.isAbsolute = true
  · simp only [habsolute, Bool.true_or, if_true]
    exact hfilter n
  by_cases hhead : p.headLength = 1
  · simp only [if_neg habsolute, hhead, decide_true, Bool.or_true, if_true]
    exact hfilter n
  · simp only [habsolute, hhead, decide_false, Bool.or_false]
    exact hfilter (n + 1)

theorem steps_relativeTo? {p base q : Path} (h : p.relativeTo? base = some q) :
    q.steps = (p.components.drop base.components.length).filter (· ≠ .current) := by
  rw [relativeTo?] at h
  split at h
  · cases h
  simp only at h
  split at h <;> obtain rfl := Option.some.inj h
  · rename_i hn
    -- with nothing to take away the path is put together again, from its head on
    have hempty : p.pieces = [[]] →
        p.pieces.take p.headLength ++ dropVoidEnd (p.pieces.drop p.headLength) = [] := by
      intro hempty
      have hhead : p.headLength = 0 := by simp [headLength, hempty]
      rw [hhead, hempty]
      rfl
    rw [steps_ofPieces_of_isPrefix (take_append_isPrefix (dropVoidEnd_isPrefix _)) hempty,
      bodyComponents_append, bodyComponents_take_headLength, List.nil_append,
      bodyComponents_dropVoidEnd, bodyComponents_drop_headLength, hn, List.drop_zero,
      ← steps_eq_filter, steps]
  · rename_i hn
    rw [filter_drop_components p hn, steps_ofPieces, bodyComponents_dropVoidEnd,
      bodyComponents_dropBody, bodyComponents_drop_headLength]
    · rfl
    · intro piece hpiece
      exact slash_notMem_of_mem_pieces (List.mem_of_mem_drop
        (dropBody_subset _ _ ((dropVoidEnd_isPrefix _).subset hpiece)))
    · intro hhead
      exact absurd (head?_of_isPrefix (dropVoidEnd_isPrefix _) hhead) (head?_dropBody _ _)

/-- Only the empty text means nothing at all. -/
theorem components_ne_nil {p : Path} (h : p.text ≠ "") : p.components ≠ [] := by
  rw [components_eq]
  by_cases habsolute : p.isAbsolute = true
  · simp [habsolute]
  by_cases hhead : p.headLength = 1
  · simp [habsolute, hhead]
  rw [if_neg habsolute, if_neg hhead, List.nil_append, ← bodyComponents_pieces]
  cases hpieces : p.pieces with
  | nil =>
    rw [pieces, if_neg habsolute] at hpieces
    exact absurd hpieces (Text.splitOn_ne_nil _ _)
  | cons piece rest =>
    -- a first piece that means nothing is a slash in front, a dot or the whole text
    have hvoid : ¬ isVoid piece = true := by
      intro hvoid
      simp only [isVoid, Bool.or_eq_true, decide_eq_true_eq] at hvoid
      rcases hvoid with rfl | rfl
      · have hempty := (head?_pieces (by rw [hpieces]; rfl)).resolve_left habsolute
        rw [pieces, if_neg habsolute] at hempty
        have htext := Text.join_splitOn '/' p.text.toList
        rw [hempty] at htext
        exact h (String.toList_eq_nil_iff.mp htext.symm)
      · exact hhead (by simp [headLength, hpieces, habsolute])
    rw [bodyComponents_cons hvoid]
    exact List.cons_ne_nil _ _

/-- The text of a path that leads to the root asks for a directory. -/
theorem namesDirectory_of_root {p : Path} {front : List Component}
    (h : p.components = front ++ [.root]) : p.namesDirectory = true := by
  rw [components_eq] at h
  have hbody : body p.text.toList = [] := by
    obtain hnil | ⟨init, last, hlast⟩ := List.eq_nil_or_concat (body p.text.toList)
    · exact hnil
    · rw [hlast, List.concat_eq_append, ← List.append_assoc] at h
      obtain rfl := List.singleton_inj.mp (List.append_inj' h rfl).2
      exact absurd (by simp [hlast]) (root_notMem_body p.text.toList)
  have habsolute : p.isAbsolute = true := by
    by_contra hnot
    rw [hbody, if_neg hnot] at h
    split at h <;> cases front <;> simp at h
  obtain ⟨rest, hrest⟩ := isAbsolute_iff.mp habsolute
  obtain ⟨pieces, last, hsplit⟩ :=
    (List.eq_nil_or_concat (Text.splitOn '/' rest)).resolve_left (Text.splitOn_ne_nil _ _)
  rw [List.concat_eq_append] at hsplit
  -- behind the slash in front no piece means anything, so the last one does not
  have hvoid : isVoid last = true := by
    by_contra hvoid
    rw [hrest, body_cons, body, hsplit, bodyComponents_append, bodyComponents_cons hvoid] at hbody
    simp at hbody
  rw [namesDirectory, hrest, Text.splitOn, if_pos rfl, hsplit]
  cases hreverse : pieces.reverse <;> simp [hreverse, hvoid]

theorem namesDirectory_of_slash {p : Path} (front : List Char)
    (h : p.text.toList = front ++ ['/']) : p.namesDirectory = true := by
  rw [namesDirectory, h, Text.splitOn_append_cons, List.reverse_append]
  obtain ⟨pieces, last, hsplit⟩ :=
    (List.eq_nil_or_concat (Text.splitOn '/' front)).resolve_left (Text.splitOn_ne_nil _ _)
  rw [hsplit, List.concat_eq_append]
  simp [Text.splitOn, isVoid]

/-- Nothing joined to a path asks for the directory there. -/
theorem namesDirectory_join_nil {p : Path} (h : p.text ≠ "") :
    (p.join "").namesDirectory = true := by
  by_cases hend : p.text.toList.getLast? = some '/'
  · obtain ⟨front, hfront⟩ := List.getLast?_eq_some_iff.mp hend
    exact namesDirectory_of_slash front (by simp [join, isAbsolute, h, hfront])
  · exact namesDirectory_of_slash p.text.toList
      (by simp [join, isAbsolute, h, hend])

/-! ### Names -/

/-- A text that is a component of its own. -/
structure IsName (n : String) : Prop where
  slash : '/' ∉ n.toList
  void : ¬ isVoid n.toList = true
  parent : n.toList ≠ ['.', '.']

instance (n : String) : Decidable (IsName n) :=
  decidable_of_iff ('/' ∉ n.toList ∧ ¬ isVoid n.toList = true ∧ n.toList ≠ ['.', '.'])
    ⟨fun ⟨slash, void, parent⟩ => ⟨slash, void, parent⟩, fun h => ⟨h.slash, h.void, h.parent⟩⟩

theorem subset_of_mem_body {cs : List Char} {n : String} (h : .name n ∈ body cs) :
    n.toList ⊆ cs := by
  simp only [body, bodyComponents, List.mem_map, List.mem_filter] at h
  obtain ⟨piece, ⟨hmem, -⟩, hpiece⟩ := h
  unfold pieceComponent at hpiece
  split at hpiece
  · cases hpiece
  · obtain rfl := Component.name.inj hpiece
    rw [String.toList_ofList]
    exact Text.subset_of_mem_splitOn hmem

theorem isName_of_mem_body {cs : List Char} {n : String} (h : .name n ∈ body cs) : IsName n := by
  simp only [body, bodyComponents, List.mem_map, List.mem_filter] at h
  obtain ⟨piece, ⟨hmem, hvoid⟩, hpiece⟩ := h
  unfold pieceComponent at hpiece
  split at hpiece
  · cases hpiece
  · rename_i hparent
    obtain rfl := Component.name.inj hpiece
    rw [← String.toList_ofList (l := piece)] at hmem hvoid hparent
    exact ⟨Text.notMem_of_mem_splitOn hmem, by simpa using hvoid, hparent⟩

theorem isName_of_mem_steps {p : Path} {n : String} (h : .name n ∈ p.steps) : IsName n := by
  rcases List.mem_append.mp h with h | h
  · split at h <;> simp at h
  · exact isName_of_mem_body h

theorem IsName.body_eq {n : String} (h : IsName n) : body n.toList = [.name n] := by
  rw [body, Text.splitOn_of_notMem h.slash, bodyComponents_cons h.void, pieceComponent,
    if_neg h.parent, String.ofList_toList]
  rfl

theorem IsName.not_isAbsolute {n : String} (h : IsName n) : ¬ (Path.mk n).isAbsolute = true := by
  rw [isAbsolute_iff]
  rintro ⟨rest, hrest⟩
  exact h.slash (by simp only at hrest; simp [hrest])

theorem IsName.append {n : String} (h : IsName n) {suffix : String}
    (hslash : '/' ∉ suffix.toList) (hlength : 2 < suffix.toList.length) :
    IsName (n ++ suffix) where
  slash := by simp [h.slash, hslash]
  void := by
    intro hvoid
    simp only [isVoid, Bool.or_eq_true, decide_eq_true_eq] at hvoid
    have hshort : (n ++ suffix).toList.length ≤ 1 := by rcases hvoid with h | h <;> simp [h]
    rw [String.toList_append, List.length_append] at hshort
    omega
  parent := by
    intro hparent
    have hsum := congrArg List.length hparent
    rw [String.toList_append, List.length_append] at hsum
    simp only [List.length_cons, List.length_nil] at hsum
    omega

theorem steps_join_name (p : Path) {n : String} (h : IsName n) :
    (p.join n).steps = p.steps ++ [.name n] := by
  rw [steps_join, if_neg h.not_isAbsolute, steps_of_not_isAbsolute h.not_isAbsolute, h.body_eq]

/-- A joined name stands at the end of the text, alone or behind a slash. -/
theorem text_join_name (p : Path) {n : String} (h : IsName n) :
    ∃ front, (p.join n).text.toList = front ++ n.toList ∧
      (front = [] ∨ front = p.text.toList ∧ front.getLast? = some '/' ∨
        front = p.text.toList ++ ['/']) := by
  by_cases hp : p.text = ""
  · exact ⟨[], by simp [join, hp], .inl rfl⟩
  by_cases hend : p.text.toList.getLast? = some '/'
  · exact ⟨p.text.toList, by simp [join, hp, hend, h.not_isAbsolute], .inr (.inl ⟨rfl, hend⟩)⟩
  · exact ⟨p.text.toList ++ ['/'], by simp [join, hp, hend, h.not_isAbsolute], .inr (.inr rfl)⟩

theorem namesDirectory_join_name (p : Path) {n : String} (h : IsName n) :
    (p.join n).namesDirectory = false := by
  obtain ⟨front, htext, hfront⟩ := text_join_name p h
  have hsplit : Text.splitOn '/' n.toList = [n.toList] := Text.splitOn_of_notMem h.slash
  obtain rfl | ⟨front, rfl⟩ : front = [] ∨ ∃ front', front = front' ++ ['/'] := by
    rcases hfront with hnil | ⟨-, hend⟩ | hslash
    · exact .inl hnil
    · exact .inr (List.getLast?_eq_some_iff.mp hend)
    · exact .inr ⟨_, hslash⟩
  · rw [namesDirectory, htext, List.nil_append, hsplit]
    rfl
  · rw [namesDirectory, htext, List.append_assoc, List.singleton_append,
      Text.splitOn_append_cons, hsplit, List.reverse_append]
    cases hreverse : (Text.splitOn '/' front).reverse with
    | nil => exact absurd (List.reverse_eq_nil_iff.mp hreverse) (Text.splitOn_ne_nil _ _)
    | cons piece pieces => simpa using h.void

/-- Steps joined one after the other. -/
theorem steps_foldl_join {cs : List Component} (hroot : .root ∉ cs) (hcurrent : .current ∉ cs)
    (hname : ∀ n, .name n ∈ cs → IsName n) (p : Path) :
    (cs.foldl (fun p c => p.join c.text) p).steps = p.steps ++ cs := by
  induction cs generalizing p with
  | nil => simp
  | cons c cs ih =>
    have hstep : (p.join c.text).steps = p.steps ++ [c] := by
      cases c with
      | root => simp at hroot
      | current => simp at hcurrent
      | parent => exact steps_join p ".."
      | name n => exact steps_join_name p (hname n List.mem_cons_self)
    rw [List.foldl_cons, ih (by simp_all) (by simp_all) (by simp_all), hstep, List.append_assoc]
    rfl

theorem steps_ofComponents (p : Path) : (ofComponents p.steps).steps = p.steps := by
  have hbody := steps_foldl_join (root_notMem_body p.text.toList)
    (current_notMem_body p.text.toList) fun n h => isName_of_mem_body h
  by_cases habsolute : p.isAbsolute = true
  · rw [steps_of_isAbsolute habsolute, ofComponents, List.foldl_cons]
    exact hbody ⟨"/"⟩
  · rw [steps_of_not_isAbsolute habsolute, ofComponents]
    exact hbody ⟨""⟩

/-- The last step is a file name if it is a name. -/
theorem body_of_steps {p : Path} {front : List Component} {n : String}
    (h : p.steps = front ++ [.name n]) : ∃ front', body p.text.toList = front' ++ [.name n] ∧
      front = (if p.isAbsolute then [.root] else []) ++ front' := by
  rw [steps] at h
  obtain hnil | ⟨front', last, hbody⟩ := List.eq_nil_or_concat (body p.text.toList)
  · rw [hnil, List.append_nil] at h
    split at h
    · cases front <;> simp at h
    · simp at h
  · rw [hbody, List.concat_eq_append, ← List.append_assoc] at h
    obtain ⟨hfront, hlast⟩ := List.append_inj' h rfl
    obtain rfl := List.singleton_inj.mp hlast
    exact ⟨front', by rw [hbody, List.concat_eq_append], hfront.symm⟩

theorem fileName?_of_steps {p : Path} {front : List Component} {n : String}
    (h : p.steps = front ++ [.name n]) : p.fileName? = some n := by
  obtain ⟨front', hbody, -⟩ := body_of_steps h
  rw [fileName?, components_eq, hbody, ← List.append_assoc, List.getLast?_concat]

theorem steps_of_fileName? {p : Path} {n : String} (h : p.fileName? = some n) :
    ∃ front, p.steps = front ++ [.name n] := by
  unfold fileName? at h
  split at h
  · rename_i name hlast
    obtain rfl := Option.some.inj h
    obtain ⟨front, hfront⟩ := List.getLast?_eq_some_iff.mp hlast
    exact ⟨front.filter (· ≠ .current), by rw [steps_eq_filter, hfront, List.filter_append]; rfl⟩
  · cases h

theorem steps_withFileName {p : Path} {front : List Component} {n name : String}
    (h : p.steps = front ++ [.name n]) (hname : IsName name) :
    p.fileName? = some n ∧ (p.withFileName name).steps = front ++ [.name name] := by
  have hfile := fileName?_of_steps h
  obtain ⟨front', hbody, hfront⟩ := body_of_steps h
  obtain ⟨q, hparent, hsteps⟩ := steps_parent? hbody
  refine ⟨hfile, ?_⟩
  rw [withFileName, hfile, hparent, Option.isSome_some, if_pos rfl, Option.getD_some,
    steps_join_name q hname, hsteps, hfront]

end Path

end Phrasebook
