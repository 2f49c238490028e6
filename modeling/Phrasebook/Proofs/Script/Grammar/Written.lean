import Phrasebook.Proofs.Script.Grammar.Other

/-!
# Expressions with a known text

An expression of which the text is known is written from the first token that is read for it up to
the last one (`Written`). Nothing but a literal, parentheses and a sum can be such an expression, so
only the rules for these have something to say; the others pass it on as it is.
-/

namespace Phrasebook.Script.Grammar

open Cursor (Passes)

variable {text : List Char} {r : Rules}

/-! ### Steps that leave the lexer where it is -/

/-- Where `p` gives `x`, it has read nothing. -/
def Backs {α : Type} (p : Parser α) (x : α) : Prop := ∀ mode l l', p mode l = .ok x l' → l' = l

section Backs

variable {α β : Type} {p p' : Parser α} {q : α → Parser β} {x : α} {y : β}

theorem Backs.still (hp : Still p) (hq : ∀ a, Backs (q a) y) : Backs (p >>= q) y := by
  intro mode l l' hrun
  obtain ⟨a, ha⟩ := hp mode l
  rw [bind_run, ha] at hrun
  exact hq a mode l l' hrun

theorem Backs.ite {c : Prop} [Decidable c] (h : Backs p x) (h' : Backs p' x) :
    Backs (if c then p else p') x := by
  split
  · exact h
  · exact h'

theorem Backs.pure (a : α) : Backs (Pure.pure a) x := by
  intro mode l l' hrun
  cases hrun
  rfl

theorem backs_attempt (p : Parser (Option α)) : Backs (Parser.attempt p) none := by
  intro mode l l' hrun
  unfold Parser.attempt at hrun
  split at hrun
  · cases hrun
  · cases hrun
    rfl

theorem Backs.of_yields (h : Yields p (· ≠ x)) : Backs p x :=
  fun mode l l' hrun => absurd rfl (h mode l x l' hrun)

theorem Backs.orElse {p : Parser (Option α)} {k : Option α → Parser β} (hp : Backs p none)
    (hsome : ∀ a, Yields (k (some a)) (· ≠ y)) (hnone : Backs (k none) y) :
    Backs (p >>= k) y := by
  intro mode l l' hrun
  rw [bind_run] at hrun
  cases heq : p mode l with
  | error e l'' =>
    rw [heq] at hrun
    cases hrun
  | ok o l'' =>
    rw [heq] at hrun
    cases o with
    | none =>
      obtain rfl := hp mode l l'' heq
      exact hnone mode l'' l' hrun
    | some a => exact absurd rfl (hsome a mode l'' y l' hrun)

theorem Backs.toList {p : Parser (Option α)} (hp : Backs p none) :
    Backs (p >>= fun o => Pure.pure o.toList) [] :=
  .orElse hp (fun _ => .pure (by simp)) (.pure _)

theorem yields_some {p : Parser α} : Yields (p >>= fun a => Pure.pure (some a)) (· ≠ none) :=
  .bind fun _ => .pure (by simp)

theorem backs_eat (k : Kind) : Backs (Parser.eat k) false :=
  .still (.is _) fun _ => .ite (.of_yields (.bind fun _ => .pure (by simp))) (.pure _)

theorem triple_of_backs {P : Lexer → Prop} (hp : Moves text p) (hback : Backs p x) :
    Triple text P p fun y l => y = x → P l := by
  intro mode l hl h
  have hrun := hp _ .idle mode l hl ⟨⟩
  cases heq : p mode l with
  | error e l' =>
    rw [heq] at hrun
    exact hrun
  | ok y l' =>
    rw [heq] at hrun
    refine ⟨hrun.1, hrun.2.1, fun hy => ?_⟩
    subst hy
    rwa [hback mode l l' heq]

end Backs

/-! ### Forms without a known text -/

theorem foldText_mk {form : Form} (h : mayHaveText form = false) (lo hi : Nat)
    (parts : List Node) : foldText (.mk form lo hi parts) = none := by
  cases form with
  | string | paren | binary => simp [mayHaveText] at h
  | template value =>
    cases value with
    | none => cases parts <;> rfl
    | some value => simp [mayHaveText] at h
  | _ => rfl

theorem noText : OfOthers (foldText · = none) where
  other h lo hi parts := foldText_mk (by simp_all [isOther]) lo hi parts

theorem noTextOf (lo : Nat) : OfFunctions lo (foldText · = none) where
  toOfOthers := noText
  function h hi parts := foldText_mk h lo hi parts

/-- A parser that gives no expression with a known text. -/
theorem written_of_noText {P : Lexer → Prop} {p : Parser Node} {start : Lexer}
    (hp : Moves text p) (hnone : Yields p (foldText · = none)) :
    Triple text P p fun n l => Written start l n :=
  (Triple.of_yields hp hnone).imp (fun _ h => h) fun _ _ => Written.of_none

theorem written_pure {start : Lexer} (e : Node) :
    Triple text (Written start · e) (pure e) fun n l => Written start l n :=
  .pure fun _ _ h => h

theorem written_plainNode {P : Lexer → Prop} {form : Form} (h : isOther form = true)
    (start : Lexer) (lo : Nat) (parts : List Node) :
    Triple text P (Parser.node form lo parts) fun n l => Written start l n :=
  written_of_noText (.of_still (.node _ _ _)) (others_node noText h _ _)

theorem still_isWholeArrow (n : Node) : Still (isWholeArrow n) := by
  unfold isWholeArrow
  split
  · exact .bind .read fun _ => .pure _
  · exact .pure _

/-! ### Literals -/

/-- A literal that is the token in hand. -/
theorem written_literalToken {form : Form} {l : Lexer} (hl : l.On text)
    (hkind : l.kind = .string ∨ l.kind = .templateWhole)
    (hform : ∀ sums lo hi, textOf sums (.mk form lo hi []) = l.token.text) :
    Triple text (· = l) (Parser.bump >>= fun _ => Parser.node form l.pos [])
      fun n l' => Written l l' n := by
  rintro mode _ hl' rfl
  exact ⟨hl.next, hl.pos_le_next, .literal hl hkind (fun sums => hform sums _ _) rfl rfl⟩

theorem shapes_checkPiece (tagged : Bool) : Shapes [] (checkPiece tagged) fun _ => [] :=
  .still .get fun l => by
    split
    · exact .still .get fun _ => .ite (.failAt _) (.pure (.refl _))
    · exact .pure (.refl _)

/-- A template with substitutions has no known text. -/
theorem noText_template {tagged : Bool} {mode : Mode} {l l' : Lexer} {n : Node}
    (hkind : l.kind ≠ .templateWhole) (hrun : template r tagged mode l = .ok n l') :
    foldText n = none := by
  change (checkPiece tagged >>= fun _ => if l.kind == .templateWhole then _ else _)
    { mode with beforeColon := false } l = _ at hrun
  rw [if_neg (by simpa using hkind)] at hrun
  refine Yields.bind (Q := (foldText · = none)) (fun _ => ?_) _ _ _ _ hrun
  exact .bind fun _ => .bind fun _ => others_node noText rfl _ _

theorem written_template (h : r.Sound text) (tagged : Bool) :
    ReadsWritten text (template r tagged) := by
  intro start mode l hl hstart
  subst hstart
  by_cases hkind : l.kind = .templateWhole
  · have hrun : template r tagged mode l = (checkPiece tagged >>= fun _ => Parser.bump >>= fun _ =>
        Parser.node (.template l.token.text) l.pos []) { mode with beforeColon := false } l := by
      change (checkPiece tagged >>= fun _ => if l.kind == .templateWhole then _ else _)
        { mode with beforeColon := false } l = _
      rw [if_pos (by simpa using hkind)]
    have hform (sums : Bool) (lo hi : Nat) :
        textOf sums (.mk (.template l.token.text) lo hi []) = l.token.text := by cases sums <;> rfl
    have htoken := Triple.stay (shapes_checkPiece tagged) fun _ =>
      written_literalToken hl (.inr hkind) hform
    rw [hrun]
    exact htoken _ l hl rfl
  · -- a template with substitutions has no text
    have hnone := Triple.of_run (P := (· = l)) (S := (foldText · = none))
      (.of_gives (reads_template h tagged)) fun mode l' n _ hl' hrun =>
        noText_template (hl' ▸ hkind) hrun
    exact (hnone.imp (fun _ h => h) fun _ _ => Written.of_none) mode l hl rfl

/-! ### Items between parentheses -/

/-- A word is skipped only in front of a token with which no known text begins. -/
theorem triple_skipModifier (start : Lexer) : Triple text (· = start) Parser.skipModifier
    fun _ l => l = start ∨ l.kind.beginsText = false := by
  refine .still (.isOneOf _) fun _ =>
    .ite (.peekOf fun next => .iteOf (fun hfits => ?_) fun _ => ?_) ?_
  · have hskipped : Triple text (fun l => l = start ∧ l.next = next)
        (Parser.eatModifier [.kwPublic, .kwProtected, .kwPrivate, .kwReadonly])
        fun _ l => l = start ∨ l.kind.beginsText = false := by
      refine .still .kind fun _ => .ite (.still .isModifier fun _ => .ite (.bind .bump fun _ =>
        .pure fun l _ hl => ?_) (.pure fun _ _ h => .inl h.1)) (.pure fun _ _ h => .inl h.1)
      obtain ⟨l', -, ⟨-, rfl⟩, rfl⟩ := hl
      exact .inr (Kind.beginsText_eq_false
        (fun k => k.isWord || k == .braceOpen || k == .bracketOpen) hfits (by decide))
    exact .bind hskipped fun _ => .pure fun _ _ h => h
  · exact .pure fun _ _ h => .inl h.1
  · exact .pure fun _ _ h => .inl h

/-- As `ReadsWritten`, possibly behind a skipped word. -/
theorem written_behindWord {p : Parser Node} (hp : ReadsWritten text p) (start : Lexer) :
    Triple text (fun l => l = start ∨ l.kind.beginsText = false) p
      fun n l => Written start l n := by
  rintro mode l hl (rfl | hkind)
  · exact hp l mode l hl rfl
  · exact ((hp l).imp (fun _ h => h) fun _ _ h => h.of_kind hkind) mode l hl rfl

theorem written_argument (h : r.Sound text) : ReadsWritten text (argument r) := fun start =>
  .still .pos fun _ => .bind (triple_of_backs (.eat _) (backs_eat _)) fun spreads => by
    cases spreads with
    | true =>
      exact written_of_noText (Gives.skip (.of_gives h.fullAssignment) fun _ =>
        Moves.of_still (.node _ _ _)) (.bind fun _ => others_node noText rfl _ _)
    | false => exact (h.written_fullAssignment start).imp (fun _ hl => hl rfl) fun _ _ h => h

theorem yields_patternItem (lo : Nat) (e : Node) :
    Yields (patternItem r lo e) (·.isPattern = true) := by
  unfold patternItem
  extract_lets rest
  have hrest (n : Node) : Yields (rest n) (·.isPattern = true) :=
    .bind fun _ => .bind fun _ => .ite (.bind fun _ => .bind fun _ => .pure rfl) (.pure rfl)
  split
  · exact .bind fun _ => hrest _
  · exact .bind hrest

/-- An item that is no pattern is written from where it is read on, if its text is known. -/
theorem triple_item (h : r.Sound text) (start : Lexer) : Triple text (· = start) (item r)
    fun i l => i.isPattern = false → Written start l i.node := by
  refine .still .pos fun lo => ?_
  extract_lets inside
  refine .bind (triple_skipModifier start) fun _ => .still .pos fun _ => .still .kind fun _ =>
    .still (.is _) fun _ => .still .peek fun _ => ?_
  extract_lets isNamed rest
  have hrest (e : Node) : Triple text (Written start · e) (rest e)
      fun i l => i.isPattern = false → Written start l i.node := by
    refine .still (.is _) fun _ => ?_
    extract_lets last conditional
    -- a pattern is not asked about, and a conditional has no text
    have hpattern (lo : Nat) (e : Node) {P : Lexer → Prop} : Triple text P (patternItem r lo e)
        fun i l => i.isPattern = false → Written start l i.node :=
      (Triple.of_yields (.of_gives (gives_patternItem h _ _)) (yields_patternItem _ _)).imp
        (fun _ h => h) fun i _ hi hplain => by
          rw [hi] at hplain
          cases hplain
    have hlast (u : Unit) : Triple text (Written start · e) (last u)
        fun i l => i.isPattern = false → Written start l i.node :=
      .still (.is _) fun _ => .ite (hpattern _ _) (.pure fun _ _ h _ => h)
    have hconditional (u : Unit) : Triple text (Written start · e) (conditional u)
        fun i l => i.isPattern = false → Written start l i.node :=
      .ite (.forget .bump fun _ => .bind (written_of_noText (.of_gives (gives_branches h _ _))
        (others_branches noText _ _)) fun _ => .pure fun _ _ h _ => h) (hlast ())
    refine .ite (.still .peek fun _ => .ite (.bind .bump fun _ => ?_) (hconditional ())) (hlast ())
    split
    · exact hpattern _ _
    · exact hpattern _ _
    · exact .bind (.failAt _) hconditional
  have hbinary := written_behindWord h.written_binary start
  have hargument := written_behindWord (written_argument h) start
  refine .ite (.still (.is _) fun _ => .ite ?_ ?_) (.bind hargument hrest)
  · exact .forget .bump fun _ => .forget (.of_gives h.binary.adjust) fun _ =>
      .bind (written_plainNode rfl start _ _) hrest
  · exact .bind hbinary.adjust fun e => .still (.isOneOf _) fun _ => .ite
      (.bind (h.written_finishAssignment _ _ start) hrest) (hrest e)

/-- The items `list`, latest first, stand between the parenthesis `start` and the lexer `l`. -/
def AfterItems (text : List Char) (start l : Lexer) : List Item → Prop
  | [] => l = start.next
  | [i] => i.isPattern = false → ∃ last, Written start.next last i.node ∧
      (last = l ∨ last.On text ∧ last.kind = .comma ∧ l = last.next)
  | _ => True

theorem afterItems_cons {start l : Lexer} {i : Item} {acc : List Item}
    (h : acc = [] → i.isPattern = false → ∃ last, Written start.next last i.node ∧
      (last = l ∨ last.On text ∧ last.kind = .comma ∧ l = last.next)) :
    AfterItems text start l (i :: acc) := by
  cases acc with
  | nil => exact h rfl
  | cons => trivial

/-- A single item is written between the parentheses. -/
theorem triple_items (h : r.Sound text) (start : Lexer) : Triple text (· = start) (items r)
    fun list l => ∀ i, list = [i] → i.isPattern = false →
      Written start l (.mk .paren start.pos l.previousEnd [i.node]) := by
  have hopens : Triple text (· = start) (Parser.expect .parenOpen)
      fun _ l => (start.On text ∧ start.kind = .parenOpen) ∧ AfterItems text start l [] :=
    (Triple.expect .parenOpen).imp (fun _ h => h) fun _ l hl => by
      obtain ⟨l', hon, rfl, hkind, rfl⟩ := hl
      exact ⟨⟨hon, hkind⟩, rfl⟩
  refine .bind hopens fun _ => .given fun ⟨hstart, hopen⟩ => ?_
  -- only the first item is asked about, so behind another one nothing has to be known
  have hitem (acc : List Item) : Triple text (AfterItems text start · acc) (item r)
      fun i l => acc = [] → i.isPattern = false → Written start.next l i.node := by
    cases acc with
    | nil => exact (triple_item h start.next).imp (fun _ h => h) fun _ _ hi _ => hi
    | cons => exact ((Moves.of_gives (gives_item h)).triple (P := fun _ => True)
        fun _ _ _ h => h).imp (fun _ _ => ⟨⟩) fun _ _ _ hacc => nomatch hacc
  have hstep (acc : List Item) : Triple text (AfterItems text start · acc)
      (do if ← Parser.is .parenClose then return (acc, false)
          let i ← item r
          if ← Parser.is .parenClose then return (i :: acc, false)
          Parser.expect .comma
          return (i :: acc, true))
      fun y l => AfterItems text start l y.1 := by
    refine .still (.is _) fun _ => .ite (.pure fun _ _ h => h) <| .bind (hitem acc) fun i =>
      .still (.is _) fun _ => .ite (.pure fun l _ hi => ?_) <| .bind (.expect _) fun _ =>
        .pure fun l _ hi => ?_
    · exact afterItems_cons fun hacc hplain => ⟨l, hi hacc hplain, .inl rfl⟩
    · obtain ⟨last, hon, hlast, hkind, rfl⟩ := hi
      exact afterItems_cons fun hacc hplain =>
        ⟨last, hlast hacc hplain, .inr ⟨hon, hkind, rfl⟩⟩
  extract_lets inside
  refine .bind (Triple.adjust (.loop hstep)) fun list => .bind (.expect _) fun _ =>
    .pure fun l _ hl i hlist hplain => ?_
  obtain ⟨close, hclose, hafter, hkind, rfl⟩ := hl
  obtain rfl : list = [i] := by simpa using congrArg List.reverse hlist
  obtain ⟨last, hwritten, hlast⟩ := hafter hplain
  exact hwritten.paren hstart hopen hlast hclose hkind

theorem yields_itemsAsExpressions (list : List Item) :
    Yields (itemsAsExpressions list) (· = list.map (·.node)) := by
  unfold itemsAsExpressions
  induction list with
  | nil => exact .pure rfl
  | cons i list ih =>
    rw [List.mapM_cons]
    refine .bindOf (P := (· = i.node)) ?_ fun n hn => .bindOf ih fun ns hns => .pure ?_
    · split
      · exact .failAt _
      · exact .pure rfl
    · rw [hn, hns, List.map_cons]

/-! ### Parentheses -/

theorem written_parenOrArrow (h : r.Sound text) (canBeArrow : Bool) :
    ReadsWritten text (parenOrArrow r canBeArrow none) := by
  intro start
  refine .pos <| .bind (triple_items h start) fun list => .still .previousEnd fun close => ?_
  have hback : Backs (arrowInBranch? r start.pos ⟨false, false⟩ list) none :=
    .still .read fun _ => .still (.is _) fun _ => .ite (backs_attempt _) (.pure _)
  refine .bind ((triple_of_backs (.of_gives (gives_arrowInBranch? h _ _ _)) hback).and
    (functions_arrowInBranch? (noTextOf _) _ _)) fun o => ?_
  cases o with
  | some n => exact .pure fun l _ hn => .of_none (hn.2 n rfl)
  | none =>
    have hback : Backs (arrowResult? r) [] :=
      .still .read fun _ => .still (.is _) fun _ => .ite (.pure _) (Backs.toList (backs_attempt _))
    refine .bind ((triple_of_backs (.of_gives (gives_arrowResult? h)) hback).imp
      (fun l hl => hl.1 rfl) fun _ _ h => h) fun types => .still (.is _) fun isArrow => ?_
    split
    · -- an arrow function
      refine written_of_noText (Gives.skip .lineBreak fun _ => .skipIf .unexpected <|
        .skipUnless (.failAt _) <| .skip (.expect _) fun _ =>
          .skip (.of_gives (shapes_itemsAsParameters list).gives) fun _ =>
            .skip (moves_arrowFrom h _ _ _ _) fun n => .skip .kind fun _ =>
              .skipIf .unexpected .done) ?_
      exact .bind fun _ => .skipIf <| .skipUnless <| .bind fun _ => .bind fun _ =>
        .bindOf (functions_arrowFrom (noTextOf _) _ _ _) fun n hn =>
          .bind fun _ => .skipIf (.pure hn)
    · rename_i hplain
      simp only [Bool.not_eq_true, Bool.or_eq_false_iff, Bool.not_eq_eq_eq_not, Bool.not_false,
        List.isEmpty_iff] at hplain
      obtain ⟨⟨hplain, rfl⟩, -⟩ := hplain
      refine .bind ((shapes_itemsAsExpressions list).triple.and (yields_itemsAsExpressions list))
        fun es => ?_
      split
      · exact .failAt _
      · rintro mode l hl ⟨hitems, hes⟩
        obtain ⟨i, rfl, rfl⟩ := List.map_eq_singleton_iff.mp hes.symm
        exact ⟨hl, Nat.le_refl _, hitems rfl i rfl (by simpa using hplain)⟩
      · exact written_of_noText (.of_still (.node _ _ _)) (.node fun _ => rfl)

/-! ### Primary expressions -/

theorem written_stringToken {l : Lexer} (hl : l.On text) (hkind : l.kind = .string) :
    Triple text (· = l) (tokenNode (.string l.token.text)) fun n l' => Written l l' n :=
  .pos <| written_literalToken hl (.inl hkind) fun sums _ _ => by cases sums <;> rfl

theorem written_regularExpression (start : Lexer) :
    Triple text (fun l => ∃ cs, l.here.rest = '/' :: cs) regularExpression
      fun n l => Written start l n :=
  ((gives_regularExpression _ .idle).and (others_regularExpression noText)).imp (fun _ h => ⟨h, ⟨⟩⟩)
    fun _ _ h => .of_none h.2

theorem written_primary (h : r.Sound text) : ReadsWritten text (primary r) := by
  intro start
  refine .get fun l hl hstart => ?_
  subst hstart
  -- a string, a template and parentheses may have a text, which is written there; nothing else has
  -- one
  split
  case h_1 | h_2 | h_3 | h_4 | h_6 | h_7 =>
    exact written_of_noText (.of_gives (reads_tokenNode _)) (others_tokenNode noText rfl)
  case h_5 hkind =>
    exact written_stringToken hl hkind
  case h_8 hkind =>
    exact (written_regularExpression l).imp (fun _ hl' => hl' ▸ rest_of_slash hl hkind)
      fun _ _ h => h
  case h_9 =>
    exact .iteOf (fun hstarts => (written_regularExpression l).imp
      (fun _ hl' => hl' ▸ rest_of_slashAssign hstarts) fun _ _ h => h) fun _ => .unexpected
  case h_10 | h_11 =>
    exact written_template h _ l
  case h_12 =>
    exact written_of_noText (.of_gives (reads_arrayLiteral h)) (others_arrayLiteral noText)
  case h_13 =>
    exact written_of_noText (.of_gives (reads_object h)) (others_object noText)
  case h_14 =>
    exact written_of_noText (.of_gives (reads_functionExpression h))
      (.of_start fun _ => functions_functionExpression (noTextOf _))
  case h_15 =>
    exact written_of_noText (.of_gives (reads_classFrom h _ _)) (others_classFrom noText _ _)
  case h_16 =>
    exact written_of_noText (.of_gives reads_privateName) (others_privateName noText)
  case h_17 =>
    exact .still .read fun _ => written_parenOrArrow h _ l
  case h_18 =>
    exact .ite (written_of_noText (.of_gives (reads_nameOrArrow h))
      (.of_start fun _ => functions_nameOrArrow (noTextOf _))) .unexpected

/-! ### Members and calls -/

theorem backs_subscript? (noCall : Bool) (e : Node) : Backs (subscript? r noCall e) none := by
  unfold subscript?
  extract_lets isSuper last
  have hlast (u : Unit) : Backs (last u) none := by
    refine .still .kind fun k => ?_
    split
    · exact .of_yields yields_some
    · exact .of_yields yields_some
    · exact .ite (.pure _) (.of_yields (.bind fun _ => yields_some))
    · exact .of_yields (.bind fun _ => .bind fun _ => yields_some)
    · exact .of_yields (.bind fun _ => yields_some)
    · exact .of_yields (.bind fun _ => yields_some)
    · exact .pure _
  refine .still (.is _) fun _ => .still .lineBreak fun _ => .ite
    (.of_yields (.bind fun _ => yields_some)) <| .still (.isOneOf _) fun _ => .ite
      (.orElse (backs_attempt _) (fun _ => .pure (by simp)) (hlast ())) (hlast ())

theorem written_subscripts (h : r.Sound text) (noCall : Bool) (e : Node) (start : Lexer) :
    Triple text (Written start · e) (subscripts r noCall e) fun n l => Written start l n := by
  refine .loop (Q := fun e l => Written start l e) fun e => .bind ((triple_of_backs
    (.of_gives (gives_subscript? h _ _)) (backs_subscript? _ _)).and (others_subscript? noText _ _))
    fun o => ?_
  cases o with
  | some n => exact .pure fun _ _ ho => .of_none (ho.2 n rfl)
  | none =>
    have hlast : Triple text (Written start · e) (pure (e, false))
        fun y l => Written start l y.1 := .pure fun _ _ he => he
    exact (Triple.stepIf .unexpected hlast).imp (fun _ ho => ho.1 rfl) fun _ _ he => he

theorem written_superWord (h : r.Sound text) {P : Lexer → Prop} (noCall : Bool) (start : Lexer) :
    Triple text P (tokenNode .superWord >>= subscripts r noCall) fun n l => Written start l n :=
  written_of_noText (Gives.skip (.of_gives (reads_tokenNode _)) fun _ =>
    Moves.of_gives (gives_subscripts h _ _)) 
    (others_superWord noText _)

theorem written_construction (h : r.Sound text) : ReadsWritten text (construction r) := by
  refine fun start => .still .kind fun k => ?_
  split
  · exact written_of_noText (.of_gives (reads_construct h)) (others_construct noText)
  · exact written_superWord h _ start
  · exact written_of_noText (.of_gives (reads_importExpression h _))
      (others_importExpression noText _)
  · exact .bind (written_primary h start) fun e => .still (still_isWholeArrow _) fun _ =>
      .ite (written_pure e) (written_subscripts h _ _ start)

/-- Type arguments are read only in front of parentheses. -/
theorem triple_callTypeArguments? (h : r.Sound text) {P : Lexer → Prop} :
    Triple text P (callTypeArguments? r) fun _ l => P l ∨ l.kind = .parenOpen := by
  refine .bind (.attempt (Q := fun _ l => P l ∨ l.kind = .parenOpen) ?_ fun _ h => .inl h)
    fun _ => .pure fun _ _ h => h
  refine .still (.isOneOf _) fun _ => .ite (.forget (.of_gives (reads_typeArguments h)) fun _ =>
    .isOf fun isCall => .iteOf (fun hcall => .pure fun l _ hl _ _ => .inr ?_)
      fun _ => .pure fun _ _ _ => nofun) (.pure fun _ _ _ => nofun)
  rw [← hl.2] at hcall
  exact eq_of_beq hcall

theorem written_leftHandSide (h : r.Sound text) : ReadsWritten text (leftHandSide r) := by
  refine fun start => .still .read fun _ => .still (.is _) fun _ => .ite ?_ <|
    .still .kind fun k => ?_
  · exact written_of_noText
      (Gives.skip (.of_gives h.element) fun _ => .skip .bump fun n => .done) <|
        .bindOf h.form_element fun n hn => .bind fun _ => .pure (noText.of_form (hn ▸ rfl))
  · split
    · exact written_superWord h _ start
    · exact written_of_noText (.of_gives (reads_importExpression h _))
        (others_importExpression noText _)
    · refine .bind (h.written_construction start) fun e => .still (still_isWholeArrow _)
        fun _ => .ite (written_pure e) <| .ite (written_pure e) <|
          .bind (triple_callTypeArguments? h) fun _ => .isOf fun isCall => .iteOf (fun _ => ?_)
            fun hnoCall => .pure fun l _ hl => ?_
      · exact written_of_noText (Gives.skip (.of_gives (gives_arguments h)) fun _ =>
          .skip (.of_still (.node _ _ _)) fun _ => Moves.of_gives (gives_subscripts h _ _)) 
          (others_called noText _ _ _)
      · refine hl.1.resolve_right fun hkind => hnoCall ?_
        rw [← hl.2, hkind]
        rfl

/-! ### Operators -/

theorem written_unary (h : r.Sound text) : ReadsWritten text (unary r) := by
  refine fun start => .pos <| .still .read fun _ => .still (.is _) fun _ => .ite ?_ <|
    .still (.isOneOf _) fun _ => .ite
      (.forget .bump fun _ => .forget (.of_gives h.unary) fun _ => written_plainNode rfl start _ _)
    <| .still (.isOneOf _) fun _ => .ite (.forget .bump fun _ => ?_) <|
    .still (.is _) fun _ => .ite ?_ <| .bind (h.written_leftHandSide start) fun e =>
    .still (still_isWholeArrow _) fun _ => .still .lineBreak fun _ =>
    .ite (written_pure e) <| .still (.isOneOf _) fun _ => .ite
      (.forget .bump fun _ => written_plainNode rfl start _ _) (written_pure e)
  · refine .forget .bump fun _ => .forget (.is _) fun _ => ?_
    extract_lets rest
    have hrest (t : Node) : Triple text (fun _ => True) (rest t) fun n l => Written start l n :=
      .forget (.expect _) fun _ => .forget (.of_gives h.unary) fun _ =>
        written_plainNode rfl start _ _
    exact .ite (.forget (.of_gives (reads_tokenNode _)) hrest)
      (.forget (.of_gives (reads_freshType h)) hrest)
  · exact .forget (.of_gives (f := Option.toList) (.recover h.unary (.refl _))) fun _ =>
      written_plainNode rfl start _ _
  · exact written_of_noText (.of_gives (reads_awaitExpression h)) (others_awaitExpression noText)

theorem rereadGreater_here (l : Lexer) : l.rereadGreater.here = l.here := by
  unfold Lexer.rereadGreater
  split <;> rfl

theorem written_operator? (h : r.Sound text) (min : Nat) (left : Node) (start : Lexer) :
    Triple text (Written start · left) (operator? r min left)
      fun o l => o.elim (Written start l left) (Written start l) := by
  refine .still (.isOneOf _) fun _ => .still .lineBreak fun _ => .ite ?_ ?_
  · refine .forget (.is _) fun _ => .forget .bump fun _ => .forget (.is _) fun _ => ?_
    extract_lets rest
    have hrest (t : Node) : Triple text (fun _ => True) (rest t)
        fun o l => o.elim (Written start l left) (Written start l) :=
      .bind (written_plainNode rfl start _ _) fun _ => .pure fun _ _ ht => ht
    exact .ite (.forget (.of_gives (reads_tokenNode _)) hrest)
      (.forget (.of_gives (reads_freshType h)) hrest)
  · -- `>` is read again as the sign that it begins, at the same place
    have hgreater : Triple text (Written start · left) (modify Lexer.rereadGreater)
        fun _ l => Written start l left := fun _ l hl hleft =>
      ⟨hl.rereadGreater, Nat.le_of_eq l.rereadGreater_pos.symm,
        hleft.of_here (rereadGreater_here l) l.rereadGreater_pos⟩
    refine .still (.is _) fun _ => .stepIf hgreater <| .kindOf fun k => .still .read fun _ =>
      .ite (.pure fun _ _ ht => ht.1) <| .bind .bump fun _ => .stepIf .unexpected ?_
    have hright (sign : Lexer) (hsign : sign.On text) (hkind : sign.kind = k)
        (hleft : Written start sign left) (min : Nat) : Triple text (· = sign.next)
        (r.unary >>= fun e => r.operators e min >>= fun right =>
          pure (some (.mk (.binary (k == .plus)) left.lo right.hi [left, right])))
        fun o l => o.elim (Written start l left) (Written start l) := by
      refine .bind (h.written_unary sign.next) fun e => .bind (h.written_operators e _ sign.next)
        fun right => .pure fun _ _ hright => ?_
      -- only a sum has a text, which is written on both sides of its sign
      cases hplus : k == .plus with
      | true => exact hleft.sum hsign (hkind.trans (eq_of_beq hplus)) hright
      | false => exact .of_none rfl
    exact fun mode l hl ⟨sign, hsign, ⟨hleft, hkind⟩, heq⟩ =>
      hright sign hsign hkind hleft _ mode l hl heq

theorem written_operators (h : r.Sound text) (left : Node) (min : Nat) (start : Lexer) :
    Triple text (Written start · left) (operators r left min) fun n l => Written start l n := by
  refine .loop (Q := fun e l => Written start l e) fun left =>
    .bind (written_operator? h _ _ start) fun o => ?_
  cases o with
  | some n => exact .pure fun _ _ ht => ht
  | none => exact .pure fun _ _ ht => ht

theorem written_binary (h : r.Sound text) : ReadsWritten text (binary r) := fun start =>
  .bind (triple_operand (h.written_unary start) fun _ _ _ _ => .of_none rfl) fun left =>
    .still (still_isWholeArrow _) fun _ => .ite (written_pure left) (written_operators h _ _ start)

theorem written_conditional (h : r.Sound text) : ReadsWritten text (conditional r) := fun start =>
  .still .pos fun _ => .bind (written_binary h start) fun e => .still (still_isWholeArrow _)
    fun _ => .ite (written_pure e) <| .bind (triple_of_backs (.eat _) (backs_eat _)) fun b => by
      cases b with
      | true =>
        exact written_of_noText (.of_gives (gives_branches h _ _)) (others_branches noText _ _)
      | false => exact .pure fun _ _ hl => hl rfl

/-! ### Assignments -/

theorem written_finishAssignment (h : r.Sound text) (lo : Nat) (target : Node) (start : Lexer) :
    Triple text (Written start · target) (finishAssignment r lo target)
      fun n l => Written start l n := by
  refine .still (.is _) fun _ => .still (.is _) fun _ => .ite ?_ (written_pure target)
  extract_lets assignTo
  have hassign (target : Node) : Triple text (fun _ => True) (assignTo target)
      fun n l => Written start l n :=
    .skipUnless (.failAt _) (fun _ _ _ h => h) <| .forget .bump fun _ =>
      .forget (.of_gives h.assignment) fun _ => written_plainNode rfl start _ _
  exact .ite (.forget (.of_gives (shapes_asPattern _ _).gives) hassign)
    ((hassign target).imp (fun _ _ => ⟨⟩) fun _ _ ht => ht)

theorem written_plainAssignment (h : r.Sound text) : ReadsWritten text (plainAssignment r) := by
  refine fun start => .still .pos fun lo => .still .read fun _ => .still (.is _) fun _ => .ite ?_ <|
    .bind (written_conditional h start).adjust fun e => ?_
  · exact written_of_noText (.of_gives (reads_yieldExpression h)) (others_yieldExpression noText)
  · split
    case h_6 =>
      exact written_finishAssignment h _ _ start
    all_goals exact written_pure e

theorem written_assignment (h : r.Sound text) : ReadsWritten text (assignment r) := by
  refine fun start => .still (.is _) fun _ => ?_
  extract_lets last rest
  have hlast (u : Unit) : Triple text (· = start) (last u) fun n l => Written start l n :=
    written_plainAssignment h start
  have hrest (u : Unit) : Triple text (· = start) (rest u) fun n l => Written start l n := by
    -- an arrow function has no text, and when none is read the place is the same as before
    have hnone : Yields (genericArrow r) fun o => ∀ n ∈ o, foldText n = none :=
      .of_start fun _ => functions_genericArrow (noTextOf _)
    refine .still .peek fun _ => .ite (.bind ((triple_of_backs (.of_gives (gives_genericArrow h))
      (backs_attempt _)).and hnone) fun o => ?_) (hlast ())
    cases o with
    | some n => exact .pure fun _ _ ho => .of_none (ho.2 n rfl)
    | none => exact (hlast ()).imp (fun _ ho => ho.1 rfl) fun _ _ ht => ht
  refine .ite (.still .read fun _ => .ite (.bind (.attempt
    (Q := fun o l => o.elim (l = start) (Written start l)) ?_ fun _ hstart => hstart)
    fun o => ?_) (hrest ())) (hlast ())
  · refine .bind (written_plainAssignment h start) fun n => .pure fun _ _ ht m hm => ?_
    cases hm
    exact ht
  · cases o with
    | some n => exact .pure fun _ _ ht => ht
    | none => exact hrest ()

theorem written_expression (h : r.Sound text) : ReadsWritten text (expression r) := by
  refine fun start => .bind (written_assignment h start) fun e => .still (.is _) fun _ => .ite ?_
    (written_pure e)
  refine .forget (.loop (fun _ => []) (.refl _) fun _ => .skip (.eat _) fun _ => .ite ?_ .done)
    fun _ => written_plainNode rfl start _ _
  exact .skip (.of_gives (reads_assignment h)) fun _ => .done

end Phrasebook.Script.Grammar
