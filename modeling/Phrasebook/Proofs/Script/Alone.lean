import Phrasebook.Proofs.Script.Complete
import Phrasebook.Script.Module

/-!
# Expressions parsed on their own

What writes an expression with a known text is parsed as such between parentheses, whatever stood
around it before (`foldAlone_of_spelling`).
-/

namespace Phrasebook.Script

open Grammar (expressionStatement statement moduleItem mayHaveText)
open Text (byteLength length_le_byteLength)

section

variable {r : Rules} {mode : Mode} {l l' : Lexer} {e : Node}

theorem expression_run (hl' : l'.kind = .semicolon)
    (hrun : Grammar.assignment r mode l = .ok e l') : Grammar.expression r mode l = .ok e l' := by
  simp [Grammar.expression, bind_run, hrun, hl']

theorem eatStatementEnd_run (hl : l.kind = .semicolon) :
    Parser.eatStatementEnd mode l = .ok true l.next := by
  simp [Parser.eatStatementEnd, bind_run, eat_run, hl]

/-- An expression that is no name makes a statement with the semicolon behind it. -/
theorem expressionStatement_run (hl' : l'.kind = .semicolon) (he : ∀ x, e.form ≠ .name x)
    (hrun : r.fullExpression mode l = .ok e l') : expressionStatement r mode l =
      .ok (.mk .expressionStatement l.pos l'.next.previousEnd [e]) l'.next := by
  have hend : Parser.eatStatementEnd mode l' = .ok true l'.next := eatStatementEnd_run hl'
  simp only [expressionStatement, bind_run, pos_run, hrun]
  obtain ⟨form, lo, hi, parts⟩ := e
  cases form with
  | name x => exact absurd rfl (he x)
  | _ => simp only [hend, if_true, node_run]

theorem ne_name_of_mayHaveText {form : Form} (h : mayHaveText form = true) (x : String) :
    form ≠ .name x :=
  ne_of_apply h rfl

theorem moduleItem_run (hl : l.kind = .parenOpen) :
    moduleItem r mode l = r.statement true mode l := by
  simp [moduleItem, bind_run, hl]

theorem statement_run (hl : l.kind = .parenOpen) (isDeclaration : Bool) :
    statement r isDeclaration mode l = expressionStatement r mode l := by
  simp only [statement, bind_run, get_run, hl]

theorem items_run_one {depth : Nat} (hl : l.kind ≠ .eof) (hl' : l'.kind = .eof)
    (hremaining : 1 < l.remaining) (hrun : moduleItem (rules depth) mode l = .ok e l') :
    items depth mode l = .ok [e] l' := by
  obtain ⟨n, hn⟩ : ∃ n, l.remaining = n + 2 := ⟨_, (Nat.sub_add_cancel hremaining).symm⟩
  simp [items, Parser.many, bind_run, map_run, loop_run, hn, Parser.iterate, hl, hl', hrun]

end

/-- At a token with which a text begins the lexer stands from the start. -/
theorem start_stands {x : Char} {rest : List Char} (hgap : beginsGap x = false) (hx : x ≠ '#') :
    (Lexer.start (x :: rest)).Stands (x :: rest) := by
  have hfirst : Cursor.startsWith ⟨x :: rest, 0⟩ "#!" = false := by
    have hne : ('#' == x) = false := beq_false_of_ne (Ne.symm hx)
    simp [Cursor.startsWith, List.isPrefixOf, hne]
  have hrun (n : Nat) : Gap.run none n { after := ⟨x :: rest, 0⟩, lineBreak := true } =
      { after := ⟨x :: rest, 0⟩, lineBreak := true } := Gap.run_of_beginsGap rfl hgap
  have hstart : (Lexer.start (x :: rest)).here = ⟨x :: rest, 0⟩ ∧
      scanToken (Lexer.bound (byteLength (x :: rest)) ⟨x :: rest, 0⟩) ⟨x :: rest, 0⟩ =
        ⟨(Lexer.start (x :: rest)).token, (Lexer.start (x :: rest)).after⟩ := by
    simp [Lexer.start, hfirst, hrun]
  refine ⟨by rw [hstart.1], ⟨_, ?_, by rw [hstart.1]; exact hstart.2⟩, ?_⟩
  · have := length_le_byteLength (x :: rest)
    unfold Lexer.bound
    dsimp only
    omega
  · rw [hstart.1, Nat.zero_add]
    rfl

/-- What is parsed of a text without a byte order mark. -/
theorem parse_eq_items (jsx : Bool) {text : List Char} (h : skipByteOrderMark text = text) :
    parse jsx text =
      match items (depthFor (Lexer.start text).size) { jsx } (Lexer.start text) with
      | .ok ns l => .ok ⟨text, ns, l.comments⟩
      | .error failure _ => .error failure := by
  have hparse : parse jsx text =
      match items (depthFor (Lexer.start (skipByteOrderMark text)).size) { jsx }
        (Lexer.start (skipByteOrderMark text)) with
      | .ok ns l => .ok ⟨skipByteOrderMark text, ns, l.comments⟩
      | .error failure _ => .error failure := rfl
  rw [hparse, h]

/-- What begins with a parenthesis and is read as an assignment in front of a semicolon, with which
the text ends, is parsed as the only statement. -/
theorem exists_parse_eq (jsx : Bool) {cs : List Char} {l' : Lexer} {e : Node} {d : Nat}
    (hdepth : depthFor (Lexer.start ('(' :: cs)).size = d + 2) (he : mayHaveText e.form = true)
    (hrun : Grammar.assignment (rules d) { jsx } (Lexer.start ('(' :: cs)) = .ok e l')
    (hl' : l'.Stands [';']) : ∃ lo hi comments, parse jsx ('(' :: cs) =
      .ok ⟨'(' :: cs, [.mk .expressionStatement lo hi [e]], comments⟩ := by
  obtain ⟨l, hl⟩ : ∃ l, Lexer.start ('(' :: cs) = l := ⟨_, rfl⟩
  have hstart : l.Stands ('(' :: cs) := by
    rw [← hl]
    exact start_stands (by decide) (by decide)
  rw [hl] at hdepth hrun
  have hopen := hstart.paren.1
  obtain ⟨hkind, hafter⟩ := hl'.sign .semicolon (by decide) (by simp)
  have hexpression : (rules (d + 1)).fullExpression { jsx } l = .ok e l' :=
    expression_run hkind hrun
  have hitem : moduleItem (rules (d + 2)) { jsx } l =
      .ok (.mk .expressionStatement l.pos l'.next.previousEnd [e]) l'.next := by
    rw [moduleItem_run hopen]
    exact (statement_run hopen true).trans
      (expressionStatement_run hkind (ne_name_of_mayHaveText he) hexpression)
  have hitems : items (depthFor l.size) { jsx } l =
      .ok [.mk .expressionStatement l.pos l'.next.previousEnd [e]] l'.next := by
    rw [hdepth]
    refine items_run_one (by rw [hopen]; decide) (Lexer.kind_next_of_nil (by rw [hafter])) ?_ hitem
    -- the text and the end of the statement are tokens enough for one item
    have := hstart.length_lt_remaining
    rw [List.length_cons] at this
    omega
  rw [parse_eq_items jsx rfl, hl, hitems]
  exact ⟨_, _, _, rfl⟩

/-- The text of an expression that stands alone between parentheses. -/
def foldAlone (jsx : Bool) (cs : List Char) : Option String :=
  match parse jsx ('(' :: (cs ++ [')', ';'])) with
  | .ok ⟨_, [.mk .expressionStatement _ _ [e]], _⟩ => foldText e
  | _ => none

theorem foldAlone_of_spelling (jsx : Bool) {cs : List Char} {text : String}
    (h : Spelling true none ('(' :: (cs ++ [')'])) text) : foldAlone jsx cs = some text := by
  obtain ⟨l, hl⟩ : ∃ l, Lexer.start ('(' :: (cs ++ [')', ';'])) = l := ⟨_, rfl⟩
  have hstart : l.Stands ('(' :: (cs ++ [')', ';'])) := by
    rw [← hl]
    exact start_stands (by decide) (by decide)
  have hends : BeginsEnd [';'] := ⟨.semicolon, by decide, by simp⟩
  -- the depth that is given to a text is enough for all parentheses in it
  obtain ⟨d, hd, hdepth⟩ :
      ∃ d, depthFor l.size = d + 2 ∧ 4 * ('(' :: (cs ++ [')'])).length ≤ d := by
    have hplace := hstart.size
    have hlength := length_le_byteLength ('(' :: (cs ++ [')', ';']))
    refine ⟨64 * (l.size + 2) - 2, by unfold depthFor; omega, ?_⟩
    simp only [List.length_cons, List.length_append, List.length_nil] at hlength ⊢
    omega
  obtain ⟨hbegins, l', hreads, hl', hsize⟩ :=
    h.isRead d [] [';'] { jsx, arrowAt := some l.pos } l hdepth .nil (by simp) hends
      (by simpa using hstart)
  obtain ⟨hkind, -⟩ := hl'.sign .semicolon (by decide) (by simp)
  have hends' := hl'.kind_of_beginsEnd hends
  have hplace := hl'.size
  obtain ⟨e, hrun, he⟩ := hreads.binary_run hends' (by rw [hkind]; rfl) (by omega)
  have hform := mayHaveText_of_textOf he
  have hoperand := (Kind.beginsOperand_of_beginsText hbegins).1
  have hassignment : Grammar.assignment (rules d) { jsx } l = .ok e l' :=
    assignment_run hoperand <| plainAssignment_run hoperand hends' <|
      conditional_run hends' (isPassedOn_of_mayHaveText hform) hrun
  subst hl
  obtain ⟨lo, hi, comments, hparse⟩ := exists_parse_eq jsx hd hform hassignment hl'
  unfold foldAlone
  rw [hparse]
  exact he

end Phrasebook.Script
