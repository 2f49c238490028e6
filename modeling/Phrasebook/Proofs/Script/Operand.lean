import Phrasebook.Proofs.Script.Triple
import Phrasebook.Script.Grammar

/-!
# From an assignment to a primary expression

An expression without operators, calls and members is a primary expression that the rules above it
pass on as it is, one after the other, when a sign stands behind it that ends it. The run lemmas
say so for each of these rules, from the inside out.
-/

namespace Phrasebook.Script

open Grammar

/-! ### Kinds and forms -/

/-- Tokens that may stand behind an expression and do not belong to it. -/
def Kind.endsOperand : Kind → Bool
  | .parenClose | .braceClose | .comma | .semicolon | .plus => true
  | _ => false

theorem Kind.endsOperand_cases {k : Kind} (h : k.endsOperand = true) :
    k = parenClose ∨ k = braceClose ∨ k = comma ∨ k = semicolon ∨ k = plus := by
  unfold endsOperand at h
  split at h <;> simp_all

/-- Tokens with which a primary expression begins and no expression of another kind. -/
def Kind.beginsOperand (k : Kind) : Bool :=
  (k.isReference && k != .kwAwait) || [string, templateWhole, parenOpen, braceOpen].contains k

/-- Forms of expressions that the rules pass on as they are. -/
def Form.isPassedOn : Form → Bool
  | .arrow _ | .superWord | .new _ | .spread => false
  | _ => true

theorem ne_of_apply {α : Type} {p : α → Bool} {a b : α} (ha : p a = true) (hb : p b = false) :
    a ≠ b := by
  rintro rfl
  rw [ha] at hb
  cases hb

theorem contains_eq_false {α : Type} [BEq α] [LawfulBEq α] {p : α → Bool} {a : α} {as : List α}
    (ha : p a = true) (has : as.all (!p ·) = true) : as.contains a = false := by
  rw [Bool.eq_false_iff, ne_eq, List.contains_iff_mem]
  intro hmem
  have := List.all_eq_true.mp has a hmem
  rw [ha] at this
  cases this

section

variable {r : Rules} {mode : Mode} {l l' : Lexer} {e : Node}

/-! ### Members and calls -/

theorem isWholeArrow_run (he : e.form.isPassedOn = true) :
    isWholeArrow e mode l = .ok false l := by
  obtain ⟨form, lo, hi, parts⟩ := e
  cases form with
  | arrow => cases he
  | _ => rfl

theorem subscript?_run (hl : l.kind.endsOperand = true) (noCall : Bool) :
    subscript? r noCall e mode l = .ok none l := by
  rcases Kind.endsOperand_cases hl with hk | hk | hk | hk | hk <;>
    simp [subscript?, bind_run, atLess, hk]

theorem subscripts_run (hl : l.kind.endsOperand = true) (he : e.form.isPassedOn = true)
    (noCall : Bool) : subscripts r noCall e mode l = .ok e l := by
  have hsuper : e.form ≠ .superWord := ne_of_apply he rfl
  simp [subscripts, Parser.loop, Lexer.remaining, Lexer.bound, Parser.iterate, bind_run,
    subscript?_run hl, hsuper]

theorem callTypeArguments?_run (hl : l.kind.endsOperand = true) :
    callTypeArguments? r mode l = .ok [] l := by
  rcases Kind.endsOperand_cases hl with hk | hk | hk | hk | hk <;>
    simp [callTypeArguments?, Parser.attempt, bind_run, atLess, hk]

theorem construction_run (hl : l.kind.beginsOperand = true) (hl' : l'.kind.endsOperand = true)
    (he : e.form.isPassedOn = true) (hrun : primary r mode l = .ok e l') :
    construction r mode l = .ok e l' := by
  simp only [construction, bind_run, kind_run]
  generalize l.kind = k at hl ⊢
  split
  · exact absurd hl (by decide)
  · exact absurd hl (by decide)
  · exact absurd hl (by decide)
  · simp [bind_run, hrun, isWholeArrow_run he, subscripts_run hl' he]

theorem leftHandSide_run (hl : l.kind.beginsOperand = true) (hl' : l'.kind.endsOperand = true)
    (he : e.form.isPassedOn = true) (hrun : r.construction mode l = .ok e l') :
    leftHandSide r mode l = .ok e l' := by
  have hless : (l.kind == .less) = false := beq_false_of_ne (ne_of_apply hl rfl)
  have hnew : e.form ≠ .new false := ne_of_apply he rfl
  have hcall : l'.kind ≠ .parenOpen := ne_of_apply hl' rfl
  simp only [leftHandSide, bind_run, read_run, is_run, hless, Bool.and_false, Bool.false_eq_true,
    if_false, kind_run]
  generalize l.kind = k at hl ⊢
  split
  · exact absurd hl (by decide)
  · exact absurd hl (by decide)
  · simp [bind_run, hrun, isWholeArrow_run he, hnew, hcall, callTypeArguments?_run hl']

/-! ### Operators -/

theorem unary_run (hl : l.kind.beginsOperand = true) (hl' : l'.kind.endsOperand = true)
    (he : e.form.isPassedOn = true) (hrun : r.leftHandSide mode l = .ok e l') :
    unary r mode l = .ok e l' := by
  have hless : (l.kind == .less) = false := beq_false_of_ne (ne_of_apply hl rfl)
  have hawait : (l.kind == .kwAwait) = false := beq_false_of_ne (ne_of_apply hl rfl)
  have hupdate : [Kind.increment, .decrement].contains l.kind = false :=
    contains_eq_false hl (by decide)
  have hunary : unaryKinds.contains l.kind = false := contains_eq_false hl (by decide)
  have hupdate' : [Kind.increment, .decrement].contains l'.kind = false :=
    contains_eq_false hl' (by decide)
  simp only [unary, bind_run, pos_run, read_run, is_run, isOneOf_run, hless, hupdate, hunary,
    hawait, Bool.and_false, Bool.false_eq_true, if_false, hrun, isWholeArrow_run he, Bool.false_or,
    lineBreak_run]
  split
  · rfl
  · simp only [bind_run, isOneOf_run, hupdate', Bool.false_eq_true, if_false, pure_run]

theorem operator?_run (hl : l.kind.endsOperand = true) {min : Nat}
    (hmin : l.kind.precedence ≤ min) : operator? r min e mode l = .ok none l := by
  rcases Kind.endsOperand_cases hl with hk | hk | hk | hk | hk <;> rw [hk] at hmin <;>
    simp [operator?, bind_run, hk, hmin]

theorem operators_run (hl : l.kind.endsOperand = true) {min : Nat}
    (hmin : l.kind.precedence ≤ min) : operators r e min mode l = .ok e l := by
  simp [operators, Parser.loop, Lexer.remaining, Lexer.bound, Parser.iterate, bind_run,
    operator?_run hl hmin]

theorem conditional_run (hl' : l'.kind.endsOperand = true) (he : e.form.isPassedOn = true)
    (hrun : binary r mode l = .ok e l') : conditional r mode l = .ok e l' := by
  have hquestion : l'.kind ≠ .question := ne_of_apply hl' rfl
  simp [conditional, bind_run, eat_run, hquestion, hrun, isWholeArrow_run he]

/-! ### Assignments -/

theorem finishAssignment_run (hl : l.kind.endsOperand = true) (lo : Nat) :
    finishAssignment r lo e mode l = .ok e l := by
  rcases Kind.endsOperand_cases hl with hk | hk | hk | hk | hk <;>
    simp [finishAssignment, bind_run, hk]

theorem plainAssignment_run (hl : l.kind.beginsOperand = true) (hl' : l'.kind.endsOperand = true)
    (hrun : conditional r { mode with arrowAt := some l.pos } l = .ok e l') :
    plainAssignment r mode l = .ok e l' := by
  have hyield : (l.kind == .kwYield) = false := beq_false_of_ne (ne_of_apply hl rfl)
  simp only [plainAssignment, bind_run, pos_run, read_run, is_run, hyield, Bool.and_false,
    Bool.false_eq_true, if_false, adjust_run, hrun]
  obtain ⟨form, lo, hi, parts⟩ := e
  cases form with
  | arrow | conditional | binary | unary | update => rfl
  | _ => exact finishAssignment_run hl' _

theorem assignment_run (hl : l.kind.beginsOperand = true)
    (hrun : plainAssignment r mode l = .ok e l') : assignment r mode l = .ok e l' := by
  have hless : l.kind ≠ .less := ne_of_apply hl rfl
  simp [assignment, bind_run, hless, hrun]

theorem argument_run (hl : l.kind.beginsOperand = true)
    (hrun : r.fullAssignment mode l = .ok e l') : argument r mode l = .ok e l' := by
  have hspread : l.kind ≠ .ellipsis := ne_of_apply hl rfl
  simp [argument, bind_run, eat_run, hspread, hrun]

/-! ### Parentheses -/

theorem skipModifier_run (hl : [Kind.kwPublic, .kwProtected, .kwPrivate, .kwReadonly].contains
    l.kind = false) : Parser.skipModifier mode l = .ok () l := by
  simp only [Parser.skipModifier, bind_run, isOneOf_run, hl, Bool.false_eq_true, if_false, pure_run]

/-- An item in parentheses that cannot be a parameter. -/
theorem item_run (hl : l.kind.beginsOperand = true) (hname : l.kind.isReference = false)
    (hl' : l'.kind.endsOperand = true) (hrun : argument r mode l = .ok e l') :
    item r mode l = .ok ⟨false, e⟩ l' := by
  have hmodifier : [Kind.kwPublic, .kwProtected, .kwPrivate, .kwReadonly].contains l.kind = false :=
    contains_eq_false (p := (!Kind.isReference ·)) (by rw [hname]; rfl) (by decide)
  have hquestion : l'.kind ≠ .question := ne_of_apply hl' rfl
  have hcolon : l'.kind ≠ .colon := ne_of_apply hl' rfl
  have hellipsis : l.kind ≠ .ellipsis := ne_of_apply hl rfl
  simp [item, bind_run, skipModifier_run hmodifier, hname, hellipsis, hrun, hquestion, hcolon]

/-- An item in parentheses, behind which may stand a comma. -/
theorem items_run {i : Item} {last : Lexer} (hopen : l.kind = .parenOpen)
    (hfirst : l.next.kind.beginsOperand = true) (hremaining : 1 < l.next.remaining)
    (hrun : item r { mode with allowIn := true, beforeColon := false } l.next = .ok i last)
    (hlast : last.kind = .parenClose ∧ l' = last.next ∨
      last.kind = .comma ∧ last.next.kind = .parenClose ∧ l' = last.next.next) :
    items r mode l = .ok [i] l' := by
  have hclose : l.next.kind ≠ .parenClose := ne_of_apply hfirst rfl
  obtain ⟨n, hn⟩ : ∃ n, l.next.remaining = n + 2 := ⟨_, (Nat.sub_add_cancel hremaining).symm⟩
  rcases hlast with ⟨hk, rfl⟩ | ⟨hk, hk', rfl⟩
  · simp [items, bind_run, map_run, expect_run, hopen, loop_run, hn, Parser.iterate, hclose, hrun,
      hk]
  · simp [items, bind_run, map_run, expect_run, hopen, loop_run, hn, Parser.iterate, hclose, hrun,
      hk, hk']

theorem parenOrArrow_run (hl' : l'.kind.endsOperand = true) (he : e.form.isPassedOn = true)
    (hrun : items r mode l = .ok [⟨false, e⟩] l') (canBeArrow : Bool) :
    parenOrArrow r canBeArrow none mode l = .ok (.mk .paren l.pos l'.previousEnd [e]) l' := by
  have hcolon : l'.kind ≠ .colon := ne_of_apply hl' rfl
  have harrow : l'.kind ≠ .arrow := ne_of_apply hl' rfl
  have hexpressions : itemsAsExpressions [⟨false, e⟩] mode l' = .ok [e] l' := by
    obtain ⟨form, lo, hi, parts⟩ := e
    cases form with
    | spread => cases he
    | _ => rfl
  simp [parenOrArrow, bind_run, hrun, arrowInBranch?, arrowResult?, hcolon, harrow, hexpressions]

end

/-! ### All rules at once -/

section

variable {m : Nat} {mode : Mode} {l l' : Lexer} {e : Node}

theorem unary_of_primary (hl : l.kind.beginsOperand = true) (hl' : l'.kind.endsOperand = true)
    (he : e.form.isPassedOn = true) (hrun : primary (rules m) mode l = .ok e l') :
    (rules (m + 3)).unary mode l = .ok e l' :=
  unary_run hl hl' he (leftHandSide_run hl hl' he (construction_run hl hl' he hrun))

/-- An operand stands for an assignment in front of a sign that is no operator. -/
theorem assignment_of_unary {r : Rules} (hl : l.kind.beginsOperand = true)
    (hl' : l'.kind.endsOperand = true) (hprecedence : l'.kind.precedence = 0)
    (he : e.form.isPassedOn = true)
    (hrun : r.unary { mode with arrowAt := some l.pos } l = .ok e l') :
    assignment r mode l = .ok e l' := by
  have hoperand : operand r { mode with arrowAt := some l.pos } l = .ok e l' := by
    unfold operand
    rw [hrun]
  have hbinary : binary r { mode with arrowAt := some l.pos } l = .ok e l' := by
    simp [binary, bind_run, hoperand, isWholeArrow_run he,
      operators_run hl' (Nat.le_of_eq hprecedence)]
  exact assignment_run hl (plainAssignment_run hl hl' (conditional_run hl' he hbinary))

theorem assignment_of_primary (hl : l.kind.beginsOperand = true) (hl' : l'.kind.endsOperand = true)
    (hprecedence : l'.kind.precedence = 0) (he : e.form.isPassedOn = true)
    (hrun : primary (rules m) { mode with arrowAt := some l.pos } l = .ok e l') :
    assignment (rules (m + 3)) mode l = .ok e l' :=
  assignment_of_unary hl hl' hprecedence he (unary_of_primary hl hl' he hrun)

/-- Parentheses around what cannot be a parameter, behind which may stand a comma. -/
theorem primary_run_paren {last : Lexer} (hopen : l.kind = .parenOpen)
    (hfirst : l.next.kind.beginsOperand = true) (hname : l.next.kind.isReference = false)
    (hremaining : 1 < l.next.remaining)
    (hlast : last.kind = .parenClose ∧ l' = last.next ∨
      last.kind = .comma ∧ last.next.kind = .parenClose ∧ l' = last.next.next)
    (hl' : l'.kind.endsOperand = true) (he : e.form.isPassedOn = true)
    (hrun : assignment (rules m) { mode with allowIn := true, beforeColon := false } l.next =
      .ok e last) :
    primary (rules (m + 1)) mode l = .ok (.mk .paren l.pos l'.previousEnd [e]) l' := by
  have hends : last.kind.endsOperand = true := by
    rcases hlast with ⟨hk, -⟩ | ⟨hk, -⟩ <;> rw [hk] <;> rfl
  have hitem : item (rules (m + 1)) { mode with allowIn := true, beforeColon := false } l.next =
      .ok ⟨false, e⟩ last :=
    item_run hfirst hname hends (argument_run hfirst hrun)
  have hparen := parenOrArrow_run hl' he (items_run hopen hfirst hremaining hitem hlast)
    (mode.arrowAt == some l.pos)
  simp only [primary, bind_run, get_run, read_run, hopen]
  exact hparen

end

end Phrasebook.Script
