import Phrasebook.Proofs.Script.Grammar.Expression

/-!
# What the rules give besides texts and functions

Most rules give a node that is neither an expression with a known text nor a function that runs at
once, and functions begin where their rule begins. So what holds of all other nodes, and of those
that begin there, holds of what these rules give (`OfOthers`, `OfFunctions`).
-/

namespace Phrasebook.Script.Grammar

/-- The forms that an expression with a known text can have. -/
def mayHaveText : Form → Bool
  | .string _ | .template (some _) | .paren | .binary _ => true
  | _ => false

/-- The forms of neither such an expression nor a function that runs at once. -/
def isOther (form : Form) : Bool := !mayHaveText form && !form.runsAtOnce

/-- `P` holds of all nodes of such forms. -/
structure OfOthers (P : Node → Prop) : Prop where
  other {form : Form} (h : isOther form = true) (lo hi : Nat) (parts : List Node) :
    P (.mk form lo hi parts)

/-- `P` also holds of the functions that begin at `lo`. -/
structure OfFunctions (lo : Nat) (P : Node → Prop) : Prop extends OfOthers P where
  function {form : Form} (h : mayHaveText form = false) (hi : Nat) (parts : List Node) :
    P (.mk form lo hi parts)

theorem OfOthers.of_form {P : Node → Prop} (hP : OfOthers P) {n : Node}
    (h : isOther n.form = true) : P n := by
  obtain ⟨form, lo, hi, parts⟩ := n
  exact hP.other h lo hi parts

theorem OfFunctions.of_form_lo {lo : Nat} {P : Node → Prop} (hP : OfFunctions lo P) {n : Node}
    (h : mayHaveText n.form = false) (hlo : n.lo = lo) : P n := by
  obtain ⟨form, _, hi, parts⟩ := n
  obtain rfl := hlo
  exact hP.function h hi parts

section Others

variable {r : Rules} {P : Node → Prop} (hP : OfOthers P)
include hP

theorem others_node {form : Form} (h : isOther form = true) (lo : Nat) (parts : List Node) :
    Yields (Parser.node form lo parts) P :=
  .node fun hi => hP.other h lo hi parts

theorem others_tokenNode {form : Form} (h : isOther form = true) : Yields (tokenNode form) P :=
  .bind fun _ => .bind fun _ => others_node hP h _ _

theorem others_wordNode : Yields Parser.wordNode P :=
  .bind fun _ => .bind fun _ => others_node hP rfl _ _

theorem others_privateName : Yields privateName P :=
  .bind fun _ => .bind fun _ => .bind fun _ => .skipIf <| .bind fun _ => others_node hP rfl _ _

theorem others_regularExpression : Yields regularExpression P :=
  .bind fun _ => .bind fun _ => .skipUnless (others_tokenNode hP rfl)

theorem others_arrayLiteral : Yields (arrayLiteral r) P :=
  .bind fun _ => .bind fun _ => .bind fun _ => .bind fun _ => others_node hP rfl _ _

theorem others_object : Yields (object r) P :=
  .bind fun _ => .bind fun _ => .bind fun _ => .bind fun _ => others_node hP rfl _ _

theorem others_classFrom (lo : Nat) (needsName : Bool) : Yields (classFrom r lo needsName) P :=
  .bind fun _ => .bind fun _ => .bind fun _ => .bind fun _ => .bind fun _ => .bind fun _ =>
    .bind fun _ => others_node hP rfl _ _

theorem others_branches (lo : Nat) (test : Node) : Yields (branches r lo test) P :=
  .bind fun _ => .bind fun _ => .bind fun _ => others_node hP rfl _ _

/-! ### Members and calls -/

theorem others_subscript? (noCall : Bool) (e : Node) :
    Yields (subscript? r noCall e) fun o => ∀ n ∈ o, P n := by
  unfold subscript?
  extract_lets isSuper last
  have hbrackets {form : Form} (hform : isOther form = true) :
      Yields (subscriptInBrackets r e form) P :=
    .bind fun _ => .bind fun _ => .bind fun _ => others_node hP hform _ _
  have hlink : Yields (optionalLink r e) P :=
    .bind fun _ => .bind fun _ => .ite (hbrackets rfl) <| .bind fun _ => .bind fun _ => .ite
      (.bind fun _ => others_node hP rfl _ _) <| .bind fun _ => .ite
        (.bind fun _ => others_node hP rfl _ _) (.bind fun _ => others_node hP rfl _ _)
  have harguments : Yields (withTypeArguments r e noCall) fun o => ∀ n ∈ o, P n := by
    refine .attempt (.bind fun _ => .bind fun _ => .ite ?_ ?_) fun _ hn => by cases hn
    · exact .bind fun _ => .bindSome (others_node hP rfl _ _)
    · exact .bind fun _ => .ite (.bind fun _ => .bindSome (others_node hP rfl _ _)) <|
        .bind fun _ => .ite (.bindSome (others_node hP rfl _ _)) .none
  have hlast (u : Unit) : Yields (last u) fun o => ∀ n ∈ o, P n := by
    refine .bind fun k => ?_
    split
    · exact .bindSome hlink
    · exact .bindSome (hbrackets rfl)
    · exact .ite .none (.bind fun _ => .bindSome (others_node hP rfl _ _))
    · exact .bind fun _ => .bind fun _ => .bindSome (others_node hP rfl _ _)
    · exact .bind fun _ => .bindSome (others_node hP rfl _ _)
    · exact .bind fun _ => .bindSome (others_node hP rfl _ _)
    · exact .none
  refine .bind fun _ => .bind fun _ => .ite (.bind fun _ => .bindSome (others_node hP rfl _ _)) <|
    .bind fun _ => .ite (.bindOf harguments fun o ho => ?_) (hlast ())
  cases o with
  | some n => exact .pure ho
  | none => exact hlast ()

theorem others_subscripts (noCall : Bool) {e : Node} (he : P e) :
    Yields (subscripts r noCall e) P := by
  refine .loop (fun e he => .bindOf (others_subscript? hP _ _) fun o ho => ?_) he
  cases o with
  | some n => exact .pure (ho n rfl)
  | none => exact .skipIf (.pure he)

theorem others_superWord (noCall : Bool) :
    Yields (tokenNode .superWord >>= subscripts r noCall) P :=
  .bindOf (others_tokenNode hP rfl) fun _ hn => others_subscripts hP _ hn

theorem others_importExpression (noCall : Bool) : Yields (importExpression r noCall) P := by
  refine .bind fun _ => .bind fun _ => .bind fun _ => .ite ?_ ?_
  · exact .bind fun _ => .skipUnless <| .bind fun _ => .bindOf (others_node hP rfl _ _) fun n hn =>
      others_subscripts hP _ hn
  · exact .bind fun _ => .bindOf (others_node hP rfl _ _) fun n hn => others_subscripts hP _ hn

theorem others_construct : Yields (construct r) P := by
  refine .bind fun _ => .bind fun _ => .bind fun _ => .ite ?_ ?_
  · exact .bind fun _ => .skipUnless <| .bind fun _ => .bindOf (others_node hP rfl _ _) fun n hn =>
      others_subscripts hP _ hn
  · exact .bind fun _ => .skipIf <| .bind fun _ => .bind fun _ => .ite
      (.bind fun _ => .bindOf (others_node hP rfl _ _) fun n hn => others_subscripts hP _ hn)
      (others_node hP rfl _ _)

/-- A call behind the expression that is called. -/
theorem others_called (lo : Nat) (parts : List Node → List Node) (noCall : Bool) :
    Yields (arguments r >>= fun es => Parser.node .call lo (parts es) >>= subscripts r noCall) P :=
  .bind fun _ => .bindOf (others_node hP rfl _ _) fun _ hn => others_subscripts hP _ hn

/-! ### Operators and assignments -/

theorem others_awaitExpression : Yields (awaitExpression r) P :=
  .bind fun _ => .bind fun _ => .bind fun _ => .skipIf <| .bind fun _ => .bind fun _ =>
    .bind fun _ => .ite (others_node hP rfl _ _) (.bind fun _ => others_node hP rfl _ _)

theorem others_yieldExpression : Yields (yieldExpression r) P :=
  .bind fun _ => .bind fun _ => .bind fun _ => .bind fun _ => .bind fun _ =>
    .ite (others_node hP rfl _ _) <| .bind fun _ => .bind fun _ => others_node hP rfl _ _

end Others

/-! ### Functions -/

section Functions

variable {r : Rules} {P : Node → Prop} {lo : Nat} (hP : OfFunctions lo P)
include hP

theorem functions_arrowFrom (flow : Flow) (ps : Node) (types : List Node) :
    Yields (arrowFrom r lo flow ps types) P :=
  .bind fun _ => .node fun hi => hP.function rfl hi _

theorem functions_bareArrow (flow : Flow) (param : Node) : Yields (bareArrow r lo flow param) P :=
  .bind fun _ => functions_arrowFrom hP _ _ _

theorem functions_arrowInBranch? (flow : Flow) (list : List Item) :
    Yields (arrowInBranch? r lo flow list) fun o => ∀ n ∈ o, P n := by
  refine .bind fun _ => .bind fun _ => .ite (.attempt ?_ fun _ hn => by cases hn) .none
  exact .bind fun _ => .bind fun _ => .bind fun _ => .bindOf (functions_arrowFrom hP _ _ _)
    fun n hn => .bind fun _ => .bind fun _ => .ite .none (.bindSome (.pure hn))

/-- What begins with the word `async` is never in parentheses. -/
theorem functions_asyncArrow (canBeArrow : Bool) :
    Yields (parenOrArrow r canBeArrow (some lo)) P := by
  refine .bind fun _ => .bind fun list => .bind fun _ =>
    .orElse (functions_arrowInBranch? hP _ _) (fun _ => rfl) ?_
  refine .bind fun _ => .bind fun _ => .ite ?_ (others_node hP.toOfOthers rfl _ _)
  exact .bind fun _ => .skipIf <| .skipUnless <| .bind fun _ => .bind fun _ =>
    .bindOf (functions_arrowFrom hP _ _ _) fun n hn => .bind fun _ => .skipIf (.pure hn)

theorem functions_namedFunction (isAsync needsName : Bool) :
    Yields (namedFunction r lo isAsync needsName) P :=
  .bind fun _ => .bind fun _ => .bind fun name => .bindOf (yields_functionFrom lo _) fun f hf =>
    .pure (hP.of_form_lo (by rw [form_withName, hf.1]; rfl) (by rw [lo_withName, hf.2]))

end Functions

section Start

variable {r : Rules} {P : Node → Prop} {start : Lexer} (hP : OfFunctions start.pos P)
include hP

theorem functions_functionExpression : YieldsAt start (functionExpression r) P :=
  .pos <| .bind fun _ => .bindOf (functions_namedFunction hP _ _) fun _ hn => .skipIf (.pure hn)

theorem functions_genericAsyncArrow :
    YieldsAt start (genericAsyncArrow r) fun o => ∀ n ∈ o, P n := by
  refine .attempt (.pos <| .bind fun _ => .bind fun _ => .ite .none ?_) fun _ hn => by cases hn
  exact .bind fun _ => .bind fun _ => .bind fun _ => .bind fun _ => .bind fun _ => .bind fun _ =>
    .ite .none <| .bind fun _ => .bindSome (functions_arrowFrom hP _ _ _)

theorem functions_nameOrArrow : YieldsAt start (nameOrArrow r) P := by
  refine .pos <| .still .read fun mode => ?_
  extract_lets canBeArrow
  refine .still (.is _) fun isAsync => ?_
  extract_lets named
  have hnamed (u : Unit) : Yields (named u) P :=
    .bindOf (others_wordNode hP.toOfOthers) fun n hn => .bind fun _ => .ite (.pure hn) <|
      .bind fun _ => .bind fun _ => .ite
        (.bind fun _ => .bind fun _ => .ite (.bind fun _ => others_node hP.toOfOthers rfl _ _)
          (functions_bareArrow hP _ _))
        (.bind fun _ => .ite (functions_bareArrow hP _ _) (.pure hn))
  refine .ite (.still .peek fun next => .ite (functions_functionExpression hP) ?_)
    (.of_yields (hnamed ()))
  extract_lets called
  have hcalled (u : Unit) : Yields (called u) P :=
    .ite (.bind fun _ => functions_asyncArrow hP _) (hnamed ())
  exact .ite (.orElse (functions_genericAsyncArrow hP) (fun _ => rfl) (.of_yields (hcalled ())))
    (.of_yields (hcalled ()))

theorem functions_genericArrow :
    YieldsAt start (genericArrow r) fun o => ∀ n ∈ o, P n := by
  refine .attempt (.pos <| .bind fun _ => .bind fun e => ?_) fun _ hn => by cases hn
  split
  · exact .pure fun n hn => by
      cases hn
      exact hP.function rfl _ _
  · exact .none

end Start

end Phrasebook.Script.Grammar
