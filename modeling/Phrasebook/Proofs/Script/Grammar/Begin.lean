import Phrasebook.Proofs.Script.Grammar.Other

/-!
# Where functions begin

A function that runs at once and is read as an expression begins with the first token that is read
for it. The rules between that for an assignment and those for functions pass it on as it is.
-/

namespace Phrasebook.Script.Grammar

variable {text : List Char} {r : Rules}

theorem functionAt_mk {form : Form} (h : form.runsAtOnce = false) (lo lo' hi : Nat)
    (parts : List Node) : FunctionAt lo (.mk form lo' hi parts) := fun hruns => by
  rw [Node.form, h] at hruns
  cases hruns

theorem functionAt (lo : Nat) : OfFunctions lo (FunctionAt lo) where
  other h lo' hi parts := functionAt_mk (by simp_all [isOther]) lo lo' hi parts
  function _ _ _ _ := rfl

variable {start : Lexer}

theorem begins_node {form : Form} (h : form.runsAtOnce = false) (lo : Nat) (parts : List Node) :
    Yields (Parser.node form lo parts) (FunctionAt start.pos) :=
  .node fun hi => functionAt_mk h _ lo hi parts

theorem begins_tokenNode {form : Form} (h : form.runsAtOnce = false) :
    Yields (tokenNode form) (FunctionAt start.pos) :=
  .bind fun _ => .bind fun _ => begins_node h _ _

theorem begins_template (tagged : Bool) : Yields (template r tagged) (FunctionAt start.pos) :=
  .adjust <| .bind fun _ => .bind fun _ => .ite (.bind fun _ => begins_node rfl _ _) <|
    .bind fun _ => .bind fun _ => begins_node rfl _ _

theorem begins_parenOrArrow (canBeArrow : Bool) :
    BeginsFunctions (parenOrArrow r canBeArrow none) := by
  refine fun start => .pos <| .bind fun list => .bind fun _ =>
    .orElse (functions_arrowInBranch? (functionAt _) _ _) (fun _ => rfl) ?_
  refine .bind fun _ => .bind fun _ => .ite ?_ (.bind fun es => ?_)
  · exact .bind fun _ => .skipIf <| .skipUnless <| .bind fun _ => .bind fun _ =>
      .bindOf (functions_arrowFrom (functionAt _) _ _ _) fun n hn =>
        .bind fun _ => .skipIf (.pure hn)
  · split
    · exact .failAt _
    · exact begins_node rfl _ _
    · exact begins_node rfl _ _

theorem begins_primary : BeginsFunctions (primary r) := by
  refine fun start => .get ?_
  have hothers := (functionAt start.pos).toOfOthers
  split
  case h_1 | h_2 | h_3 | h_4 | h_5 | h_6 | h_7 =>
    exact .of_yields (begins_tokenNode rfl)
  case h_8 =>
    exact .of_yields (others_regularExpression hothers)
  case h_9 =>
    exact .ite (.of_yields (others_regularExpression hothers)) .unexpected
  case h_10 | h_11 =>
    exact .of_yields (begins_template _)
  case h_12 =>
    exact .of_yields (others_arrayLiteral hothers)
  case h_13 =>
    exact .of_yields (others_object hothers)
  case h_14 =>
    exact functions_functionExpression (functionAt _)
  case h_15 =>
    exact .of_yields (others_classFrom hothers _ _)
  case h_16 =>
    exact .of_yields (others_privateName hothers)
  case h_17 =>
    exact .still .read fun _ => begins_parenOrArrow _ start
  case h_18 =>
    exact .ite (functions_nameOrArrow (functionAt _)) .unexpected

/-! ### Members and calls -/

theorem begins_construction : BeginsFunctions (construction r) := by
  refine fun start => .still .kind fun k => ?_
  have hothers := (functionAt start.pos).toOfOthers
  split
  · exact .of_yields (others_construct hothers)
  · exact .of_yields (others_superWord hothers _)
  · exact .of_yields (others_importExpression hothers _)
  · exact .bindOf (begins_primary start) fun e he => .bind fun _ =>
      .ite (.pure he) (others_subscripts hothers _ he)

variable (h : r.Sound text)
include h

theorem begins_leftHandSide : BeginsFunctions (leftHandSide r) := by
  refine fun start => .still .read fun _ => .still (.is _) fun _ => .ite ?_ <|
    .still .kind fun k => ?_
  · exact .of_yields <| .bindOf h.form_element fun n hn => .bind fun _ =>
      .pure ((functionAt _).of_form (hn ▸ rfl))
  · have hothers := (functionAt start.pos).toOfOthers
    split
    · exact .of_yields (others_superWord hothers _)
    · exact .of_yields (others_importExpression hothers _)
    · exact .bindOf (h.begins_construction start) fun e he => .bind fun _ => .ite (.pure he) <|
        .ite (.pure he) <| .bind fun _ => .bind fun _ =>
          .ite (others_called hothers _ _ _) (.pure he)

/-! ### Operators -/

theorem begins_unary : BeginsFunctions (unary r) := by
  refine fun start => .still .pos fun _ => .still .read fun _ => .still (.is _) fun _ => .ite ?_ <|
    .still (.isOneOf _) fun _ => .ite
      (.bind fun _ => .bind fun _ => begins_node rfl _ _) <|
    .still (.isOneOf _) fun _ => .ite
      (.bind fun _ => .bind fun _ => begins_node rfl _ _) <|
    .still (.is _) fun _ => .ite
      (.of_yields (others_awaitExpression (functionAt _).toOfOthers)) <|
    .bindOf (h.begins_leftHandSide start) fun e he => .bind fun _ => .bind fun _ =>
      .ite (.pure he) <| .bind fun _ => .ite (.bind fun _ => begins_node rfl _ _) (.pure he)
  refine .bind fun _ => .bind fun _ => ?_
  extract_lets rest
  have hrest (t : Node) : Yields (rest t) (FunctionAt start.pos) :=
    .bind fun _ => .bind fun _ => begins_node rfl _ _
  exact .ite (.bind hrest) (.bind hrest)

theorem begins_operand : BeginsFunctions (operand r) := by
  intro start mode n l hrun
  unfold operand at hrun
  cases heq : r.unary mode start with
  | ok n' l' =>
    rw [heq] at hrun
    cases hrun
    exact h.begins_unary start mode _ _ heq
  | error e l' =>
    rw [heq] at hrun
    dsimp only at hrun
    split at hrun
    · cases hrun
      exact functionAt_mk rfl _ _ _ _
    · cases hrun

omit h in
theorem begins_operators {left : Node} (hleft : FunctionAt start.pos left) (min : Nat) :
    Yields (operators r left min) (FunctionAt start.pos) := by
  refine .loop (fun left hleft => .bindOf (P := fun o => ∀ n ∈ o, FunctionAt start.pos n) ?_
    fun o ho => ?_) hleft
  · refine .bind fun _ => .bind fun _ => .ite ?_ ?_
    · refine .bind fun _ => .bind fun _ => .bind fun _ => ?_
      extract_lets rest
      have hrest (t : Node) : Yields (rest t) fun o => ∀ n ∈ o, FunctionAt start.pos n :=
        .bindSome (begins_node rfl _ _)
      exact .ite (.bind hrest) (.bind hrest)
    · refine .bind fun _ => .skipIf <| .bind fun k => .bind fun _ => .ite .none <| .bind fun _ =>
        .skipIf <| .bind fun _ => .bind fun right => .pure fun n hn => ?_
      cases hn
      exact functionAt_mk rfl _ _ _ _
  · cases o with
    | some n => exact .pure (ho n rfl)
    | none => exact .pure hleft

theorem begins_conditional : BeginsFunctions (conditional r) := by
  have hbinary : BeginsFunctions (binary r) := fun start =>
    .bindOf (begins_operand h start) fun left hleft => .bind fun _ =>
      .ite (.pure hleft) (begins_operators hleft _)
  exact fun start => .still .pos fun _ => .bindOf (hbinary start) fun test htest => .bind fun _ =>
    .ite (.pure htest) <| .bind fun _ =>
      .ite (others_branches (functionAt _).toOfOthers _ _) (.pure htest)

/-! ### Assignments -/

omit h in
theorem begins_finishAssignment {target : Node} (htarget : FunctionAt start.pos target)
    (lo : Nat) : Yields (finishAssignment r lo target) (FunctionAt start.pos) := by
  refine .bind fun _ => .bind fun _ => .ite ?_ (.pure htarget)
  extract_lets assignTo
  have hassign (target : Node) : Yields (assignTo target) (FunctionAt start.pos) :=
    .skipUnless <| .bind fun _ => .bind fun _ => begins_node rfl _ _
  exact .ite (.bind hassign) (hassign target)

theorem begins_plainAssignment : BeginsFunctions (plainAssignment r) := by
  refine fun start => .still .pos fun lo => .still .read fun _ => .still (.is _) fun _ => .ite
    (.of_yields (others_yieldExpression (functionAt _).toOfOthers)) <|
    .bindOf (begins_conditional h start).adjust fun e he => ?_
  split
  case h_6 =>
    exact begins_finishAssignment he _
  all_goals exact .pure he

theorem begins_assignment : BeginsFunctions (assignment r) := by
  refine fun start => .still (.is _) fun _ => ?_
  extract_lets last rest
  have hlast (u : Unit) : YieldsAt start (last u) (FunctionAt start.pos) :=
    begins_plainAssignment h start
  have hrest (u : Unit) : YieldsAt start (rest u) (FunctionAt start.pos) :=
    .still .peek fun _ => .ite
      (.orElse (functions_genericArrow (functionAt _)) (fun _ => rfl) (hlast ())) (hlast ())
  refine .ite (.still .read fun _ => .ite (.orElse (.attempt ?_ nofun) (fun _ => rfl) (hrest ()))
    (hrest ())) (hlast ())
  exact .bindOf (begins_plainAssignment h start) fun n hn => .pure fun m hm => by
    cases hm
    exact hn

end Phrasebook.Script.Grammar
