import Phrasebook.Proofs.Script.Grammar.Written
import Phrasebook.Script.Grammar.Statement

/-!
# Statements account for what they read

An expression that a statement returns stands behind the word `return`, which makes a site of it
when its text is known.
-/

namespace Phrasebook.Script.Grammar

variable {text : List Char} {r : Rules} (h : r.Sound text)

/-! ### Blocks -/

theorem reads_braced {one : Parser Node} (hone : Reads text one) : Reads text (braced one) :=
  .skip .pos fun _ => .skip (.expect _) fun _ => .bind (gives_many (.isOneOf _) hone) fun _ =>
    .skip (.eat _) fun _ => .node rfl (.refl _)

include h

theorem reads_block : Reads text (block r) := reads_braced (h.statement true)

/-! ### Variables -/

theorem reads_declarator (isLexical isFixed inHead : Bool) :
    Reads text (declarator r isLexical isFixed inHead) := by
  refine .skip .pos fun lo => .skip (.is _) fun _ => .skipIf .unexpected <|
    .bindOf h.pattern h.isPlain_pattern fun n hn => ?_
  extract_lets isName rest
  have hrest (u : Unit) : Gives text [n] (rest u) fun n => [n] :=
    .bindOn [] (gives_annotated h hn) (.refl _) fun _ => .skip (.isOneOf _) fun _ =>
      .ite (.node rfl (.refl _)) <| .skip (.eat _) fun _ => .ite
        (.bind h.assignment fun _ => .node rfl (.refl _)) <|
        .skip .read fun _ => .skipUnless (.failAt _) (.node rfl (.refl _))
  exact .ite (.skip (.eat _) fun _ => hrest ()) (hrest ())

theorem moves_skipStatement : Moves text (skipStatement r) :=
  .skip (.of_gives (f := Option.toList) (.recover h.expression (.refl _))) fun _ =>
    .loop (fun _ => []) (.refl _) fun _ => .skip .eatStatementEnd fun _ =>
      .ite .done (.skip .bump fun _ => .done)

omit h in
theorem moves_isEmptyHead : Moves text (isEmptyHead r) := .lookAhead _

theorem reads_variableList (inHead : Bool) : Reads text (variableList r inHead) := by
  refine .skip .pos fun lo => .skip .kind fun word => .skip .bump fun _ =>
    .skip (moves_isEmptyHead) fun _ => .ite .leaf ?_
  extract_lets within
  refine .bind (.loop id (.refl _) fun ds => ?_) fun ds => ?_
  · exact .skip (.is _) fun _ => .ite (.pure (.refl _)) <|
      .bind (reads_declarator h _ _ _).adjust fun _ => .skip (.eat _) fun _ =>
        .pure fun m => by simp [Nat.add_comm]
  · extract_lets last
    have hlast (u : Unit) : Gives text ds (last u) fun n => [n] := .node rfl fun m => by simp
    exact .ite (hlast ()) <| .skip .eatStatementEnd fun _ => .ite (hlast ()) <|
      .skip (moves_skipStatement h) hlast

omit h in
theorem still_atVariables : Still atVariables := by
  refine .bind .kind fun k => ?_
  split
  · exact .pure _
  · exact .pure _
  · exact .bind .peek fun _ => .pure _
  · exact .bind .peek fun _ => .pure _
  · exact .pure _

omit h in
theorem moves_atVariables : Moves text atVariables := .of_still still_atVariables

/-! ### Declarations of types and names -/

theorem reads_enumMember : Reads text (enumMember r) := by
  refine .bind (reads_key h) fun k => ?_
  extract_lets lo
  exact .skip (.eat _) fun _ => .ite (.bind h.assignment fun _ => .node rfl (.refl _))
    (.node rfl (.refl _))

theorem reads_enumFrom (lo : Nat) : Reads text (enumFrom r lo) :=
  .skip .word fun _ => .skip (.expect _) fun _ => .bind (gives_separated _ (reads_enumMember h))
    fun _ => .skip (.expect _) fun _ => .node rfl (.refl _)

theorem reads_interfaceFrom (lo : Nat) : Reads text (interfaceFrom r lo) :=
  .skip .word fun _ => .bind (gives_typeParameters? h) fun _ => .bind (gives_heritageClauses h)
    fun _ => .bind (reads_typeMembers h) fun _ => .node rfl (.refl _)

theorem reads_aliasFrom (lo : Nat) : Reads text (aliasFrom r lo) :=
  .skip .word fun _ => .bind (gives_typeParameters? h) fun _ => .skip (.expect _) fun _ =>
    .bind (reads_freshType h) fun _ => .skip .expectStatementEnd fun _ => .node rfl (.refl _)

theorem reads_namespaceBlock : Reads text (namespaceBlock r) := reads_braced h.item

theorem reads_namespaceFrom (lo : Nat) : Reads text (namespaceFrom r lo) :=
  .skip moves_entityName fun _ => .bind (reads_namespaceBlock h) fun _ => .node rfl (.refl _)

theorem reads_ambientModule (lo : Nat) : Reads text (ambientModule r lo) :=
  .skip .bump fun _ => .skip (.is _) fun _ => .ite
    (.bind (reads_namespaceBlock h) fun _ => .node rfl (.refl _))
    (.skip .expectStatementEnd fun _ => .leaf)

theorem reads_classDeclaration (lo : Nat) : Reads text (classDeclaration r lo) :=
  .bind (reads_classFrom h _ _) fun _ => .node rfl (.refl _)

theorem gives_declarationNamed (lo : Nat) (word : String) (inHand : Bool) :
    Gives text [] (declarationNamed r lo word inHand) Option.toList := by
  unfold declarationNamed
  extract_lets broken skip named
  have hbroken : Moves text broken := Gives.ite .done Moves.lineBreak
  have hskip : Moves text skip := Gives.ite Moves.bump .done
  have hnamed : Moves text named := .skip .kind fun _ => .done
  have hsome {p : Parser Node} (hp : Reads text p) :
      Gives text [] (skip >>= fun _ => p >>= fun n => pure (some n)) Option.toList :=
    .skip hskip fun _ => .bind hp fun _ => .pure (.refl _)
  split
  · exact .skip (.is _) fun _ => .skip .lineBreak fun _ => .ite
      (hsome (reads_classDeclaration h _)) .none
  · exact .skip hnamed fun _ => .ite (hsome (reads_enumFrom h _)) .none
  · exact .skip hnamed fun _ => .ite (hsome (reads_interfaceFrom h _)) .none
  · exact .skip hbroken fun _ => .ite .none <| .skip hskip fun _ => .skip (.is _) fun _ => .ite
      (.bind (reads_ambientModule h _) fun _ => .pure (.refl _)) <| .skip hnamed fun _ => .ite
        (.bind (reads_namespaceFrom h _) fun _ => .pure (.refl _)) .none
  · exact .skip hnamed fun _ => .ite (hsome (reads_namespaceFrom h _)) .none
  · exact .skip hbroken fun _ => .ite .none <| .skip hnamed fun _ => .ite
      (hsome (reads_aliasFrom h _)) .none
  · exact .none

theorem reads_constEnum (lo : Nat) : Reads text (constEnum r lo) :=
  .skip .bump fun _ => .skip .bump fun _ => reads_enumFrom h _

theorem gives_ambientDeclaration (lo : Nat) :
    Gives text [] (ambientDeclaration r lo) Option.toList := by
  refine .adjust <| .skip .kind fun k => ?_
  extract_lets last
  have hlast (d : Option Node) : Gives text d.toList (last d) Option.toList := .pure fun m => by
    cases d with
    | none => exact Nat.le_refl _
    | some d => simp (disch := decide) [marks_of_isPlain, -marks_mk]
  have hsome {p : Parser Node} (hp : Reads text p) :
      Gives text [] (some <$> p >>= last) Option.toList :=
    .bind (f := Option.toList) (.map hp fun _ => .refl _) hlast
  split
  · exact hsome (reads_functionDeclaration h)
  · exact hsome (reads_classDeclaration h _)
  · exact .skip (.peekIs _) fun _ => .ite (hsome (reads_constEnum h _))
      (hsome (reads_variableList h _))
  · exact hsome (reads_variableList h _)
  · exact hsome (reads_variableList h _)
  · exact hsome (reads_ambientModule h _)
  · exact .ite (.skip .spelling fun _ => .bind (gives_declarationNamed h _ _ _) hlast) (hlast none)

theorem gives_declarationBehind (lo : Nat) (name : String) :
    Gives text [] (declarationBehind r lo name) Option.toList := by
  unfold declarationBehind
  split
  · exact gives_ambientDeclaration h _
  · exact .skip (.is _) fun _ => .ite (.bind (reads_namespaceBlock h) fun _ =>
      .bindNode [] rfl (.refl _) fun _ _ => .pure (.refl _)) .none
  · exact gives_declarationNamed h _ _ _

/-! ### Statements -/

theorem reads_expressionStatement : Reads text (expressionStatement r) := by
  refine .skip .pos fun lo => .bind h.fullExpression fun e => ?_
  extract_lets last rest
  have hlast (u : Unit) : Gives text [e] (last u) fun n => [n] :=
    .bindOn [] (h.operators _ _) (.refl _) fun _ => .node rfl (.refl _)
  have hrest (u : Unit) : Gives text [e] (rest u) fun n => [n] :=
    .skip .eatStatementEnd fun _ => .ite (.node rfl (.refl _)) <| .skip .kind fun _ =>
      .ite (hlast ()) (.skip .unexpected hlast)
  split
  · refine .skip (.eat _) fun _ => .ite (.skip (.is _) fun _ => ?_)
      (.orElse (gives_declarationBehind h _ _) (fun _ => rfl) (hrest ()))
    exact .choose (reads_functionDeclaration h) (h.statement false) fun _ =>
      .node rfl fun m => by simp
  · exact hrest ()

theorem reads_importStatement : Reads text (importStatement r) :=
  .skip .pos fun _ => .bind h.fullExpression fun _ => .skip (.eat _) fun _ => .node rfl (.refl _)

theorem reads_condition : Reads text (condition r) :=
  .skip (.expect _) fun _ => .bind h.fullExpression fun _ => .skip (.expect _) fun _ =>
    .pure (.refl _)

omit h in
theorem reads_jump : Reads text jump :=
  .skip .pos fun _ => .skip .bump fun _ => .skip .eatStatementEnd fun _ =>
    .ite .leaf (.skip .word fun _ => .skip .expectStatementEnd fun _ => .leaf)

/-- What a statement returns stands behind the word `return`. -/
theorem gives_returnStatement : GivesWhen text (·.kind = .kwReturn) [] (returnStatement r)
    fun n => [n] := by
  refine .still .pos fun lo => .bumpLead .returnWord (fun _ hkind => hkind) <|
    .still .atStatementEnd fun _ => ?_
  extract_lets rest
  have hnothing : Gives text [] (rest []) fun n => [n] := .skip .expectStatementEnd fun _ => .leaf
  refine .ite (Gives.led (.bindPure hnothing)) fun K hK => ?_
  refine .bind (triple_returned h.fullExpression h.written_fullExpression .returnWord hK _)
    fun e => ?_
  change Triple text _ (rest [e]) _
  refine .skip .expectStatementEnd (fun _ _ hle haccount => hK.mono haccount hle) fun _ =>
    triple_node hK fun m => ?_
  simp [ownMarks]

theorem reads_throwStatement : Reads text (throwStatement r) :=
  .skip .pos fun _ => .skip .bump fun _ => .skip .lineBreak fun _ => .skipIf .unexpected <|
    .bind h.fullExpression fun _ => .skip .expectStatementEnd fun _ => .node rfl (.refl _)

theorem reads_ifStatement : Reads text (ifStatement r) := by
  refine .skip .pos fun _ => .skip .bump fun _ => .bind (reads_condition h) fun _ =>
    .bind (h.statement false) fun _ => .skip (.eat _) fun _ => ?_
  exact .optional (h.statement false) fun _ => .node rfl (.refl _)

theorem reads_whileStatement : Reads text (whileStatement r) :=
  .skip .pos fun _ => .skip .bump fun _ => .bind (reads_condition h) fun _ =>
    .bind (h.statement false) fun _ => .node rfl (.refl _)

theorem reads_doStatement : Reads text (doStatement r) :=
  .skip .pos fun _ => .skip .bump fun _ => .bind (h.statement false) fun body =>
    .skip (.expect _) fun _ => .bind (reads_condition h) fun test => .skip (.eat _) fun _ =>
      .node rfl fun m => by simp [Nat.add_comm]

theorem gives_overEach : Gives text [] (overEach r) id :=
  .skip (.eat _) fun _ => .ite (.bind h.fullAssignment fun _ => .pure (.refl _)) <|
    .skip (.expect _) fun _ => .bind h.fullExpression fun _ => .pure (.refl _)

theorem gives_testAndUpdate : Gives text [] (testAndUpdate r) id := by
  refine .skip (.is _) fun _ => ?_
  extract_lets rest
  have hrest (test : List Node) : Gives text test (rest test) id := by
    refine .skip (.expect _) fun _ => .skip (.is _) fun _ => ?_
    exact .ite (.pure fun m => by simp) (.bind h.fullExpression fun _ => .pure (.refl _))
  exact .ite (hrest []) (.bind h.fullExpression fun _ => hrest _)

theorem gives_forHead : Gives text [] (forHead r) id := by
  refine .skip (.eat _) fun _ => .ite (gives_testAndUpdate h) <| .skip (.is _) fun _ =>
    .skip (.peekIs _) fun _ => .skip moves_atVariables fun _ => .ite ?_ ?_
  · exact .bind (reads_variableList h _).adjust fun v => .skip (.isOneOf _) fun _ => .ite
      (.bind (gives_overEach h) fun _ => .pure (.refl _)) <| .skip (.expect _) fun _ =>
        .bind (gives_testAndUpdate h) fun _ => .pure (.refl _)
  · exact .bind h.expression.adjust fun e => .skip (.isOneOf _) fun _ => .ite
      (.bindOn [] (shapes_asPattern _ _).gives (.refl _) fun _ => .bind (gives_overEach h)
        fun _ => .pure (.refl _)) <| .skip (.expect _) fun _ =>
          .bind (gives_testAndUpdate h) fun _ => .pure (.refl _)

theorem reads_forStatement : Reads text (forStatement r) :=
  .skip .pos fun _ => .skip .bump fun _ => .skip (.eat _) fun _ => .skip (.expect _) fun _ =>
    .bind (gives_forHead h) fun _ => .skip (.expect _) fun _ => .bind (h.statement false) fun _ =>
      .node rfl (.refl _)

theorem gives_caseBody : Gives text [] (caseBody r) id := gives_many (.isOneOf _) (h.statement true)

theorem reads_switchStatement : Reads text (switchStatement r) := by
  refine .skip .pos fun _ => .skip .bump fun _ => .bind (reads_condition h) fun value =>
    .skip (.expect _) fun _ => .bindOn [] (.loop (fun x => x.2) (.refl _) fun x => ?_) (.refl _)
      fun x => .skip (.expect _) fun _ => .node rfl (.refl _)
  obtain ⟨hasDefault, cases⟩ := x
  refine .skip (.eat _) fun _ => .ite ?_ <| .skip (.is _) fun _ => .ite ?_ (.pure (.refl _))
  · exact .bind h.fullExpression fun _ => .skip (.expect _) fun _ => .bind (gives_caseBody h)
      fun _ => .pure fun m => by simp
  · exact .skip .bump fun _ => .skipIf .unexpected <| .skip (.expect _) fun _ =>
      .bind (gives_caseBody h) fun _ => .pure (.refl _)

theorem gives_catchClause? : Gives text [] (catchClause? r) id := by
  refine .skip (.eat _) fun _ => .ite (.skip (.eat _) fun _ => ?_) (.pure (.refl _))
  extract_lets rest
  have hrest (param : List Node) : Gives text param (rest param) id :=
    .bind h.block fun _ => .pure (.refl _)
  refine .ite (.bindOf h.pattern h.isPlain_pattern fun n hn =>
    .bindOn [] (gives_annotated h hn) (.refl _) fun n => .skip (.expect _) fun _ => ?_) (hrest [])
  exact hrest [n]

theorem gives_finallyClause? : Gives text [] (finallyClause? r) id :=
  .skip (.eat _) fun _ => .ite (.bind h.block fun _ => .pure (.refl _)) (.pure (.refl _))

theorem reads_tryStatement : Reads text (tryStatement r) :=
  .skip .pos fun _ => .skip .bump fun _ => .bind h.block fun _ => .bind (gives_catchClause? h)
    fun _ => .bind (gives_finallyClause? h) fun _ => .node rfl fun m => by simp

theorem reads_strayClause : Reads text (strayClause r) := by
  have hdropped {p : Parser (List Node)} (hp : Gives text [] p id) :
      Moves text (Parser.recover p) :=
    .of_gives (f := fun o => o.getD []) (.recover hp (.refl _))
  exact .skip .get fun _ => .skip (hdropped (gives_catchClause? h)) fun _ =>
    .skip (hdropped (gives_finallyClause? h)) fun _ => .pure fun m => by simp (disch := decide)

theorem reads_statement (isDeclaration : Bool) : Reads text (statement r isDeclaration) := by
  refine .get fun l hl => ?_
  split
  -- `return` leads to what it returns, so the word is kept in mind
  case h_11 hkind =>
    exact (gives_returnStatement h).imp fun _ hl' => hl' ▸ hkind
  all_goals refine Gives.when ?_
  case h_1 =>
    exact h.block
  case h_2 =>
    exact reads_tokenNode _
  case h_3 | h_4 =>
    exact reads_jump
  case h_5 =>
    exact .skip .bump fun _ => .skip .expectStatementEnd fun _ => .leaf
  case h_6 =>
    exact reads_doStatement h
  case h_7 =>
    exact reads_forStatement h
  case h_8 =>
    exact reads_functionDeclaration h
  case h_9 =>
    exact reads_classDeclaration h _
  case h_10 =>
    exact reads_ifStatement h
  case h_12 =>
    exact reads_switchStatement h
  case h_13 =>
    exact reads_throwStatement h
  case h_14 =>
    exact reads_tryStatement h
  case h_15 | h_16 =>
    exact reads_strayClause h
  case h_17 | h_18 =>
    exact reads_whileStatement h
  case h_19 =>
    exact .skip (.peekIs _) fun _ => .skip (.peekIs _) fun _ =>
      .ite (reads_importStatement h) .unexpected
  case h_20 =>
    exact .unexpected
  case h_21 =>
    exact reads_variableList h _
  case h_22 =>
    exact .skip (.peekIs _) fun _ => .ite (reads_constEnum h _)
      (.ite (reads_variableList h _) .unexpected)
  case h_23 | h_24 =>
    exact .skip moves_atVariables fun _ =>
      .ite (reads_variableList h _) (reads_expressionStatement h)
  case h_25 =>
    exact .skip .peek fun _ => .ite
      (.skip .bump fun _ => .bind (reads_variableList h _) fun v => .pure fun m => by
        simp [-marks_mk])
      (reads_expressionStatement h)
  case h_26 =>
    exact .skip .peek fun _ => .ite (reads_functionDeclaration h) (reads_expressionStatement h)
  case h_27 =>
    exact reads_expressionStatement h

end Phrasebook.Script.Grammar
