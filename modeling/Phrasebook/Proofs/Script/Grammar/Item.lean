import Phrasebook.Proofs.Script.Grammar.Statement
import Phrasebook.Script.Grammar.Item

/-!
# Imports and exports account for what they read
-/

namespace Phrasebook.Script.Grammar

variable {text : List Char} {r : Rules} (h : r.Sound text)

theorem moves_exportedName : Moves text exportedName :=
  .skip (.is _) fun _ => .ite (.skip .spelling fun _ => .skip .bump fun _ => .done) Moves.word

theorem moves_specifier {last : Parser String} (hlast : Moves text last) :
    Moves text (specifier last) := by
  have hrenamed (typeOnly : Bool) (name : String) : Moves text
      (Parser.eat .kwAs >>= fun isRenamed => if isRenamed = true
        then last >>= fun name => pure (typeOnly, name) else pure (typeOnly, name)) :=
    Gives.skip (.eat _) fun _ => .ite (.skip hlast fun _ => .done) .done
  refine .skip .word fun first => .skip .kind fun _ => .ite ?_ (hrenamed _ _)
  refine .skip .word fun second => .ite ?_ (hrenamed _ _)
  exact .skip .kind fun _ => .ite (.skip .word fun _ => .skip .kind fun _ => .ite
    (.skip .word fun _ => .done) .done) .done

theorem reads_importSpecifier : Reads text importSpecifier :=
  .skip .pos fun _ => .skip (.eat _) fun _ => .ite
    (.skip (.expect _) fun _ => .skip .bindingWord fun _ => .leaf)
    (.skip (moves_specifier .bindingWord) fun _ => .leaf)

theorem reads_exportSpecifier : Reads text exportSpecifier := by
  refine .skip .pos fun _ => .skip (.eat _) fun _ => .ite ?_ ?_
  · exact .skip (.eat _) fun _ => .skipIf moves_exportedName .leaf
  · exact .skip (moves_specifier moves_exportedName) fun _ => .leaf

include h

theorem gives_attributes : Gives text [] (attributes r) id :=
  .skip .spelling fun _ => .skip (.is _) fun _ => .skip .lineBreak fun _ => .skip (.is _) fun _ =>
    .ite (.skip .bump fun _ => .bind (reads_object h) fun _ => .pure (.refl _)) (.pure (.refl _))

theorem gives_moduleName : Gives text [] (moduleName r) id :=
  .skip (.eat _) fun _ => .skipUnless .unexpected <| .bind (gives_attributes h) fun _ =>
    .skip .expectStatementEnd fun _ => .pure (.refl _)

omit h in
theorem gives_importEquals (lo : Nat) (typeOnly : Bool) (binding : List Node) :
    Gives text binding (importEquals lo typeOnly binding) fun n => [n] := by
  refine .skip (.is _) fun _ => .skip (.peekIs _) fun _ => ?_
  extract_lets rest
  have hrest (u : Unit) : Gives text binding (rest u) fun n => [n] :=
    .skip .expectStatementEnd fun _ => .node rfl (.refl _)
  exact .ite (.skip .bump fun _ => .skip .bump fun _ => .skip (.eat _) fun _ =>
    .skipUnless .unexpected <| .skip (.expect _) hrest) (.skip moves_entityName fun _ => hrest ())

omit h in
theorem gives_defaultBinding : Gives text [] defaultBinding fun x => x.2.toList := by
  refine .skip .kind fun _ => .ite (.skip .pos fun lo => .skip .word fun name => ?_)
    (.pure (.refl _))
  extract_lets last
  have hlast (u : Unit) : Gives text [] (last u) fun x => x.2.toList :=
    .bind .leaf fun _ => .pure (.refl _)
  refine .ite (.skip (.isOneOf _) fun _ => .ite (.pure (.refl _)) <| .skip .kind fun _ => .ite
    (.skip (.is _) fun _ => .skip (.peekIs _) fun _ => .skip (.peekIs _) fun _ =>
      .ite ?_ (hlast ())) (hlast ())) (hlast ())
  exact .skip .pos fun _ => .skip .word fun _ => .bind .leaf fun _ => .pure (.refl _)

omit h in
theorem gives_otherBindings : Gives text [] otherBindings id :=
  .skip (.is _) fun _ => .ite
    (.skip .pos fun _ => .skip .bump fun _ => .skip (.expect _) fun _ => .skip .bindingWord
      fun _ => .bind .leaf fun _ => .pure (.refl _)) <|
    .skip (.expect _) fun _ => .bind (gives_separated _ reads_importSpecifier) fun _ =>
      .skip (.expect _) fun _ => .pure (.refl _)

theorem reads_importItem : Reads text (importItem r) := by
  refine .skip .pos fun lo => .skip .bump fun _ => .skip (.is _) fun _ => .ite
    (.bind (gives_moduleName h) fun _ => .node rfl (.refl _)) <|
    .bind gives_defaultBinding fun x => ?_
  split
  rename_i typeOnly first
  extract_lets last rest
  have hlast (others : List Node) :
      Gives text (first.toList ++ others) (last others) fun n => [n] :=
    .skip (.expect _) fun _ => .bind (gives_moduleName h) fun _ => .node rfl (.refl _)
  have hrest (u : Unit) : Gives text first.toList (rest u) fun n => [n] :=
    .skip (.eat _) fun _ => .ite (.bind gives_otherBindings hlast)
      (.bindPure ((hlast []).mono (fun m => by simp) fun _ => .refl _))
  exact .ite (.skip (.eat _) fun _ => .ite (gives_importEquals _ _ _) (hrest ())) (hrest ())

/-! ### Exports -/

omit h in
theorem gives_defaultDeclaration (lo start : Nat) (f : Node) :
    Gives text [f] (defaultDeclaration lo start f) fun n => [n] :=
  .bindNode [] rfl (.refl _) fun _ _ => .node rfl (.refl _)

theorem reads_exportDefault (lo : Nat) : Reads text (exportDefault r lo) := by
  refine .skip .pos fun start => .skip .peek fun next => .skip (.is _) fun _ => .ite
    (.skip .bump fun _ => .bind (reads_classFrom h _ _) (gives_defaultDeclaration _ _)) <|
    .skip (.is _) fun _ => .ite
      (.skip .bump fun _ => .bind (reads_interfaceFrom h _) fun _ => .node rfl (.refl _)) <|
    .skip (.is _) fun _ => .ite (.bind (reads_classFrom h _ _) (gives_defaultDeclaration _ _)) <|
    .skip (.is _) fun _ => .skip (.is _) fun _ => .ite
      (.skip (.eat _) fun _ => .bind (reads_namedFunction h _ _ _)
        (gives_defaultDeclaration _ _)) <|
    .bind h.fullAssignment fun _ => .skip .expectStatementEnd fun _ => .node rfl (.refl _)

theorem reads_exportList (lo : Nat) : Reads text (exportList r lo) := by
  refine .skip (.eat _) fun _ => .ite ?_ ?_
  · exact .skip (.eat _) fun _ => .skipIf moves_exportedName <| .skip (.expect _) fun _ =>
      .bind (gives_moduleName h) fun _ => .node rfl (.refl _)
  · refine .skip (.expect _) fun _ => .skip (.of_gives (gives_separated _ reads_exportSpecifier))
      fun _ => .skip (.expect _) fun _ => .skip (.eat _) fun _ => .ite
        (.bind (gives_moduleName h) fun _ => .node rfl (.refl _))
        (.skip .eatStatementEnd fun _ => .leaf)

theorem gives_exportedDeclaration? : Gives text [] (exportedDeclaration? r) Option.toList := by
  refine .skip .pos fun start => .skip .peek fun next => .skip .kind fun k => ?_
  have hsome {p : Parser Node} (hp : Reads text p) :
      Gives text [] (some <$> p) Option.toList :=
    .map hp fun _ => .refl _
  split
  · exact hsome (reads_classDeclaration h _)
  · exact hsome (reads_functionDeclaration h)
  · exact .ite (hsome (reads_functionDeclaration h)) .none
  · exact .ite (hsome (reads_constEnum h _)) (hsome (reads_variableList h _))
  · exact hsome (reads_variableList h _)
  · exact .ite (hsome (reads_variableList h _)) .none
  · exact .none

omit h in
theorem reads_exportedImport (lo : Nat) : Reads text (exportedImport lo) := by
  refine .skip (.is _) fun _ => .skip .peek fun _ => ?_
  extract_lets typeOnly rest
  have hrest (u : Unit) : Reads text (rest u) :=
    .skip .pos fun _ => .skip .word fun _ => .bind .leaf fun _ => .skip (.expect _) fun _ =>
      gives_importEquals _ _ _
  exact .ite (.skip .bump hrest) (hrest ())

theorem reads_exportItem : Reads text (exportItem r) := by
  refine .skip .pos fun lo => .skip .bump fun _ => .skip .pos fun start =>
    .skip (.eat _) fun _ => ?_
  extract_lets others named
  have hitem (d : Node) : Gives text ([] ++ [d]) (Parser.node .item lo [d]) fun n => [n] :=
    .node rfl (.refl _)
  have hothers (u : Unit) : Reads text (others u) :=
    .skip (.eat _) fun _ => .ite (reads_exportedImport _) <|
    .skip (.eat _) fun _ => .ite
      (.bind h.fullExpression fun _ => .skip .expectStatementEnd fun _ => .node rfl (.refl _)) <|
    .skip (.eat _) fun _ => .ite
      (.skip (.expect _) fun _ => .skip .word fun _ => .skip .expectStatementEnd fun _ => .leaf) <|
    .skip (.eat _) fun _ => .ite (reads_exportList h _) <|
    .skip (.eat _) fun _ => .ite (reads_exportDefault h _) <|
    .whether (gives_exportedDeclaration? h) hitem (reads_exportList h _)
  have hnamed (u : Unit) : Reads text (named u) := by
    refine .skip .kind fun _ =>
      .ite (.whether (.attempt ?_ (.refl _)) hitem (hothers ())) (hothers ())
    exact .skip .pos fun _ => .skip .spelling fun _ => gives_declarationNamed h _ _ _
  exact .ite (.whether (gives_ambientDeclaration h _) hitem (hnamed ())) (hnamed ())

theorem reads_moduleItem : Reads text (moduleItem r) := by
  refine .skip .kind fun k => ?_
  split
  · exact .skip (.peekIs _) fun _ => .skip (.peekIs _) fun _ =>
      .ite (reads_importStatement h) (reads_importItem h)
  · exact reads_exportItem h
  · exact h.statement true

end Phrasebook.Script.Grammar
