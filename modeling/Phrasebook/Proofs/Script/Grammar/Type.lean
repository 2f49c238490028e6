import Phrasebook.Proofs.Script.Grammar.Pattern
import Phrasebook.Script.Grammar.Type

/-!
# Types account for what they read

Types and templates, of which the parts are the expressions that stand in them.
-/

namespace Phrasebook.Script.Grammar

variable {text : List Char} {r : Rules} (h : r.Sound text)

/-! ### Templates, of types and of expressions -/

theorem moves_checkPiece (tagged : Bool) : Moves text (checkPiece tagged) :=
  .skip .get fun l => by
    split
    · exact .skip .get fun _ => .ite (.failAt _) .done
    · exact .done

theorem reads_templateOf (tagged : Bool) {inner : Parser Node} (hinner : Reads text inner) :
    Reads text (templateOf tagged inner) := by
  refine .skip .get fun l => .skip (moves_checkPiece tagged) fun _ =>
    .ite (.skip .bump fun _ => .leaf) ?_
  refine .skip .bump fun _ => .bind (.loop id (.refl _) fun inners => ?_) fun inners =>
    .node rfl fun m => by simp
  exact .bind hinner fun e => .skip (.is _) fun _ => .skipUnless .unexpected <|
    .skip (.modify fun l hl => ⟨hl.rereadTemplate, Nat.le_refl _⟩) fun _ =>
      .skip (moves_checkPiece tagged) fun _ => .skip (.is _) fun _ => .skip .bump fun _ =>
        .pure fun m => by simp [Nat.add_comm]

/-! ### Arguments and parameters of types -/

theorem moves_atLess : Moves text atLess := .isOneOf _

theorem moves_expectLess : Moves text expectLess :=
  .isOf fun _ => .ite (fun hb => .modify (fun _ hl hkind =>
    ⟨hl.rereadLess (eq_of_beq (hkind.trans hb)), Nat.le_refl _⟩) (Moves.expect _))
    (Gives.when (Moves.expect _))

include h

theorem reads_freshType : Reads text (freshType r) := h.type.adjust

theorem reads_plainType : Reads text (plainType r) := h.type.adjust

theorem reads_typeArguments : Reads text (typeArguments r) :=
  .skip .pos fun _ => .skip moves_expectLess fun _ =>
    .bind (gives_separated _ (reads_freshType h)) fun _ => .skip (.expect _) fun _ =>
      .node rfl (.refl _)

theorem gives_typeArguments? : Gives text [] (typeArguments? r) id :=
  .skip moves_atLess fun _ => .ite (.bind (reads_typeArguments h) fun _ => .pure (.refl _))
    (.pure (.refl _))

theorem gives_closeTypeArguments? : Gives text [] (closeTypeArguments? r) id :=
  .skip .lineBreak fun _ => .ite (.pure (.refl _)) (gives_typeArguments? h)

theorem reads_typeParameter : Reads text (typeParameter r) :=
  .skip .pos fun _ => .skip
    (.loop (fun _ => []) (.refl _) fun _ => .skip (.eatModifier _) fun _ => .done) fun _ =>
      .skip .word fun _ => .skip (.eat _) fun _ => .optional (reads_freshType h) fun _ =>
        .skip (.eat _) fun _ => .optional (reads_freshType h) fun _ => .node rfl (.refl _)

theorem past_typeParameters (ns : List Node) :
    GivesPast text ns (typeParameters r) fun n => ns ++ [n] := fun place =>
  .still .pos fun _ => GivesPast.expect ns [] (by decide) (fun m => by simp)
    (.bind (gives_separated _ (reads_typeParameter h)) fun _ => .skip (.expect _) fun _ =>
      .node rfl (.refl _)) place

theorem reads_typeParameters : Reads text (typeParameters r) := (past_typeParameters h []).gives

omit h in
theorem foldText_typeParameters : Yields (typeParameters r) (foldText · = none) :=
  .bind fun _ => .bind fun _ => .bind fun _ => .bind fun _ => .node fun _ => rfl

theorem gives_typeParameters? : Gives text [] (typeParameters? r) id :=
  .skip (.is _) fun _ => .ite (.bind (reads_typeParameters h) fun _ => .pure (.refl _))
    (.pure (.refl _))

theorem past_typeParameters? (place : Nat) (ns : List Node) :
    Triple text (fun l => Past text place l.pos (marksOf ns)) (typeParameters? r)
      fun tps l => Past text place l.pos (marksOf (ns ++ tps)) :=
  .still (.is _) fun _ => .ite
    (.bind (past_typeParameters h ns place) fun _ => .pure fun _ _ => .of_accounted)
    (.pure fun _ _ hpast => by rwa [List.append_nil])

/-! ### Functions -/

theorem reads_resultType (sign : Kind) : Reads text (resultType r sign) :=
  .skip (.expect _) fun _ => .skip .pos fun _ => .skip (.is _) fun _ => .skip .peek fun _ =>
    .skipIf .bump <| .skip .peek fun _ => .skip .kind fun _ => .ite
      (.skip .bump fun _ => .skip .bump fun _ => .bind (reads_freshType h) fun _ =>
        .node rfl (.refl _))
      (.ite (.skip .word fun _ => .leaf) (reads_freshType h))

theorem gives_resultType? (sign : Kind) : Gives text [] (resultType? r sign) id :=
  .skip (.is _) fun _ => .ite (.bind (reads_resultType h _) fun _ => .pure (.refl _))
    (.pure (.refl _))

theorem reads_signatureParameters : Reads text (signatureParameters r) :=
  .skip (.expect _) fun _ => .bind (reads_parameters (reads_parameter h)) fun _ =>
    .skipIf .unexpected <| .skip (.expect _) fun _ => .pure (.refl _)

theorem reads_functionType : Reads text (functionType r) :=
  .skip .pos fun _ => .skip (.eat _) fun _ => .skip (.eat _) fun _ =>
    .bind (gives_typeParameters? h) fun _ => .bind (reads_signatureParameters h) fun _ =>
      .bind (reads_resultType h _) fun _ => .node rfl fun m => by simp

omit h in
theorem moves_atFunctionType : Moves text (atFunctionType r) :=
  .skip (.is _) fun _ => .ite .done <| .skip (.is _) fun _ => .ite (Moves.lookAhead _) .done

/-! ### Members of object types -/

omit h in
theorem moves_expectMemberEnd : Moves text expectMemberEnd :=
  .skip (.eat _) fun _ => .ite .done Moves.expectStatementEnd

theorem gives_indexSignature? : Gives text [] (indexSignature? r) Option.toList :=
  .skip (.is _) fun _ => .ite
    (.skip (.lookAhead _) fun _ => .ite
      (.skip .pos fun _ => .skip .bump fun _ => .skip .word fun _ => .skip .bump fun _ =>
        .bind (reads_freshType h) fun _ => .skip (.expect _) fun _ =>
          .bind (gives_annotation? h) fun _ => .skip moves_expectMemberEnd fun _ =>
            .bindNode [] rfl (.refl _) fun _ _ => .pure (.refl _))
      (.pure (.refl _)))
    (.pure (.refl _))

theorem gives_signature : Gives text [] (signature r) id :=
  .bind (gives_typeParameters? h) fun _ => .bind (reads_signatureParameters h) fun _ =>
    .bind (gives_resultType? h _) fun _ => .skip moves_expectMemberEnd fun _ =>
      .pure fun m => by simp

theorem gives_accessorSignature : Gives text [] (accessorSignature r) Option.toList := by
  refine .skip .pos fun lo => .skip (.is _) fun isGet =>
    .ite ?tail (.skip (.is _) fun _ => .ite ?tail (.pure (.refl _)))
  exact .skip .bump fun _ => .bind (reads_key h) fun _ =>
    .bind (reads_signatureParameters h) fun _ => .skipIf .unexpected <|
      .choose (gives_annotation? h) (.pure (.refl _)) fun _ =>
        .skip moves_expectMemberEnd fun _ => .bindNode [] rfl (.refl _) fun _ _ => .pure (.refl _)

theorem reads_typeMember : Reads text (typeMember r) := by
  have hsignature (lo : Nat) : Gives text [] (signature r >>= fun ns => Parser.node .type lo ns)
      fun n => [n] :=
    .bind (gives_signature h) fun _ => .node rfl (.refl _)
  refine .skip .pos fun lo => .skip (.isOneOf _) fun _ => .ite (hsignature lo) <|
    .skip (.is _) fun _ => .ite
      (.skip .peek fun _ => .ite (.skip .bump fun _ => hsignature lo) ?tail) ?tail
  refine .skip (.eatModifier _) fun _ => .bind (gives_indexSignature? h) fun o => ?_
  cases o with
  | some n => exact .pure (.refl _)
  | none =>
    refine .ite ?named (.bind (.attempt (gives_accessorSignature h) (.refl _)) fun o => ?_)
    · exact .bind (reads_key h) fun _ => .skip (.eat _) fun _ => .skip (.isOneOf _) fun _ => .ite
        (.bind (gives_signature h) fun _ => .node rfl (.refl _))
        (.bind (gives_annotation? h) fun _ => .skip moves_expectMemberEnd fun _ =>
          .node rfl (.refl _))
    · cases o with
      | some n => exact .pure (.refl _)
      | none => exact ?named

theorem reads_typeMembers : Reads text (typeMembers r) :=
  .skip .pos fun _ => .skip (.expect _) fun _ =>
    .bind (gives_many (.is _) (reads_typeMember h)) fun _ => .skip (.expect _) fun _ =>
      .node rfl (.refl _)

omit h in
theorem moves_signedModifier (k : Kind) : Moves text (signedModifier k) :=
  .skip (.isOneOf _) fun _ => .ite (.skip .bump fun _ => Moves.expect _)
    (.skip (.eat _) fun _ => .done)

theorem reads_mappedType : Reads text (mappedType r) :=
  .skip .pos fun _ => .skip .bump fun _ => .skip (moves_signedModifier _) fun _ =>
    .skip (.expect _) fun _ => .skip .word fun _ => .skip (.expect _) fun _ =>
      .bind (reads_freshType h) fun _ => .skip (.eat _) fun _ =>
        .optional (reads_freshType h) fun _ => .skip (.expect _) fun _ =>
          .skip (moves_signedModifier _) fun _ => .bind (gives_annotation? h) fun _ =>
            .skip .expectStatementEnd fun _ => .skip (.expect _) fun _ => .node rfl (.refl _)

/-! ### Types -/

omit h in
theorem moves_entityName : Moves text entityName :=
  .skip .word fun _ => .loop (fun _ => []) (.refl _) fun _ => .skip (.eat _) fun _ =>
    .ite (.skip .word fun _ => .done) .done

theorem reads_typeReference : Reads text (typeReference r) :=
  .skip .pos fun _ => .skip moves_entityName fun _ => .bind (gives_closeTypeArguments? h) fun _ =>
    .node rfl (.refl _)

theorem reads_importType : Reads text (importType r) := by
  refine .skip .pos fun lo => .skip .bump fun _ => .skip (.expect _) fun _ =>
    .skip (.eat _) fun _ => .skipUnless .unexpected <| .skip (.eat _) fun _ => ?_
  extract_lets rest
  have hrest (options : List Node) : Gives text options (rest options) fun n => [n] :=
    .skip (.eat _) fun _ => .skip (.expect _) fun _ => .skip (.eat _) fun _ =>
      .skipIf moves_entityName <| .bind (gives_typeArguments? h) fun _ => .node rfl (.refl _)
  exact .ite (.skip (.is _) fun _ => .optional h.fullAssignment hrest) (.bindPure (hrest []))

theorem reads_typeQuery : Reads text (typeQuery r) :=
  .skip .pos fun _ => .skip .bump fun _ => .skip (.is _) fun _ => .ite
    (.bind (reads_importType h) fun _ => .node rfl (.refl _))
    (.skip moves_entityName fun _ => .bind (gives_closeTypeArguments? h) fun _ =>
      .node rfl (.refl _))

theorem reads_tupleElement : Reads text (tupleElement r) :=
  .skip .pos fun _ => .skip
    (.attempt (.skip (.eat _) fun _ => .skip .word fun _ => .skip (.eat _) fun _ =>
      .skip (.expect _) fun _ => .done) (.refl _)) fun _ => .skip (.eat _) fun _ =>
        .bind (reads_freshType h) fun _ => .skip (.eat _) fun _ => .node rfl (.refl _)

omit h in
theorem reads_oneToken : Reads text oneToken :=
  .skip .pos fun _ => .skip .bump fun _ => .leaf

theorem reads_primaryType : Reads text (primaryType r) := by
  refine .skip .pos fun lo => .skip .kind fun k => ?_
  have hfresh : Gives text [] (freshType r >>= fun t => Parser.node .type lo [t])
      fun n => [n] :=
    .bind (reads_freshType h) fun _ => .node rfl (.refl _)
  split
  case h_1 | h_2 | h_3 | h_4 | h_5 => exact reads_oneToken
  case h_6 | h_7 => exact reads_templateOf false (reads_freshType h)
  case h_8 =>
    exact .skip .bump fun _ => .skip (.isOneOf _) fun _ => .skipUnless .unexpected <|
      .skip .bump fun _ => .leaf
  case h_9 =>
    exact reads_importType h
  case h_10 =>
    exact reads_typeQuery h
  case h_11 =>
    exact .skip .bump fun _ => .skip (.is _) fun _ => .skip .lineBreak fun _ =>
      .ite (.skip .bump fun _ => hfresh) .leaf
  case h_12 =>
    exact .skip (.lookAhead _) fun _ => .ite (reads_mappedType h) (reads_typeMembers h)
  case h_13 =>
    exact .skip .bump fun _ => .bind (gives_separated _ (reads_tupleElement h)) fun _ =>
      .skip (.expect _) fun _ => .node rfl (.refl _)
  case h_14 =>
    exact .skip .bump fun _ => .bind (reads_freshType h) fun _ =>
      .skip (.expect _) fun _ => .node rfl (.refl _)
  case h_15 =>
    exact .skip (.peekIs _) fun _ => .ite
      (.skip .bump fun _ => .skip .bump fun _ => .skip (.eat _) fun _ => .ite hfresh .leaf)
      (.skip (.peekIs _) fun _ => .ite reads_oneToken (.ite (reads_typeReference h) .unexpected))

theorem reads_arrayType : Reads text (arrayType r) := by
  refine .skip .pos fun lo => .bind (reads_primaryType h) fun t =>
    .loop (fun t => [t]) (.refl _) fun t => ?_
  exact .skip .lineBreak fun _ => .skip (.is _) fun _ => .ite (.pure (.refl _)) <|
    .skip .bump fun _ => .skip (.eat _) fun _ => .ite
      (.bindNode [] rfl (.refl _) fun _ _ => .pure (.refl _))
      (.bind (reads_freshType h) fun _ => .skip (.expect _) fun _ =>
        .bindNode [] rfl (.refl _) fun _ _ => .pure (.refl _))

theorem reads_inferType : Reads text (inferType r) :=
  .skip .pos fun _ => .skip .bump fun _ => .skip .word fun _ => .skip .read fun _ =>
    .bind (.attempt (f := Option.toList) (.skip (.eat _) fun _ => .ite
      (.bind (reads_plainType h) fun _ => .skip (.is _) fun _ =>
        .ite (.pure (.refl _)) (.pure fun m => by simp)) (.pure (.refl _))) (.refl _)) fun _ =>
      .node rfl (.refl _)

theorem reads_operatorType : Reads text (operatorType r) := by
  refine .skip .pos fun lo => .skip (.loop (fun _ => []) (.refl _) fun _ =>
    .skip (.isOneOf _) fun _ => .ite (.skip .bump fun _ => .done) .done) fun _ =>
      .skip (.is _) fun _ => .choose (reads_inferType h) (reads_arrayType h) fun _ =>
        .ite (.pure (.refl _)) (.node rfl (.refl _))

omit h in
theorem reads_joined (sign : Kind) {part : Parser Node} (hpart : Reads text part) :
    Reads text (joined sign part) := by
  refine .skip .pos fun lo => .skip (.eat _) fun _ => .bind hpart fun t => .skip (.is _) fun _ =>
    .ite ?_ (.pure (.refl _))
  refine .bindOn [] (.loop id (.refl _) fun ts => ?_) (.refl _) fun ts => .node rfl fun m => by simp
  exact .skip (.eat _) fun _ => .ite
    (.bind hpart fun _ => .pure fun m => by simp [Nat.add_comm]) (.pure (.refl _))

theorem reads_unionType : Reads text (unionType r) :=
  reads_joined _ (reads_joined _ (reads_operatorType h))

theorem reads_unconditionalType : Reads text (unconditionalType r) :=
  .skip (moves_atFunctionType) fun _ => .ite (reads_functionType h) <|
    .skip (.is _) fun _ => .ite (reads_functionType h) <|
      .skip (.is _) fun _ => .skip (.peekIs _) fun _ =>
        .ite (reads_functionType h) (reads_unionType h)

theorem reads_type : Reads text (type r) :=
  .skip .pos fun _ => .bind (reads_unconditionalType h) fun _ => .skip .read fun _ =>
    .skip .lineBreak fun _ => .skip (.is _) fun _ => .ite (.pure (.refl _)) <|
      .skip .bump fun _ => .bind (reads_plainType h) fun _ => .skip (.expect _) fun _ =>
        .bind (reads_freshType h) fun _ => .skip (.expect _) fun _ =>
          .bind (reads_freshType h) fun _ => .node rfl (.refl _)

end Phrasebook.Script.Grammar
