import Phrasebook.Proofs.Script.Grammar.Class
import Phrasebook.Proofs.Script.Grammar.Element
import Phrasebook.Script.Grammar.Expression

/-!
# Expressions account for what they read

The body of an arrow function stands behind its arrow, which makes a site of it when its text is
known.
-/

namespace Phrasebook.Script.Grammar

variable {text : List Char} {r : Rules} (h : r.Sound text)

theorem moves_isWholeArrow (n : Node) : Moves text (isWholeArrow n) := by
  unfold isWholeArrow
  split
  · exact .skip .read fun _ => .done
  · exact .done

theorem reads_tokenNode (form : Form) : Reads text (tokenNode form) :=
  .skip .pos fun _ => .skip .bump fun _ => .leaf

theorem rest_of_slash {l : Lexer} (hl : l.On text) (hkind : l.kind = .slash) :
    ∃ cs, l.here.rest = '/' :: cs :=
  ⟨_, (hl.spelled hkind rfl).1⟩

theorem rest_of_slashAssign {c : Cursor} (h : c.startsWith "/=" = true) :
    ∃ cs, c.rest = '/' :: cs := by
  obtain ⟨cs, hcs⟩ := List.isPrefixOf_iff_prefix.mp h
  exact ⟨_, hcs.symm⟩

/-- A regular expression is read again from its first character on. -/
theorem gives_regularExpression : GivesWhen text (fun l => ∃ cs, l.here.rest = '/' :: cs) []
    regularExpression fun n => [n] := by
  refine .modify (fun l hl ⟨cs, hcs⟩ => ⟨hl.rereadRegex hcs, Nat.le_refl _⟩) ?_
  exact .skip (.is _) fun _ => .skipUnless .unexpected (reads_tokenNode _)

theorem reads_privateName : Reads text privateName := by
  refine .skip .get fun l => .skip .bump fun _ => .skip .pos fun _ => ?_
  extract_lets last
  have hlast (u : Unit) : Reads text (last u) := .skip .word fun _ => .leaf
  exact .ite (.skip .unexpected hlast) (hlast ())

include h

/-! ### Primary expressions -/

theorem reads_argument : Reads text (argument r) :=
  .skip .pos fun _ => .skip (.eat _) fun _ => .ite
    (.bind h.fullAssignment fun _ => .node rfl (.refl _)) h.fullAssignment

theorem gives_arguments : Gives text [] (arguments r) id :=
  .skip (.expect _) fun _ => .bind (gives_separated _ (reads_argument h)).adjust fun _ =>
    .skip (.expect _) fun _ => .pure (.refl _)

theorem reads_arrayLiteral : Reads text (arrayLiteral r) := by
  refine .skip .pos fun lo => .skip (.expect _) fun _ => .bind (Gives.adjust <|
    .loop id (.refl _) fun elements => ?_) fun elements => .skip (.expect _) fun _ =>
      .node rfl fun m => by simp
  have hcons (e : Node) : Uses (e :: elements) (elements ++ [e]) := fun m => by
    simp [Nat.add_comm]
  exact .skip (.is _) fun _ => .ite (.pure (.refl _)) <| .skip (.is _) fun _ => .ite
    (.bind (reads_tokenNode _) fun e => .pure (hcons e)) <|
    .bind (reads_argument h) fun e => .skip (.is _) fun _ =>
      .skipUnless (.expect _) (.pure (hcons e))

theorem reads_template (tagged : Bool) : Reads text (template r tagged) :=
  (reads_templateOf tagged h.fullExpression).adjust

/-! ### Arrow functions and parentheses -/

/-- The body of an arrow function is written behind the arrow if its text is known. -/
theorem written_arrowBody (flow : Flow) : ReadsWritten text (arrowBody r flow) := fun start =>
  .still (.is _) fun _ => .ite
    (((Triple.of_yields (.of_gives h.block) h.foldText_block).imp (fun _ h => h)
      fun _ _ => Written.of_none).adjust)
    (h.written_assignment start).adjust

theorem reads_arrowBody (flow : Flow) : Reads text (arrowBody r flow) :=
  .skip (.is _) fun _ => .ite h.block.adjust h.assignment.adjust

theorem gives_arrowFrom (lo : Nat) (flow : Flow) {ns types : List Node} {ps : Node}
    (hu : Uses (ps :: types) ns) :
    GivesLed text .arrow ns (arrowFrom r lo flow ps types) fun n => [n] := by
  intro K hK
  refine .bind (triple_returned (reads_arrowBody h flow) (written_arrowBody h flow) .arrow hK _)
    fun body => triple_node hK fun m => ?_
  have := hu m
  simp only [ownMarks, marksOf_cons, List.count_append] at *
  omega

theorem moves_arrowFrom (lo : Nat) (flow : Flow) (ps : Node) (types : List Node) :
    Moves text (arrowFrom r lo flow ps types) :=
  Gives.skip (.of_gives (reads_arrowBody h flow)) fun _ => Moves.of_still (.node _ _ _)

theorem gives_bareArrow (lo : Nat) (flow : Flow) (param : Node) :
    Gives text [param] (bareArrow r lo flow param) fun n => [n] :=
  .expectLead .arrow (gives_arrowFrom h lo flow (.mk rfl _ _ _))

omit h in
theorem shapes_itemsAsParameters (list : List Item) :
    Shapes (list.map (·.node)) (itemsAsParameters list) id := by
  fun_induction itemsAsParameters list with
  | case1 => exact .pure (.refl _)
  | case2 isPattern lo hi e =>
    exact .bindOn [] (shapes_asPattern _ _) (fun m => by simp (disch := decide)) fun e =>
      .pure fun m => by simp (disch := decide)
  | case3 isPattern n rest _ _ ih => exact Shapes.mono ih fun m => by simp
  | case4 n rest _ _ last ih =>
    have hlast : Shapes (n :: rest.map (·.node)) (last n) id :=
      .bindOn [n] ih (.refl _) fun _ => .pure (.refl _)
    exact hlast
  | case5 isPattern n rest _ _ last _ ih =>
    refine .bindOn (rest.map (·.node)) (shapes_asPattern _ _) (fun m => ?_) fun n =>
      .bindOn [n] ih (fun m => ?_) fun ns => .pure (.refl _)
    all_goals simp [Nat.add_comm]

theorem gives_branches (lo : Nat) (test : Node) :
    Gives text [test] (branches r lo test) fun n => [n] :=
  .bind h.assignment.adjust fun _ => .skip (.expect _) fun _ =>
    .bind h.assignment.adjust fun _ => .node rfl (.refl _)

theorem gives_patternItem (lo : Nat) (e : Node) :
    Gives text [e] (patternItem r lo e) fun i => [i.node] := by
  unfold patternItem
  extract_lets rest
  have hrest {n : Node} (hn : n.form.isPlain = true) :
      Gives text [n] (rest n) fun i => [i.node] :=
    .bindOn [] (gives_annotated h hn) (.refl _) fun _ => .skip (.eat _) fun _ => .ite
      (.bind h.assignment fun _ => .bindNode [] rfl (.refl _) fun _ _ => .pure (.refl _))
      (.pure (.refl _))
  split
  · refine .bindOn [] (shapes_asPattern _ _).gives (fun m => by simp (disch := decide)) fun e =>
      .bindPure ((hrest rfl).mono (.mk rfl _ _ _) fun _ => .refl _)
  · exact .bindOnOf [] (shapes_asPattern _ _).gives (.refl _) (isPlain_asPattern _) fun n hn =>
      hrest hn

theorem gives_item : Gives text [] (item r) fun i => [i.node] := by
  refine .skip .pos fun start => ?_
  extract_lets inside
  refine .skip .skipModifier fun _ => .skip .pos fun lo => .skip .kind fun k =>
    .skip (.is _) fun _ => .skip .peek fun _ => ?_
  extract_lets isNamed rest
  -- whatever the item begins with, a question mark or a type may follow
  have hrest (e : Node) : Gives text [e] (rest e) fun i => [i.node] := by
    refine .skip (.is _) fun _ => ?_
    extract_lets last conditional
    have hlast (u : Unit) : Gives text [e] (last u) fun i => [i.node] :=
      .skip (.is _) fun _ => .ite (gives_patternItem h _ _) (.pure (.refl _))
    have hconditional (u : Unit) : Gives text [e] (conditional u) fun i => [i.node] :=
      .ite (.skip .bump fun _ => .bindOn [] (gives_branches h _ _) (.refl _) fun _ =>
        .pure (.refl _)) (hlast ())
    refine .ite (.skip .peek fun _ => .ite (.skip .bump fun _ => ?_) (hconditional ())) (hlast ())
    split
    · exact gives_patternItem h _ _
    · exact gives_patternItem h _ _
    · exact .skip (.failAt _) hconditional
  refine .ite (.skip (.is _) fun _ => .ite ?spread ?named) (.bind (reads_argument h) hrest)
  case spread =>
    exact .skip .bump fun _ => .bind h.binary.adjust fun e => .bindNode [] rfl (.refl _) fun n _ =>
      hrest n
  case named =>
    exact .bind h.binary.adjust fun e => .skip (.isOneOf _) fun _ => .ite
      (.bindOn [] (h.finishAssignment _ _) (.refl _) hrest) (hrest e)

theorem gives_items : Gives text [] (items r) fun list => list.map (·.node) := by
  refine .skip (.expect _) fun _ => ?_
  extract_lets inside
  refine .bind (Gives.adjust <| .loop (fun list => list.map (·.node)) (.refl _) fun list => ?_)
    fun list => .skip (.expect _) fun _ => .pure fun m => by simp
  have hcons (i : Item) : Uses ((i :: list).map (·.node)) (list.map (·.node) ++ [i.node]) :=
    fun m => by simp [Nat.add_comm]
  exact .skip (.is _) fun _ => .ite (.pure (.refl _)) <| .bind (gives_item h) fun i =>
    .skip (.is _) fun _ => .ite (.pure (hcons i)) (.skip (.expect _) fun _ => .pure (hcons i))

omit h in
theorem shapes_itemsAsExpressions (list : List Item) :
    Shapes (list.map (·.node)) (itemsAsExpressions list) id := by
  unfold itemsAsExpressions
  induction list with
  | nil => exact .pure (.refl _)
  | cons i list ih =>
    rw [List.mapM_cons]
    refine .bindOn (list.map (·.node)) (?_ : Shapes [i.node] _ fun n => [n]) (fun m => ?_)
      fun n => .bindOn [n] ih (fun m => ?_) fun ns => .pure (.refl _)
    · split
      · exact .failAt _
      · exact .pure (.refl _)
    all_goals simp [Nat.add_comm]

theorem gives_arrowInBranch? (lo : Nat) (flow : Flow) (list : List Item) :
    Gives text (list.map (·.node)) (arrowInBranch? r lo flow list)
      fun o => o.elim (list.map (·.node)) fun n => [n] := by
  refine .skip .read fun _ => .skip (.is _) fun _ => .ite (.attemptKeep ?_) (.pure (.refl _))
  refine .bind (reads_resultType h _) fun t => .expectLead .arrow ?_
  refine .bindShapes [t] (shapes_itemsAsParameters list) (fun m => ?_) fun ps =>
    .bindOn [] (gives_arrowFrom h _ _ fun m => ?_) (.refl _) fun n =>
      .skip .read fun _ => .skip (.is _) fun _ => .ite .none (.pure (.refl _))
  · simp [Nat.add_comm]
  · simp (disch := decide) [Nat.add_comm]

theorem gives_arrowResult? : Gives text [] (arrowResult? r) id :=
  .skip .read fun _ => .skip (.is _) fun _ => .ite (.pure (.refl _)) <|
    .bind (f := Option.toList) (.attempt (.bind (reads_resultType h _) fun _ =>
      .skip (.is _) fun _ => .ite (.pure (.refl _)) .none) (.refl _)) fun _ => .pure (.refl _)

theorem reads_parenOrArrow (canBeArrow : Bool) (asyncAt : Option Nat) :
    Reads text (parenOrArrow r canBeArrow asyncAt) := by
  refine .skip .pos fun open_ => ?_
  extract_lets lo flow
  refine .bind (gives_items h) fun list => .skip .previousEnd fun close => ?_
  refine .orElseKeep (gives_arrowInBranch? h _ _ _) (fun _ => rfl) ?_
  refine .bind (gives_arrowResult? h) fun types => .skip (.is _) fun _ => .ite
    (.skip .lineBreak fun _ => ?_) ?_
  · extract_lets last arrow
    -- the parts of the arrow are the items turned into parameters, its types and its body
    have hlast (u : Unit) : Gives text (list.map (·.node) ++ types) (last u) fun n => [n] := by
      refine .expectLead .arrow <| .bindShapes types (shapes_itemsAsParameters list) (fun m => ?_)
        fun ps => .bindOn [] (gives_arrowFrom h _ _ fun m => ?_) (.refl _) fun n =>
          .skip .kind fun _ => .ite (.skip .unexpected fun _ => .pure (.refl _)) (.pure (.refl _))
      · simp [Nat.add_comm]
      · simp (disch := decide) [Nat.add_comm]
    have harrow (u : Unit) : Gives text (list.map (·.node) ++ types) (arrow u) fun n => [n] :=
      .ite (hlast ()) (.skip (.failAt _) hlast)
    exact .ite (.skip .unexpected harrow) (harrow ())
  · cases asyncAt with
    | some at_ => exact .node rfl fun m => by simp
    | none =>
      refine .bindOn [] (shapes_itemsAsExpressions list).gives (fun m => by simp) fun es => ?_
      split
      · exact .failAt _
      · exact .node rfl (.refl _)
      · exact .node rfl (.mk rfl _ _ _)

theorem gives_genericAsyncArrow : Gives text [] (genericAsyncArrow r) Option.toList := by
  refine .attempt (.skip .pos fun lo => .skip .bump fun _ => .skip .lineBreak fun _ =>
    .ite .none ?_) (.refl _)
  refine .bind (reads_typeParameters h) fun tps => .skip (.expect _) fun _ => ?_
  extract_lets flow
  refine .bind (reads_parameters (reads_parameter h)).adjust fun ps => .skip (.expect _) fun _ =>
    .bind (gives_resultType? h _) fun t => .skip .lineBreak fun _ => .ite .none ?_
  refine .expectLead .arrow <| .bindOn [] (gives_arrowFrom h _ _ fun m => ?_) (.refl _) fun n =>
    .pure (.refl _)
  simp
  omega

theorem reads_nameOrArrow : Reads text (nameOrArrow r) := by
  refine .skip .pos fun lo => .skip .read fun mode => ?_
  extract_lets canBeArrow
  refine .skip (.is _) fun isAsync => ?_
  extract_lets named
  have hnamed (u : Unit) : Reads text (named u) := by
    refine .bind reads_wordNode fun n => .skip .lineBreak fun _ => .ite (.pure (.refl _)) <|
      .skip .kind fun _ => .skip .kind fun _ => .ite (.bind reads_wordNode fun p => ?_) <|
        .skip (.is _) fun _ => .ite (gives_bareArrow h _ _ _) (.pure (.refl _))
    refine .skip (.is _) fun _ => .ite (.bind (reads_freshType h) fun t => .node rfl fun m => ?_) <|
      (gives_bareArrow h _ _ _).mono (fun m => ?_) fun _ => .refl _
    · simp
    · simp
  refine .ite (.skip .peek fun next => .ite (reads_functionExpression h) ?_) (hnamed ())
  extract_lets called
  have hcalled (u : Unit) : Reads text (called u) :=
    .ite (.skip .bump fun _ => reads_parenOrArrow h _ _) (hnamed ())
  exact .ite (.orElse (gives_genericAsyncArrow h) (fun _ => rfl) (hcalled ())) (hcalled ())

theorem reads_primary : Reads text (primary r) := by
  refine .get fun l hl => ?_
  split
  case h_1 | h_2 | h_3 | h_4 | h_5 | h_6 | h_7 =>
    exact Gives.when (reads_tokenNode _)
  case h_8 hkind =>
    -- a slash is read again, as the beginning of a regular expression
    exact gives_regularExpression.imp fun _ hl' => hl' ▸ rest_of_slash hl hkind
  case h_9 =>
    exact .ite (fun hstarts => gives_regularExpression.imp fun _ hl' =>
      hl' ▸ rest_of_slashAssign hstarts) .unexpected
  case h_10 | h_11 =>
    exact Gives.when (reads_template h _)
  case h_12 =>
    exact Gives.when (reads_arrayLiteral h)
  case h_13 =>
    exact Gives.when (reads_object h)
  case h_14 =>
    exact Gives.when (reads_functionExpression h)
  case h_15 =>
    exact Gives.when (reads_classFrom h _ _)
  case h_16 =>
    exact Gives.when reads_privateName
  case h_17 =>
    exact Gives.when (.skip .read fun _ => reads_parenOrArrow h _ _)
  case h_18 =>
    exact Gives.when (.ite (reads_nameOrArrow h) .unexpected)

/-! ### Members and calls -/

omit h in
theorem moves_endsInstantiation : Moves text endsInstantiation :=
  .skip .kind fun _ => .ite .done (.skip .lineBreak fun _ => .done)

omit h in
theorem moves_atTemplate : Moves text atTemplate := .isOneOf _

theorem gives_withTypeArguments (e : Node) (noCall : Bool) :
    Gives text [e] (withTypeArguments r e noCall) fun o => o.elim [e] fun n => [n] := by
  refine .attemptKeep <| .bind (reads_typeArguments h) fun t => .skip (.is _) fun _ => .ite ?_ <|
    .skip moves_atTemplate fun _ => .ite ?_ <| .skip moves_endsInstantiation fun _ => .ite ?_ .none
  · exact .bind (gives_arguments h) fun es => .bindNode [] rfl (fun m => by simp; omega)
      fun _ _ => .pure (.refl _)
  · exact .bind (reads_template h _) fun tpl => .bindNode [] rfl (.refl _)
      fun _ _ => .pure (.refl _)
  · exact .bindNode [] rfl (.refl _) fun _ _ => .pure (.refl _)

omit h in
theorem reads_memberName : Reads text memberName :=
  .skip (.is _) fun _ => .ite reads_privateName reads_wordNode

theorem gives_subscriptInBrackets (e : Node) {form : Form} (hform : form.isPlain = true) :
    Gives text [e] (subscriptInBrackets r e form) fun n => [n] :=
  .skip .bump fun _ => .bind h.fullExpression.adjust fun _ => .skip (.expect _) fun _ =>
    .node hform (.refl _)

theorem gives_optionalLink (e : Node) : Gives text [e] (optionalLink r e) fun n => [n] :=
  .skip .bump fun _ => .skip (.is _) fun _ => .ite (gives_subscriptInBrackets h _ rfl) <|
    .bind (gives_typeArguments? h) fun ts => .skip (.is _) fun _ => .ite
      (.bind (gives_arguments h) fun es => .node rfl fun m => by simp; omega) <|
      .skip moves_atTemplate fun _ => .ite
        (.bind (reads_template h _) fun _ => .node rfl fun m => by simp) <|
        .bind reads_memberName fun _ => .node rfl fun m => by simp

theorem gives_subscript? (noCall : Bool) (e : Node) :
    Gives text [e] (subscript? r noCall e) fun o => o.elim [e] fun n => [n] := by
  unfold subscript?
  extract_lets isSuper last
  have hsome {ns : List Node} {p : Parser Node} (hp : Gives text ns p fun n => [n]) :
      Gives text ns (p >>= fun n => pure (some n)) fun o => o.elim [e] fun n => [n] :=
    .bindOn [] hp (.refl _) fun _ => .pure (.refl _)
  have hlast (u : Unit) : Gives text [e] (last u) fun o => o.elim [e] fun n => [n] := by
    refine .skip .kind fun k => ?_
    split
    · exact hsome (gives_optionalLink h _)
    · exact hsome (gives_subscriptInBrackets h _ rfl)
    · exact .ite (.pure (.refl _)) <| .bind (gives_arguments h) fun es =>
        hsome (.node rfl (.refl _))
    · exact .skip .bump fun _ => .bind reads_memberName fun n => hsome (.node rfl (.refl _))
    · exact .bind (reads_template h _) fun tpl => hsome (.node rfl (.refl _))
    · exact .bind (reads_template h _) fun tpl => hsome (.node rfl (.refl _))
    · exact .pure (.refl _)
  refine .skip (.is _) fun _ => .skip .lineBreak fun _ => .ite
    (.skip .bump fun _ => hsome (.node rfl (.refl _))) <| .skip moves_atLess fun _ => .ite
      (.bindOn [] (gives_withTypeArguments h _ _) (.refl _) fun o => ?_) (hlast ())
  cases o with
  | some n => exact .pure (.refl _)
  | none => exact hlast ()

theorem gives_subscripts (noCall : Bool) (e : Node) :
    Gives text [e] (subscripts r noCall e) fun n => [n] := by
  refine .loop (fun e => [e]) (.refl _) fun e => .bindOn [] (gives_subscript? h _ _) (.refl _)
    fun o => ?_
  cases o with
  | some n => exact .pure (.refl _)
  | none => exact .ite (.skip .unexpected fun _ => .pure (.refl _)) (.pure (.refl _))

theorem reads_importExpression (noCall : Bool) : Reads text (importExpression r noCall) := by
  refine .skip .pos fun lo => .skip .bump fun _ => .skip (.eat _) fun _ => .ite ?_ ?_
  · exact .skip .spelling fun _ => .skipUnless .unexpected <| .skip .bump fun _ =>
      .bind .leaf fun n => gives_subscripts h _ _
  · exact .bind (gives_arguments h) fun es => .bindNode [] rfl (.refl _) fun n _ =>
      gives_subscripts h _ _

theorem gives_callTypeArguments? : Gives text [] (callTypeArguments? r) id :=
  .bind (f := Option.toList) (.attempt (.skip moves_atLess fun _ => .ite
    (.bind (reads_typeArguments h) fun _ => .skip (.is _) fun _ => .ite (.pure (.refl _)) .none)
    .none) (.refl _)) fun _ => .pure (.refl _)

theorem reads_construct : Reads text (construct r) := by
  refine .skip .pos fun lo => .skip .bump fun _ => .skip (.eat _) fun _ => .ite ?_ ?_
  · exact .skip .spelling fun _ => .skipUnless .unexpected <| .skip .bump fun _ =>
      .bind .leaf fun n => gives_subscripts h _ _
  · refine .bind h.construction fun callee => .skipIf (.failAt _) <|
      .bind (gives_callTypeArguments? h) fun ts => .skip (.is _) fun _ => .ite
        (.bind (gives_arguments h) fun es => .bindNode [] rfl (fun m => by simp; omega) fun n _ =>
          gives_subscripts h _ _)
        (.node rfl fun m => by simp)

theorem reads_construction : Reads text (construction r) :=
  .skip .kind fun k => by
    split
    · exact reads_construct h
    · exact .bind (reads_tokenNode _) fun n => gives_subscripts h _ _
    · exact reads_importExpression h _
    · exact .bind (reads_primary h) fun e => .skip (moves_isWholeArrow _) fun _ =>
        .ite (.pure (.refl _)) (gives_subscripts h _ _)

theorem reads_leftHandSide : Reads text (leftHandSide r) := by
  refine .skip .read fun mode => .skip (.is _) fun _ => .ite
    (.bind h.element fun e => .skip .bump fun _ => .pure (.refl _)) <| .skip .kind fun k => ?_
  split
  · exact .bind (reads_tokenNode _) fun n => gives_subscripts h _ _
  · exact reads_importExpression h _
  · exact .bind h.construction fun e => .skip (moves_isWholeArrow _) fun _ => .ite (.pure (.refl _))
      <| .ite (.pure (.refl _)) <| .bind (gives_callTypeArguments? h) fun ts =>
        .skip (.is _) fun _ => .ite
          (.bind (gives_arguments h) fun es => .bindNode [] rfl (fun m => by simp; omega) fun n _ =>
            gives_subscripts h _ _)
          (.pure fun m => by simp)

/-! ### Operators -/

theorem reads_awaitExpression : Reads text (awaitExpression r) := by
  refine .skip .pos fun lo => .skip .bump fun _ => .skip (.is _) fun _ => .skipIf .unexpected <|
    .skip .kind fun _ => ?_
  extract_lets ends
  exact .skip .read fun _ => .skip .lineBreak fun _ => .ite .leaf <| .bind h.unary fun e =>
    .node rfl (.refl _)

theorem reads_unary : Reads text (unary r) := by
  refine .skip .pos fun lo => .skip .read fun mode => .skip (.is _) fun _ => .ite ?_ <|
    .skip (.isOneOf _) fun _ => .ite
      (.skip .bump fun _ => .bind h.unary fun e => .node rfl (.refl _)) <|
    .skip (.isOneOf _) fun _ => .ite (.skip .bump fun _ => .bind (f := Option.toList)
      (.recover h.unary (.refl _)) fun e => .node rfl (.refl _)) <|
    .skip (.is _) fun _ => .ite (reads_awaitExpression h) <| .bind h.leftHandSide fun e => ?_
  · exact .skip .bump fun _ => .skip (.is _) fun _ =>
      .choose (reads_tokenNode _) (reads_freshType h) fun t => .skip (.expect _) fun _ =>
        .bind h.unary fun e => .node rfl fun m => by simp [Nat.add_comm]
  · exact .skip (moves_isWholeArrow _) fun _ => .skip .lineBreak fun _ => .ite (.pure (.refl _)) <|
      .skip (.isOneOf _) fun _ => .ite (.skip .bump fun _ => .node rfl (.refl _)) (.pure (.refl _))

theorem gives_operator? (min : Nat) (left : Node) :
    Gives text [left] (operator? r min left) fun o => o.elim [left] fun n => [n] := by
  refine .skip (.isOneOf _) fun _ => .skip .lineBreak fun _ => .ite ?_ ?_
  · exact .skip (.is _) fun _ => .skip .bump fun _ => .skip (.is _) fun _ =>
      .choose (reads_tokenNode _) (reads_freshType h) fun t =>
        .bindNode [] rfl (.refl _) fun _ _ => .pure (.refl _)
  · refine .skip (.is _) fun _ => .skipIf (.modify fun l hl =>
      ⟨hl.rereadGreater, Nat.le_of_eq l.rereadGreater_pos.symm⟩) <| .skip .kind fun k =>
        .skip .read fun mode => .ite (.pure (.refl _)) <| .skip .bump fun _ =>
          .skipIf .unexpected <| .bind h.unary fun e => .bindOn [left] (h.operators _ _) (.refl _)
            fun right => .pure (.mk rfl _ _ _)

theorem gives_operators (left : Node) (min : Nat) :
    Gives text [left] (operators r left min) fun n => [n] := by
  refine .loop (fun left => [left]) (.refl _) fun left =>
    .bindOn [] (gives_operator? h _ _) (.refl _) fun o => ?_
  cases o with
  | some n => exact .pure (.refl _)
  | none => exact .pure (.refl _)

omit h in
/-- What holds of an operand also has to hold when there is none. -/
theorem triple_operand {P : Lexer → Prop} {Q : Node → Lexer → Prop}
    (hunary : Triple text P r.unary Q)
    (hbroken : ∀ l l', l.pos ≤ l'.pos → P l → Q (.mk .broken l'.pos l'.pos []) l') :
    Triple text P (operand r) Q := by
  intro mode l hl h
  have hrun := hunary mode l hl h
  unfold operand
  cases heq : r.unary mode l with
  | ok n l' =>
    rw [heq] at hrun
    exact hrun
  | error e l' =>
    rw [heq] at hrun
    -- where an operator follows, the operand that is missing is a broken one
    cases hgoes : l'.kind.isBinarySign || l'.kind == .kwInstanceof
        || (l'.kind == .kwIn && mode.allowIn) with
    | true =>
      simp only [hgoes, if_true]
      exact ⟨hrun.1, hrun.2, hbroken l l' hrun.2 h⟩
    | false =>
      simp only [hgoes, Bool.false_eq_true, if_false]
      exact hrun

theorem reads_operand : Reads text (operand r) :=
  fun K hK => triple_operand (h.unary K hK) fun _ _ hle haccount =>
    hK.of_count (hK.mono haccount hle) fun m => by simp

theorem reads_binary : Reads text (binary r) :=
  .bind (reads_operand h) fun _ => .skip (moves_isWholeArrow _) fun _ =>
    .ite (.pure (.refl _)) (gives_operators h _ _)

theorem reads_conditional : Reads text (conditional r) :=
  .skip .pos fun _ => .bind (reads_binary h) fun _ => .skip (moves_isWholeArrow _) fun _ =>
    .ite (.pure (.refl _)) <| .skip (.eat _) fun _ => .ite (gives_branches h _ _) (.pure (.refl _))

/-! ### Assignments -/

theorem gives_finishAssignment (lo : Nat) (target : Node) :
    Gives text [target] (finishAssignment r lo target) fun n => [n] := by
  refine .skip (.is _) fun isPlain => .skip (.is _) fun _ => .ite ?_ (.pure (.refl _))
  extract_lets assignTo
  have hassign (target : Node) : Gives text [target] (assignTo target) fun n => [n] :=
    .skipUnless (.failAt _) <| .skip .bump fun _ => .bind h.assignment fun value =>
      .node rfl (.refl _)
  exact .ite (.bindOn [] (shapes_asPattern _ _).gives (.refl _) hassign) (hassign target)

theorem reads_yieldExpression : Reads text (yieldExpression r) :=
  .skip .pos fun _ => .skip .bump fun _ => .skip .lineBreak fun _ => .skip (.is _) fun _ =>
    .skip .kind fun _ => .ite .leaf <| .skip (.eat _) fun _ => .bind h.assignment fun _ =>
      .node rfl (.refl _)

theorem reads_plainAssignment : Reads text (plainAssignment r) := by
  refine .skip .pos fun lo => .skip .read fun mode => .skip (.is _) fun _ => .ite
    (reads_yieldExpression h) <| .bind (reads_conditional h).adjust fun e => ?_
  split
  case h_6 => exact gives_finishAssignment h _ _
  all_goals exact .pure (.refl _)

/-- Type parameters in front of an arrow function do not change what it returns. -/
theorem gives_genericArrow : Gives text [] (genericArrow r) Option.toList := by
  refine .attempt (.skip .pos fun lo => .bindOf (reads_typeParameters h) foldText_typeParameters
    fun tps htps => .bind (reads_plainAssignment h) fun e => ?_) (.refl _)
  split
  · rename_i flow _ hi parts
    refine .pure fun m => ?_
    have : ownMarks (.arrow flow) (parts ++ [tps]) = ownMarks (.arrow flow) parts := by
      rcases parts with - | ⟨p, - | ⟨body, parts⟩⟩
      · rfl
      · simp [ownMarks, markOf, htps]
      · rfl
    simp [this]
    omega
  · exact .none

theorem reads_assignment : Reads text (assignment r) := by
  refine .skip (.is _) fun _ => ?_
  extract_lets last rest
  have hlast (u : Unit) : Reads text (last u) := reads_plainAssignment h
  have hrest (u : Unit) : Reads text (rest u) := .skip .peek fun _ => .ite
    (.orElse (gives_genericArrow h) (fun _ => rfl) (hlast ())) (hlast ())
  refine .ite (.skip .read fun mode => .ite ?_ (hrest ())) (hlast ())
  exact .orElse (.attempt (.map (reads_plainAssignment h) fun _ => .refl _) (.refl _))
    (fun _ => rfl) (hrest ())

theorem reads_expression : Reads text (expression r) := by
  refine .bind (reads_assignment h) fun e => .skip (.is _) fun _ => .ite ?_ (.pure (.refl _))
  refine .bindOn [] (.loop id (.refl _) fun es => ?_) (.refl _) fun es => .node rfl fun m => by simp
  exact .skip (.eat _) fun _ => .ite
    (.bind (reads_assignment h) fun _ => .pure fun m => by simp [Nat.add_comm]) (.pure (.refl _))

end Phrasebook.Script.Grammar
