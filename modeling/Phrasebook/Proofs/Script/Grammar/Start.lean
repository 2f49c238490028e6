import Phrasebook.Proofs.Script.Grammar.Statement
import Phrasebook.Script.Grammar.Item

/-!
# Where statements and items begin and end

The node of a statement, an import or an export begins with its first token, and the statement that
an expression makes ends with the last token that was read for it.
-/

namespace Phrasebook.Script

/-- A node that begins at `lo` and, when it is an expression as a statement, ends with the token in
front of that which `l` has in hand. -/
def Spans (lo : Nat) (n : Node) (l : Lexer) : Prop :=
  n.lo = lo ∧ (n.form = .expressionStatement → n.parts ≠ [] → n.hi = l.previousEnd)

theorem Spans.of_form {lo : Nat} {n : Node} {l : Lexer} (hlo : n.lo = lo)
    (hform : n.form ≠ .expressionStatement) : Spans lo n l :=
  ⟨hlo, fun h => absurd h hform⟩

/-- From the place `lo` on, `p` gives a node that begins there. -/
def SpansFrom (lo : Nat) (p : Parser Node) : Prop :=
  ∀ mode l n l', l.pos = lo → p mode l = .ok n l' → Spans lo n l'

namespace SpansFrom

variable {α : Type} {lo : Nat} {p p' : Parser Node} {q : α → Parser Node}

theorem of_leaves (hp : Leaves p (Spans lo)) : SpansFrom lo p :=
  fun mode l n l' _ hrun => hp mode l n l' hrun

theorem leaves (h : ∀ lo, SpansFrom lo p) : Leaves p fun n l => ∃ lo, Spans lo n l :=
  fun mode l n l' hrun => ⟨l.pos, h l.pos mode l n l' rfl hrun⟩

theorem still {p : Parser α} (hp : Still p) (hq : ∀ x, SpansFrom lo (q x)) :
    SpansFrom lo (p >>= q) := by
  intro mode l n l' hpos hrun
  obtain ⟨x, hx⟩ := hp mode l
  rw [bind_run, hx] at hrun
  exact hq x mode l n l' hpos hrun

theorem get {q : Lexer → Parser Node} (hq : ∀ l, l.pos = lo → SpansFrom lo (q l)) :
    SpansFrom lo (get >>= q) :=
  fun mode l n l' hpos hrun => hq l hpos mode l n l' hpos hrun

theorem pos {q : Nat → Parser Node} (hq : Leaves (q lo) (Spans lo)) :
    SpansFrom lo (Parser.pos >>= q) := by
  rintro mode l n l' rfl hrun
  exact hq mode l n l' hrun

theorem ite {c : Prop} [Decidable c] (h : SpansFrom lo p) (h' : SpansFrom lo p') :
    SpansFrom lo (if c then p else p') := by
  split
  · exact h
  · exact h'

theorem unexpected : SpansFrom lo (Parser.unexpected : Parser Node) := of_leaves .unexpected

end SpansFrom

namespace Grammar

variable {r : Rules} {lo : Nat}

theorem spans_node (form : Form) (parts : List Node) :
    Leaves (Parser.node form lo parts) (Spans lo) :=
  .node fun _ => ⟨rfl, fun _ _ => rfl⟩

theorem spansFrom_braced (one : Parser Node) : SpansFrom lo (braced one) :=
  .pos <| .bind fun _ => .bind fun _ => .bind fun _ => spans_node _ _

theorem spansFrom_variableList (inHead : Bool) : SpansFrom lo (variableList r inHead) := by
  refine .pos <| .bind fun _ => .bind fun _ => .bind fun _ => .ite (spans_node _ _) ?_
  extract_lets within
  refine .bind fun ds => ?_
  extract_lets last
  have hlast (u : Unit) : Leaves (last u) (Spans lo) := spans_node _ _
  exact .ite (hlast ()) <| .bind fun _ => .ite (hlast ()) (.bind hlast)

theorem spansFrom_functionDeclaration : SpansFrom lo (functionDeclaration r) :=
  .pos <| .bind fun _ => .bind fun _ => spans_node _ _

/-! ### Declarations -/

theorem spans_enumFrom : Leaves (enumFrom r lo) (Spans lo) :=
  .bind fun _ => .bind fun _ => .bind fun _ => .bind fun _ => spans_node _ _

theorem spans_constEnum : Leaves (constEnum r lo) (Spans lo) :=
  .bind fun _ => .bind fun _ => spans_enumFrom

theorem spans_classDeclaration : Leaves (classDeclaration r lo) (Spans lo) :=
  .bind fun _ => spans_node _ _

theorem spans_declarationNamed (word : String) (inHand : Bool) :
    Leaves (declarationNamed r lo word inHand) fun o l => ∀ d ∈ o, Spans lo d l := by
  unfold declarationNamed
  extract_lets broken skip named
  have hinterface : Leaves (interfaceFrom r lo) (Spans lo) :=
    .bind fun _ => .bind fun _ => .bind fun _ => .bind fun _ => spans_node _ _
  have halias : Leaves (aliasFrom r lo) (Spans lo) :=
    .bind fun _ => .bind fun _ => .bind fun _ => .bind fun _ => .bind fun _ => spans_node _ _
  have hnamespace : Leaves (namespaceFrom r lo) (Spans lo) :=
    .bind fun _ => .bind fun _ => spans_node _ _
  have hmodule : Leaves (ambientModule r lo) (Spans lo) :=
    .bind fun _ => .bind fun _ => .ite (.bind fun _ => spans_node _ _)
      (.bind fun _ => spans_node _ _)
  split
  · exact .bind fun _ => .bind fun _ =>
      .ite (.bind fun _ => .bindSome spans_classDeclaration) .none
  · exact .bind fun _ => .ite (.bind fun _ => .bindSome spans_enumFrom) .none
  · exact .bind fun _ => .ite (.bind fun _ => .bindSome hinterface) .none
  · exact .bind fun _ => .ite .none <| .bind fun _ => .bind fun _ => .ite (.bindSome hmodule) <|
      .bind fun _ => .ite (.bindSome hnamespace) .none
  · exact .bind fun _ => .ite (.bind fun _ => .bindSome hnamespace) .none
  · exact .bind fun _ => .ite .none <| .bind fun _ => .ite (.bind fun _ => .bindSome halias) .none
  · exact .none

theorem spans_ambientDeclaration :
    Leaves (ambientDeclaration r lo) fun o l => ∀ d ∈ o, Spans lo d l := by
  refine .adjust <| .bind fun k => ?_
  extract_lets last
  have hlast (d : Option Node) : Leaves (last d) fun o l => ∀ d ∈ o, Spans lo d l :=
    .pure fun l n hn => by
      obtain ⟨d, -, rfl⟩ := Option.map_eq_some_iff.mp hn
      exact .of_form rfl (by simp [Node.form])
  split
  case h_3 =>
    exact .bind fun _ => .ite (.bind hlast) (.bind hlast)
  case h_7 =>
    exact .ite (.bind fun _ => .bind hlast) (hlast none)
  all_goals exact .bind hlast

theorem spans_declarationBehind (name : String) :
    Leaves (declarationBehind r lo name) fun o l => ∀ d ∈ o, Spans lo d l := by
  unfold declarationBehind
  split
  · exact spans_ambientDeclaration
  · exact .bind fun _ => .ite (.bind fun _ => .bindSome (spans_node _ _)) .none
  · exact spans_declarationNamed _ _

/-! ### Statements -/

theorem spansFrom_expressionStatement : SpansFrom lo (expressionStatement r) := by
  refine .pos <| .bind fun e => ?_
  extract_lets last rest
  have hlast (u : Unit) : Leaves (last u) (Spans lo) := .bind fun _ => spans_node _ _
  have hrest (u : Unit) : Leaves (rest u) (Spans lo) :=
    .bind fun _ => .ite (spans_node _ _) <| .bind fun _ => .ite (hlast ()) (.bind hlast)
  split
  · refine .bind fun _ => .ite (.bind fun _ => ?_)
      (.orElse (spans_declarationBehind _) (fun _ => rfl) (hrest ()))
    exact .ite (.bind fun _ => spans_node _ _) (.bind fun _ => spans_node _ _)
  · exact hrest ()

theorem spansFrom_importStatement : SpansFrom lo (importStatement r) :=
  .pos <| .bind fun _ => .bind fun _ => spans_node _ _

theorem spansFrom_statement (hblock : SpansFrom lo r.block) (isDeclaration : Bool) :
    SpansFrom lo (statement r isDeclaration) := by
  refine .get fun l hl => ?_
  subst hl
  split
  case h_1 =>
    exact hblock
  case h_2 =>
    exact .pos <| .bind fun _ => spans_node _ _
  case h_3 | h_4 =>
    exact .pos <| .bind fun _ => .bind fun _ => .ite (spans_node _ _) <|
      .bind fun _ => .bind fun _ => spans_node _ _
  case h_5 =>
    exact .of_leaves <| .bind fun _ => .bind fun _ => spans_node _ _
  case h_6 =>
    exact .pos <| .bind fun _ => .bind fun _ => .bind fun _ => .bind fun _ => .bind fun _ =>
      spans_node _ _
  case h_7 =>
    exact .pos <| .bind fun _ => .bind fun _ => .bind fun _ => .bind fun _ => .bind fun _ =>
      .bind fun _ => spans_node _ _
  case h_8 =>
    exact spansFrom_functionDeclaration
  case h_9 =>
    exact .of_leaves spans_classDeclaration
  case h_10 =>
    exact .pos <| .bind fun _ => .bind fun _ => .bind fun _ => .bind fun _ => .ite
      (.bind fun _ => spans_node _ _) (spans_node _ _)
  case h_11 =>
    refine .pos <| .bind fun _ => .bind fun _ => ?_
    extract_lets rest
    have hrest (es : List Node) : Leaves (rest es) (Spans l.pos) := .bind fun _ => spans_node _ _
    exact .ite (hrest []) (.bind fun e => hrest [e])
  case h_12 =>
    exact .pos <| .bind fun _ => .bind fun _ => .bind fun _ => .bind fun _ => .bind fun _ =>
      spans_node _ _
  case h_13 =>
    exact .pos <| .bind fun _ => .bind fun _ => .skipIf <| .bind fun _ => .bind fun _ =>
      spans_node _ _
  case h_14 =>
    exact .pos <| .bind fun _ => .bind fun _ => .bind fun _ => .bind fun _ => spans_node _ _
  case h_15 | h_16 =>
    exact .get fun l' hl' => .of_leaves <| .bind fun _ => .bind fun _ =>
      .pure fun _ => ⟨hl', fun _ hparts => absurd rfl hparts⟩
  case h_17 | h_18 =>
    exact .pos <| .bind fun _ => .bind fun _ => .bind fun _ => spans_node _ _
  case h_19 =>
    exact .still (.peekIs _) fun _ => .still (.peekIs _) fun _ =>
      .ite spansFrom_importStatement .unexpected
  case h_20 =>
    exact .unexpected
  case h_21 =>
    exact spansFrom_variableList _
  case h_22 =>
    exact .still (.peekIs _) fun _ => .ite (.of_leaves spans_constEnum) <|
      .ite (spansFrom_variableList _) .unexpected
  case h_23 | h_24 =>
    exact .still still_atVariables fun _ =>
      .ite (spansFrom_variableList _) spansFrom_expressionStatement
  case h_25 =>
    refine .still .peek fun _ => .ite (.of_leaves <| .bind fun _ => ?_)
      spansFrom_expressionStatement
    -- the node keeps all but the beginning of that of the variables
    refine .bindAt (SpansFrom.leaves fun _ => spansFrom_variableList false) ?_
    rintro v l' ⟨lo, -, hhi⟩ mode n l'' hrun
    cases hrun
    exact ⟨rfl, hhi⟩
  case h_26 =>
    exact .still .peek fun _ => .ite spansFrom_functionDeclaration spansFrom_expressionStatement
  case h_27 =>
    exact spansFrom_expressionStatement

/-! ### Items -/

theorem spans_importEquals (typeOnly : Bool) (binding : List Node) :
    Leaves (importEquals lo typeOnly binding) (Spans lo) := by
  refine .bind fun _ => .bind fun _ => ?_
  extract_lets rest
  have hrest (u : Unit) : Leaves (rest u) (Spans lo) := .bind fun _ => spans_node _ _
  exact .ite (.bind fun _ => .bind fun _ => .bind fun _ => .skipUnless (.bind hrest))
    (.bind fun _ => hrest ())

theorem spansFrom_importItem : SpansFrom lo (importItem r) := by
  refine .pos <| .bind fun _ => .bind fun _ => .ite (.bind fun _ => spans_node _ _) <|
    .bind fun x => ?_
  split
  rename_i typeOnly first
  extract_lets last rest
  have hlast (others : List Node) : Leaves (last others) (Spans lo) :=
    .bind fun _ => .bind fun _ => spans_node _ _
  have hrest (u : Unit) : Leaves (rest u) (Spans lo) :=
    .bind fun _ => .ite (.bind hlast) (hlast [])
  exact .ite (.bind fun _ => .ite (spans_importEquals _ _) (hrest ())) (hrest ())

theorem spans_exportList : Leaves (exportList r lo) (Spans lo) := by
  refine .bind fun _ => .ite ?_ ?_
  · exact .bind fun _ => .skipIf <| .bind fun _ => .bind fun _ => spans_node _ _
  · exact .bind fun _ => .bind fun _ => .bind fun _ => .bind fun _ => .ite
      (.bind fun _ => spans_node _ _) (.bind fun _ => spans_node _ _)

theorem spans_defaultDeclaration (start : Nat) (f : Node) :
    Leaves (defaultDeclaration lo start f) (Spans lo) :=
  .bind fun _ => spans_node _ _

theorem spans_exportDefault : Leaves (exportDefault r lo) (Spans lo) :=
  .bind fun _ => .bind fun _ => .bind fun _ => .ite
    (.bind fun _ => .bind (spans_defaultDeclaration _)) <|
  .bind fun _ => .ite (.bind fun _ => .bind fun _ => spans_node _ _) <|
  .bind fun _ => .ite (.bind (spans_defaultDeclaration _)) <| .bind fun _ => .bind fun _ => .ite
    (.bind fun _ => .bind (spans_defaultDeclaration _))
    (.bind fun _ => .bind fun _ => spans_node _ _)

theorem spans_exportedImport : Leaves (exportedImport lo) (Spans lo) := by
  refine .bind fun _ => .bind fun _ => ?_
  extract_lets typeOnly rest
  have hrest (u : Unit) : Leaves (rest u) (Spans lo) :=
    .bind fun _ => .bind fun _ => .bind fun _ => .bind fun _ => spans_importEquals _ _
  exact .ite (.bind hrest) (hrest ())

theorem spansFrom_exportItem : SpansFrom lo (exportItem r) := by
  refine .pos <| .bind fun _ => .bind fun _ => .bind fun _ => ?_
  extract_lets others named
  have hothers (u : Unit) : Leaves (others u) (Spans lo) :=
    .bind fun _ => .ite spans_exportedImport <|
      .bind fun _ => .ite (.bind fun _ => .bind fun _ => spans_node _ _) <|
      .bind fun _ => .ite (.bind fun _ => .bind fun _ => .bind fun _ => spans_node _ _) <|
      .bind fun _ => .ite spans_exportList <|
      .bind fun _ => .ite spans_exportDefault <|
      .whether (fun _ => spans_node _ _) spans_exportList
  have hnamed (u : Unit) : Leaves (named u) (Spans lo) :=
    .bind fun _ => .ite (.whether (fun _ => spans_node _ _) (hothers ())) (hothers ())
  exact .ite (.whether (fun _ => spans_node _ _) (hnamed ())) (hnamed ())

theorem spansFrom_moduleItem (hstatement : SpansFrom lo (r.statement true)) :
    SpansFrom lo (moduleItem r) := by
  refine .still .kind fun k => ?_
  split
  · exact .still (.peekIs _) fun _ => .still (.peekIs _) fun _ =>
      .ite spansFrom_importStatement spansFrom_importItem
  · exact spansFrom_exportItem
  · exact hstatement

end Grammar

end Phrasebook.Script
