import Phrasebook.Proofs.Script.Object

/-!
# Reading an import and a call

The import of the default export of a module under the name of a variable is read as such
(`exists_import`), and so is the call of a method of the variable with a literal (`exists_call`).
Both of them together, one behind the other, make a module with these two items
(`exists_parse_importedCall`).
-/

namespace Phrasebook.Script

open Grammar (argument arguments callTypeArguments? construction expressionStatement importItem
  leftHandSide moduleItem primary statement subscript? subscripts)

/-- The name under which an item imports the default export of a module and nothing else. -/
def defaultImport? : Node → Option String
  | .mk (.importItem false) _ _ [.mk (.importBinding false x) _ _ []] => some x
  | _ => none

/-- The variable, the method and the text of a call with a literal that stands alone. -/
def textCall? : Node → Option (String × String × String)
  | .mk .expressionStatement _ _ [.mk .call _ _ [
      .mk .member _ _ [.mk (.name x) _ _ [], .mk (.name f) _ _ []],
      .mk (.string (some s)) _ _ []]] => some (x, f, s)
  | _ => none

section

variable {r : Rules} {mode : Mode} {l l' : Lexer} {e : Node} {x f s : String}

/-! ### Imports -/

theorem moduleItem_run_import (hl : l.kind = .kwImport) (hx : l.next.kind.isWord = true) :
    moduleItem r mode l = importItem r mode l := by
  have hparen : l.next.kind ≠ .parenOpen := ne_of_apply hx rfl
  have hdot : l.next.kind ≠ .dot := ne_of_apply hx rfl
  simp [moduleItem, Parser.peekIs, bind_run, hl, hparen, hdot]

/-- In front of the word `from` and a string any word is a name, also `type`. -/
theorem defaultBinding_run (hx : l.kind.isReference = true) (htext : l.token.text = some x)
    (hfrom : l.next.kind = .kwFrom) (hstring : l.next.next.kind = .string) :
    Grammar.defaultBinding mode l =
      .ok (false, some (.mk (.importBinding false x) l.pos l.next.previousEnd [])) l.next := by
  have hword := Kind.isWord_of_isReference hx
  have hreference : Kind.kwFrom.isReference = true := rfl
  by_cases htype : x = "type" <;>
    simp [Grammar.defaultBinding, Parser.word, Parser.text, Parser.peekIs, bind_run, map_run, hx,
      hword, htext, hfrom, hstring, hreference, htype]

theorem moduleName_run (hstring : l.kind = .string) (hend : l.next.kind = .semicolon) :
    Grammar.moduleName r mode l = .ok [] l.next.next := by
  simp [Grammar.moduleName, Grammar.attributes, Parser.expectStatementEnd, Parser.text, bind_run,
    eat_run, eatStatementEnd_run, hstring, hend]

theorem importItem_run (hx : l.next.kind.isReference = true)
    (htext : l.next.token.text = some x) (hfrom : l.next.next.kind = .kwFrom)
    (hstring : l.next.next.next.kind = .string)
    (hend : l.next.next.next.next.kind = .semicolon) :
    importItem r mode l =
      .ok (.mk (.importItem false) l.pos l.next.next.next.next.next.previousEnd
        [.mk (.importBinding false x) l.next.pos l.next.next.previousEnd []])
        l.next.next.next.next.next := by
  have hno : l.next.kind ≠ .string := ne_of_apply hx rfl
  simp [importItem, bind_run, expect_run, eat_run, defaultBinding_run hx htext hfrom hstring,
    moduleName_run hstring hend, hno, hfrom]

theorem unexpected_run {α : Type} (hl : l.kind ≠ .invalid) :
    (Parser.unexpected : Parser α) mode l = .error ⟨l.pos⟩ l := by
  rw [Parser.unexpected, bind_run, get_run]
  dsimp only
  rw [beq_false_of_ne hl, if_neg Bool.false_ne_true]
  rfl

/-- A word that is no name does not begin a binding. -/
theorem importItem_run_error (hword : l.next.kind.isWord = true)
    (hno : l.next.kind.isReference = false) :
    importItem r mode l = .error ⟨l.next.pos⟩ l.next := by
  have hstring : l.next.kind ≠ .string := ne_of_apply hword rfl
  have hstar : l.next.kind ≠ .star := ne_of_apply hword rfl
  have hbrace : l.next.kind ≠ .braceOpen := ne_of_apply hword rfl
  have hcomma : l.next.kind ≠ .comma := ne_of_apply hword rfl
  have hinvalid : l.next.kind ≠ .invalid := ne_of_apply hword rfl
  simp [importItem, Grammar.defaultBinding, Grammar.otherBindings, bind_run, eat_run, expect_run,
    hno, hstring, hstar, hbrace, hcomma, unexpected_run hinvalid]

/-! ### Members and calls -/

theorem subscript?_run_member (hdot : l.kind = .dot) (hword : l.next.kind.isWord = true)
    (htext : l.next.token.text = some f) (noCall : Bool) :
    subscript? r noCall e mode l =
      .ok (some (.mk .member e.lo l.next.next.previousEnd
        [e, .mk (.name f) l.next.pos l.next.next.previousEnd []])) l.next.next := by
  have hhash : l.next.kind ≠ .hash := ne_of_apply hword rfl
  simp [subscript?, Grammar.atLess, Grammar.memberName, bind_run, map_run, hdot, hhash,
    wordNode_run hword htext]

/-- A call is no part of what is read without calls. -/
theorem subscript?_run_parenOpen (hl : l.kind = .parenOpen) :
    subscript? r true e mode l = .ok none l := by
  simp [subscript?, Grammar.atLess, bind_run, hl]

theorem subscripts_run_member (hdot : l.kind = .dot)
    (hword : l.next.kind.isWord = true) (htext : l.next.token.text = some f)
    (hopen : l.next.next.kind = .parenOpen) (hremaining : 1 < l.remaining) :
    subscripts r true e mode l =
      .ok (.mk .member e.lo l.next.next.previousEnd
        [e, .mk (.name f) l.next.pos l.next.next.previousEnd []]) l.next.next := by
  obtain ⟨n, hn⟩ : ∃ n, l.remaining = n + 2 := ⟨_, (Nat.sub_add_cancel hremaining).symm⟩
  simp [subscripts, loop_run, hn, Parser.iterate, bind_run,
    subscript?_run_member hdot hword htext, subscript?_run_parenOpen hopen, Node.form]

theorem callTypeArguments?_run_parenOpen (hl : l.kind = .parenOpen) :
    callTypeArguments? r mode l = .ok [] l := by
  simp [callTypeArguments?, Parser.attempt, bind_run, Grammar.atLess, hl]

/-- A name with a member behind it, in front of a call. -/
theorem construction_run_member (hl : l.kind.beginsOperand = true)
    (hrun : primary r mode l = .ok e l') (he : e.form.isPassedOn = true)
    (hdot : l'.kind = .dot) (hword : l'.next.kind.isWord = true)
    (htext : l'.next.token.text = some f) (hopen : l'.next.next.kind = .parenOpen)
    (hremaining : 1 < l'.remaining) :
    construction r mode l =
      .ok (.mk .member e.lo l'.next.next.previousEnd
        [e, .mk (.name f) l'.next.pos l'.next.next.previousEnd []]) l'.next.next := by
  simp only [construction, bind_run, kind_run]
  generalize l.kind = k at hl ⊢
  split
  · exact absurd hl (by decide)
  · exact absurd hl (by decide)
  · exact absurd hl (by decide)
  · simp [bind_run, hrun, isWholeArrow_run he,
      subscripts_run_member hdot hword htext hopen hremaining]

theorem arguments_run_string (hopen : l.kind = .parenOpen)
    (htoken : l.next.token = ⟨.string, some s, none⟩) (hclose : l.next.next.kind = .parenClose)
    (hremaining : 1 ≤ l.next.remaining) (m : Nat) :
    arguments (rules (m + 4)) mode l =
      .ok [.mk (.string (some s)) l.next.pos l.next.next.previousEnd []] l.next.next.next := by
  have hkind : l.next.kind = .string := by rw [Lexer.kind, htoken]
  have hargument : argument (rules (m + 4)) { mode with beforeColon := false } l.next =
      .ok (.mk (.string (some s)) l.next.pos l.next.next.previousEnd []) l.next.next :=
    argument_run (by rw [hkind]; rfl) <|
      assignment_of_primary (by rw [hkind]; rfl) (by rw [hclose]; rfl) (by rw [hclose]; rfl) rfl
        (primary_run_string htoken)
  have hseparates : Separates .parenClose (argument (rules (m + 4))) _ l.next _ l.next.next :=
    .last (by rw [hkind]; decide) hargument hclose
  simp [arguments, bind_run, map_run, expect_run, hopen, hclose,
    hseparates.separated_run (by decide) hremaining]

theorem leftHandSide_run_call {es : List Node} (hl : l.kind.beginsOperand = true)
    (hrun : r.construction mode l = .ok e l') (he : e.form = .member)
    (hopen : l'.kind = .parenOpen) {last : Lexer} (hes : arguments r mode l' = .ok es last)
    (hlast : last.kind.endsOperand = true) :
    leftHandSide r mode l = .ok (.mk .call e.lo last.previousEnd (e :: es)) last := by
  have hless : (l.kind == .less) = false := beq_false_of_ne (ne_of_apply hl rfl)
  have harrow : Grammar.isWholeArrow e mode l' = .ok false l' := isWholeArrow_run (by rw [he]; rfl)
  have hform : (Node.mk .call e.lo last.previousEnd (e :: es)).form.isPassedOn = true := rfl
  simp only [leftHandSide, bind_run, read_run, is_run, hless, Bool.and_false, Bool.false_eq_true,
    if_false, kind_run]
  generalize l.kind = k at hl ⊢
  split
  · exact absurd hl (by decide)
  · exact absurd hl (by decide)
  · simp [bind_run, hrun, harrow, he, callTypeArguments?_run_parenOpen hopen, hopen, hes,
      subscripts_run hlast hform]

/-! ### Statements -/

theorem moduleItem_run_name (hl : l.kind.isReference = true) :
    moduleItem r mode l = r.statement true mode l := by
  simp only [moduleItem, bind_run, kind_run]
  generalize l.kind = k at hl ⊢
  split
  · exact absurd hl (by decide)
  · exact absurd hl (by decide)
  · rfl

/-- No word with a member behind it begins a declaration. -/
theorem statement_run_name (hl : l.kind.isReference = true) (hawait : l.kind ≠ .kwAwait)
    (hdot : l.next.kind = .dot) (isDeclaration : Bool) :
    statement r isDeclaration mode l = expressionStatement r mode l := by
  have hno : Kind.dot.isReference = false := rfl
  simp only [statement, bind_run, get_run]
  generalize hk : l.kind = k at hl hawait ⊢
  -- Left are `using`, `await` and `async`, which look at the token behind them.
  split <;> first | exact absurd hl (by decide) | rfl | skip
  · simp [Grammar.atVariables, bind_run, map_run, hk, hdot, hno]
  · exact absurd rfl hawait
  · simp [bind_run, hdot]

/-- The call of a member of a name with a string is a statement with the semicolon behind it. -/
theorem exists_moduleItem_call (d : Nat) (hl : l.kind.isReference = true)
    (hawait : l.kind ≠ .kwAwait) (hx : l.token.text = some x) (hdot : l.next.kind = .dot)
    (hword : l.next.next.kind.isWord = true) (hf : l.next.next.token.text = some f)
    (hopen : l.next.next.next.kind = .parenOpen)
    (hs : l.next.next.next.next.token = ⟨.string, some s, none⟩)
    (hclose : l.next.next.next.next.next.kind = .parenClose)
    (hend : l.next.next.next.next.next.next.kind = .semicolon)
    (hremaining : 1 < l.next.remaining) (hremaining' : 1 ≤ l.next.next.next.next.remaining) :
    ∃ n, moduleItem (rules (d + 8)) mode l = .ok n l.next.next.next.next.next.next.next ∧
      textCall? n = some (x, f, s) := by
  have hbegins : l.kind.beginsOperand = true := by simp [Kind.beginsOperand, hl, hawait]
  have hends : l.next.next.next.next.next.next.kind.endsOperand = true := by rw [hend]; rfl
  -- An arrow function might begin here, so all rules below the assignment run in another mode.
  generalize hmode : ({ mode with allowIn := true, arrowAt := some l.pos } : Mode) = mode'
  have hprimary : primary (rules (d + 3)) mode' l = .ok _ l.next :=
    primary_run_name hl (Kind.isWord_of_isReference hl) hx (by rw [hdot]; rfl)
  have hconstruction : (rules (d + 4)).construction mode' l = .ok _ l.next.next.next :=
    construction_run_member hbegins hprimary rfl hdot hword hf hopen hremaining
  have harguments : arguments (rules (d + 4)) mode' l.next.next.next =
      .ok _ l.next.next.next.next.next.next :=
    arguments_run_string hopen hs hclose hremaining' d
  have hcall : (rules (d + 5)).leftHandSide mode' l = .ok _ l.next.next.next.next.next.next :=
    leftHandSide_run_call hbegins hconstruction rfl hopen harguments hends
  have hunary : (rules (d + 6)).unary mode' l = .ok _ l.next.next.next.next.next.next :=
    unary_run hbegins hends rfl hcall
  rw [← hmode] at hunary
  have hassignment : Grammar.assignment (rules (d + 6)) { mode with allowIn := true } l =
      .ok _ l.next.next.next.next.next.next :=
    assignment_of_unary hbegins hends (by rw [hend]; rfl) rfl hunary
  have hstatement : expressionStatement (rules (d + 7)) mode l = .ok _ _ :=
    expressionStatement_run hend (by simp [Node.form]) (expression_run hend hassignment)
  have hitem : moduleItem (rules (d + 8)) mode l = .ok _ _ :=
    (moduleItem_run_name hl).trans ((statement_run_name hl hawait hdot true).trans hstatement)
  exact ⟨_, hitem, rfl⟩

end

/-! ### Reading known characters -/

section

variable {r : Rules} {mode : Mode} {l : Lexer} {cs ds rest : List Char} {s : String}

theorem Lexer.Stands.kind_isVariable {gap : List Char} {y : Char} (hcs : IsVariable cs)
    (h : l.Stands (cs ++ (gap ++ y :: rest))) (hgap : GapText false gap) (hy : beginsGap y = false)
    (hstops : StopsWord (gap ++ y :: rest)) :
    l.kind.isReference = true ∧ l.kind ≠ .kwAwait ∧ l.token.text = some (String.ofList cs) ∧
      l.next.Stands (y :: rest) := by
  obtain ⟨hword, hreference, hawait⟩ := hcs
  obtain ⟨htoken, hnext⟩ := h.wordNext hword hstops hgap hy
  rw [Lexer.kind, htoken]
  exact ⟨hreference, hawait, rfl, hnext⟩

/-- The beginning of an import under a name. -/
def importOf (name rest : List Char) : List Char :=
  ['i', 'm', 'p', 'o', 'r', 't'] ++ ([' '] ++ (name ++ ([' '] ++ rest)))

/-- The import of the default export of a module under a name. -/
def importFrom (name moduleLiteral rest : List Char) : List Char :=
  importOf name (['f', 'r', 'o', 'm'] ++ ([' '] ++ (moduleLiteral ++ ';' :: rest)))

theorem exists_import (hcs : IsVariable cs) (hds : LiteralText none ds .string s)
    (hl : l.Stands (importFrom cs ds rest)) :
    ∃ (n : Node) (last : Lexer), moduleItem r mode l = .ok n last.next ∧
      defaultImport? n = some (String.ofList cs) ∧ l.kind = .kwImport ∧
      last.Stands (';' :: rest) := by
  have hblank : GapText false [' '] := .blank (by decide) .nil
  have hstops (tail : List Char) : StopsWord ([' '] ++ tail) := stopsWord_cons (by decide) _
  obtain ⟨x, xs, rfl, hx⟩ := hcs.1.exists_cons
  obtain ⟨y, ys, rfl, hy⟩ := hds.beginsGap_head
  obtain ⟨himport, hl₁⟩ := hl.wordNext (by decide) (hstops _) hblank hx
  obtain ⟨hreference, -, htext, hl₂⟩ := hl₁.kind_isVariable hcs hblank (by decide) (hstops _)
  obtain ⟨hfrom, hl₃⟩ :=
    @Lexer.Stands.wordNext _ ['f', 'r', 'o', 'm'] _ _ _ hl₂ (by decide) (hstops _) hblank hy
  obtain ⟨hstring, hl₄⟩ := hl₃.literalNext hds (by decide)
  have hkind : l.kind = .kwImport := by
    rw [Lexer.kind, himport]
    decide
  have hfrom : l.next.next.kind = .kwFrom := by
    rw [Lexer.kind, hfrom]
    decide
  have hstring : l.next.next.next.kind = .string := by rw [Lexer.kind, hstring]
  have hend := (hl₄.sign .semicolon (by decide) (by simp)).1
  exact ⟨_, _, (moduleItem_run_import hkind (Kind.isWord_of_isReference hreference)).trans
    (importItem_run hreference htext hfrom hstring hend), rfl, hkind, hl₄⟩

/-- The call of a method of a variable with a literal. -/
theorem exists_call (d : Nat) (hcs : IsVariable cs) (hds : LiteralText none ds .string s)
    (hl : l.Stands (cs ++ '.' :: 't' :: '(' :: (ds ++ ')' :: ';' :: rest))) :
    ∃ (n : Node) (last : Lexer), moduleItem (rules (d + 8)) mode l = .ok n last.next ∧
      textCall? n = some (String.ofList cs, "t", s) ∧ l.kind ≠ .eof ∧
      last.Stands (';' :: rest) := by
  have hstops {x : Char} (hx : x = '.' ∨ x = '(') (tail : List Char) : StopsWord (x :: tail) :=
    stopsWord_cons (by rcases hx with rfl | rfl <;> decide) tail
  obtain ⟨y, ys, rfl, hy⟩ := hds.beginsGap_head
  obtain ⟨hreference, hawait, htext, hl₁⟩ :=
    @Lexer.Stands.kind_isVariable l cs _ [] '.' hcs hl .nil (by decide) (hstops (.inl rfl) _)
  obtain ⟨hdot, hafter⟩ := hl₁.plain .dot fun _ _ => rfl
  have hl₂ := hl₁.nextAtOnce rfl hafter (by decide)
  obtain ⟨hmethod, hl₃⟩ := @Lexer.Stands.wordNext _ ['t'] _ [] _ hl₂ (by decide)
    (hstops (.inr rfl) _) .nil (by decide)
  obtain ⟨hopen, hafter⟩ := hl₃.paren
  have hl₄ := hl₃.nextAtOnce rfl hafter hy
  obtain ⟨hstring, hl₅⟩ := hl₄.literalNext hds (by decide)
  obtain ⟨hclose, hafter⟩ := hl₅.sign .parenClose (by decide) (by simp)
  have hl₆ := hl₅.nextAtOnce rfl hafter (by decide)
  have hend := (hl₆.sign .semicolon (by decide) (by simp)).1
  have hremaining : 1 < l.next.remaining := by
    have := hl₁.length_lt_remaining
    rw [List.length_cons] at this
    omega
  have hmethodKind : l.next.next.kind.isWord = true := by
    rw [Lexer.kind, hmethod]
    decide
  obtain ⟨n, hrun, hn⟩ := exists_moduleItem_call d hreference hawait htext hdot hmethodKind
    (by rw [hmethod]) hopen hstring hclose hend hremaining
    (Nat.zero_lt_of_lt hl₄.length_lt_remaining)
  exact ⟨n, _, hrun, hn, ne_of_apply hreference rfl, hl₆⟩

theorem items_run_two {depth : Nat} {a b : Node} {l₁ l₂ : Lexer} (hl : l.kind ≠ .eof)
    (hl₁ : l₁.kind ≠ .eof) (hl₂ : l₂.kind = .eof) (hremaining : 2 < l.remaining)
    (ha : moduleItem (rules depth) mode l = .ok a l₁)
    (hb : moduleItem (rules depth) mode l₁ = .ok b l₂) : items depth mode l = .ok [a, b] l₂ := by
  obtain ⟨n, hn⟩ : ∃ n, l.remaining = n + 3 := ⟨_, (Nat.sub_add_cancel hremaining).symm⟩
  simp [items, Parser.many, bind_run, map_run, loop_run, hn, Parser.iterate, hl, hl₁, hl₂, ha, hb]

/-- The import of a module under a name and a call of its method `t`, each on its line. -/
def importedCall (name moduleLiteral textLiteral : List Char) : List Char :=
  importFrom name moduleLiteral
    ('\n' :: (name ++ '.' :: 't' :: '(' :: (textLiteral ++ [')', ';'])))

/-- They are parsed as what they are, and as nothing else. -/
theorem exists_parse_importedCall (jsx : Bool) {ds' : List Char} {s' : String}
    (hcs : IsVariable cs) (hds : LiteralText none ds .string s)
    (hds' : LiteralText none ds' .string s') :
    ∃ a b comments, parse jsx (importedCall cs ds ds') =
        .ok ⟨importedCall cs ds ds', [a, b], comments⟩ ∧
      defaultImport? a = some (String.ofList cs) ∧
      textCall? b = some (String.ofList cs, "t", s') := by
  obtain ⟨l, hl⟩ : ∃ l, Lexer.start (importedCall cs ds ds') = l := ⟨_, rfl⟩
  have hstart : l.Stands (importedCall cs ds ds') := by
    rw [← hl]
    exact start_stands (by decide) (by decide)
  obtain ⟨d, hd⟩ : ∃ d, depthFor l.size = d + 8 :=
    ⟨64 * (l.size + 2) - 8, by unfold depthFor; omega⟩
  obtain ⟨a, l₁, ha, himport, hkind, hl₁⟩ :=
    @exists_import (rules (d + 8)) { jsx } _ _ _ _ _ hcs hds hstart
  obtain ⟨x, xs, rfl, hx⟩ := hcs.1.exists_cons
  obtain ⟨-, hafter⟩ := hl₁.sign .semicolon (by decide) (by simp)
  have hnext := @Lexer.Stands.nextSign _ _ ';' x ['\n'] hl₁ rfl hafter (.blank (by decide) .nil) hx
  obtain ⟨b, l₂, hb, hcall, hkind', hl₂⟩ :=
    @exists_call { jsx } _ (x :: xs) _ _ _ d hcs hds' hnext
  obtain ⟨-, hafter'⟩ := hl₂.sign .semicolon (by decide) (by simp)
  -- behind the second semicolon there is nothing, so there are two items
  have hitems : items (depthFor l.size) { jsx } l = .ok [a, b] l₂.next := by
    rw [hd]
    refine items_run_two (by rw [hkind]; decide) hkind'
      (Lexer.kind_next_of_nil (by rw [hafter'])) ?_ ha hb
    have hlength := hstart.length_lt_remaining
    simp only [importedCall, importFrom, importOf, List.length_append, List.length_cons] at hlength
    omega
  rw [parse_eq_items jsx rfl, hl, hitems]
  exact ⟨a, b, _, rfl, himport, hcall⟩

theorem isWord_ofWord (word : String) : (Kind.ofWord word).isWord = true := by
  have htable : ∀ e ∈ Kind.keywords ++ Kind.contextualWords, e.2.isWord = true := by decide
  rcases ofWord_eq_name_or_mem word with hname | hmem
  · rw [hname]
    rfl
  · exact htable _ hmem

/-- With a word in the place of the name that is no name nothing is parsed, whatever follows. -/
theorem exists_parse_eq_error (jsx : Bool) (hcs : IsWord cs)
    (hno : (Kind.ofWord (String.ofList cs)).isReference = false) (rest : List Char) :
    ∃ failure, parse jsx (importOf cs rest) = .error failure := by
  obtain ⟨l, hl⟩ : ∃ l, Lexer.start (importOf cs rest) = l := ⟨_, rfl⟩
  have hstart : l.Stands (importOf cs rest) := by
    rw [← hl]
    exact start_stands (by decide) (by decide)
  have hstops (tail : List Char) : StopsWord ([' '] ++ tail) := stopsWord_cons (by decide) _
  obtain ⟨x, xs, rfl, hx⟩ := hcs.exists_cons
  obtain ⟨himport, hnext⟩ :=
    hstart.wordNext (by decide) (hstops _) (.blank (by decide) .nil) hx
  obtain ⟨htoken, -⟩ := hnext.word hcs (hstops _)
  have hkind : l.kind = .kwImport := by
    rw [Lexer.kind, himport]
    decide
  have hword : l.next.kind.isWord = true := by
    rw [Lexer.kind, htoken]
    exact isWord_ofWord _
  have hitem : moduleItem (rules (depthFor l.size)) { jsx } l = .error ⟨l.next.pos⟩ l.next :=
    (moduleItem_run_import hkind hword).trans
      (importItem_run_error hword (by rw [Lexer.kind, htoken]; exact hno))
  have hitems : items (depthFor l.size) { jsx } l = .error ⟨l.next.pos⟩ l.next := by
    obtain ⟨n, hn⟩ : ∃ n, l.remaining = n + 1 := ⟨_, rfl⟩
    simp [items, Parser.many, bind_run, map_run, loop_run, hn, Parser.iterate, hkind, hitem]
  rw [parse_eq_items jsx rfl, hl, hitems]
  exact ⟨_, rfl⟩

end

end Phrasebook.Script
