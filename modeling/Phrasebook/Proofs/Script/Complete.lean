import Phrasebook.Proofs.Script.Grammar
import Phrasebook.Proofs.Script.Operand
import Phrasebook.Proofs.Script.Stand

/-!
# Reading what writes a text

Characters that write an expression with a known text are read as one with that text, in front of a
sign that ends an expression (`Spelling.isRead`). No rule of the grammar has anything to add to such
an expression. Only sums are read by a loop, once for each of their operators (`Chain`).
-/

namespace Phrasebook.Script

open Text (byteLength)
open Grammar

/-! ### Kinds and forms -/

theorem Kind.beginsText_cases {k : Kind} (h : k.beginsText = true) :
    k = string ∨ k = templateWhole ∨ k = parenOpen := by
  unfold beginsText at h
  split at h <;> simp_all

theorem Kind.beginsOperand_of_beginsText {k : Kind} (h : k.beginsText = true) :
    k.beginsOperand = true ∧ k.isReference = false := by
  rcases beginsText_cases h with rfl | rfl | rfl <;> decide

theorem isPassedOn_of_mayHaveText {form : Form} (h : mayHaveText form = true) :
    form.isPassedOn = true := by
  unfold mayHaveText at h
  split at h <;> first | rfl | cases h

/-! ### Literals -/

theorem mayHaveText_of_textOf {sums : Bool} {e : Node} {text : String}
    (h : textOf sums e = some text) : mayHaveText e.form = true := by
  obtain ⟨form, lo, hi, parts⟩ := e
  cases hform : mayHaveText form with
  | true => exact hform
  | false =>
    have hsome := foldText_of_textOf (by rw [h]; rfl)
    rw [foldText_mk hform] at hsome
    cases hsome

theorem primary_literal (r : Rules) (mode : Mode) {l : Lexer} {kind : Kind} {text : String}
    (hkind : kind = .string ∨ kind = .templateWhole) (hl : l.token = ⟨kind, some text, none⟩)
    (sums : Bool) : ∃ e, primary r mode l = .ok e l.next ∧ textOf sums e = some text := by
  rcases hkind with rfl | rfl
  · refine ⟨.mk (.string (some text)) l.pos l.next.previousEnd [], ?_, by cases sums <;> rfl⟩
    simp [primary, bind_run, Lexer.kind, hl, tokenNode]
  · refine ⟨.mk (.template (some text)) l.pos l.next.previousEnd [], ?_, by cases sums <;> rfl⟩
    simp [primary, bind_run, Lexer.kind, hl, template, templateOf, checkPiece]

/-! ### Sums -/

/-- The operators behind the operand `first`, each with its right operand. -/
inductive Chain (r : Rules) (mode : Mode) (first : Node) (l : Lexer) : Nat → Node → Lexer → Prop
  | refl : Chain r mode first l 0 first l
  | snoc {j : Nat} {e e' : Node} {l' l'' : Lexer} (h : Chain r mode first l j e l')
      (hrun : operator? r 0 e mode l' = .ok (some e') l'') (hpos : l'.here.pos < l''.here.pos) :
      Chain r mode first l (j + 1) e' l''

/-- What is done once for each operator and once behind the last operand. -/
def operatorStep (r : Rules) (left : Node) : Parser (Node × Bool) := do
  match ← operator? r 0 left with
  | some n => return (n, true)
  | none => return (left, false)

namespace Chain

variable {r : Rules} {mode : Mode} {first e : Node} {l l' : Lexer} {j : Nat}

theorem pos_le (h : Chain r mode first l j e l') : l.here.pos + j ≤ l'.here.pos := by
  induction h with
  | refl => exact Nat.le_refl _
  | snoc h hrun hpos ih => omega

theorem iterate (h : Chain r mode first l j e l') (n : Nat) :
    Parser.iterate (operatorStep r) (n + j) first mode l =
      Parser.iterate (operatorStep r) n e mode l' := by
  induction h generalizing n with
  | refl => rfl
  | @snoc j e e' l' l'' h hrun hpos ih =>
    rw [Nat.add_comm j 1, ← Nat.add_assoc, ih (n + 1)]
    simp [Parser.iterate, bind_run, operatorStep, hrun]

theorem operators_run (h : Chain r mode first l j e l') (hl' : l'.kind.endsOperand = true)
    (hprecedence : l'.kind.precedence = 0) (hsize : l'.here.pos ≤ l.size) :
    operators r first 0 mode l = .ok e l' := by
  have hpos := h.pos_le
  obtain ⟨n, hn⟩ : ∃ n, l.remaining = n + 1 + j := by
    refine ⟨l.size - l.here.pos - j, ?_⟩
    unfold Lexer.remaining Lexer.bound
    omega
  change Parser.loop first (operatorStep r) mode l = _
  rw [loop_run, hn, h.iterate]
  simp [Parser.iterate, bind_run, operatorStep, operator?_run hl' (Nat.le_of_eq hprecedence)]

theorem binary_run (h : Chain r mode first l j e l') {start : Lexer}
    (hfirst : mayHaveText first.form = true) (hrun : r.unary mode start = .ok first l)
    (hl' : l'.kind.endsOperand = true) (hprecedence : l'.kind.precedence = 0)
    (hsize : l'.here.pos ≤ l.size) : binary r mode start = .ok e l' := by
  have hoperand : operand r mode start = .ok first l := by
    unfold operand
    rw [hrun]
  simp [binary, bind_run, hoperand, isWholeArrow_run (isPassedOn_of_mayHaveText hfirst),
    h.operators_run hl' hprecedence hsize]

end Chain

theorem operator?_plus {r : Rules} {mode : Mode} {l l' : Lexer} {right : Node}
    (hl : l.kind = .plus) (left : Node) (hrun : r.unary mode l.next = .ok right l')
    (hright : r.operators right Kind.plus.precedence mode l' = .ok right l') :
    operator? r 0 left mode l =
      .ok (some (.mk (.binary true) left.lo right.hi [left, right])) l' := by
  have hprecedence : Kind.plus.precedence ≠ 0 := by decide
  simp [operator?, bind_run, map_run, hl, hrun, hright, hprecedence]

/-! ### Expressions -/

theorem GapText.ne_head {cs : List Char} (h : GapText false cs) :
    ∀ x ∈ cs.head?, x ≠ '+' ∧ x ≠ '=' := by
  intro x hx
  cases h with
  | nil => simp at hx
  | blank hc =>
    obtain rfl := Option.some.inj hx
    exact ⟨fun h => absurd (h ▸ hc) (by decide), fun h => absurd (h ▸ hc) (by decide)⟩
  | block =>
    obtain rfl := Option.some.inj hx
    decide
  | line hs hlines =>
    obtain ⟨c, d, ds, hsign, -, -, hplus, -, hassign, -⟩ := exists_sign hs
    rw [hsign] at hx
    obtain rfl := Option.some.inj hx
    exact ⟨hplus, hassign (hlines.resolve_left (by decide))⟩

theorem beginsGap_of_begins {x : Char} (h : Spelling.begins x = true) : beginsGap x = false := by
  simp only [Spelling.begins, List.contains_eq_mem, decide_eq_true_eq, List.mem_cons,
    List.not_mem_nil, or_false] at h
  rcases h with rfl | rfl | rfl | rfl <;> decide

/-- Neither a gap nor what writes an expression makes a plus into a longer sign. -/
theorem ne_head_of_begins {gap : List Char} {x : Char} (rest : List Char) (h : GapText false gap)
    (hx : Spelling.begins x = true) : ∀ y ∈ (gap ++ x :: rest).head?, y ≠ '+' ∧ y ≠ '=' := by
  intro y hy
  cases gap with
  | nil =>
    obtain rfl := Option.some.inj hy
    exact ⟨fun h => absurd (h ▸ hx) (by decide), fun h => absurd (h ▸ hx) (by decide)⟩
  | cons z zs => exact h.ne_head y hy

theorem BeginsEnd.exists_cons {cs : List Char} (h : BeginsEnd cs) :
    ∃ x rest, cs = x :: rest ∧ beginsGap x = false := by
  cases cs with
  | nil => cases h
  | cons x rest =>
    obtain ⟨kind, hkind, -⟩ := h
    have hsigns : ∀ s ∈ endSigns, beginsGap s.1 = false := by decide
    exact ⟨x, rest, rfl, hsigns (x, kind) hkind⟩

theorem Lexer.Stands.kind_of_beginsEnd {l : Lexer} {cs : List Char} (h : l.Stands cs)
    (hcs : BeginsEnd cs) : l.kind.endsOperand = true := by
  cases cs with
  | nil => cases hcs
  | cons x rest =>
    obtain ⟨kind, hkind, hplus⟩ := hcs
    have hsigns : ∀ s ∈ endSigns, s.2.endsOperand = true := by decide
    rw [(h.sign kind hkind hplus).1]
    exact hsigns _ hkind

/-- The closing parenthesis stands behind a comma and a gap if it is not in hand. -/
theorem Lexer.Stands.exists_parenClose {l : Lexer} {comma rest : List Char}
    (h : l.Stands (comma ++ ')' :: rest))
    (hcomma : comma = [] ∨ ∃ gap, GapText false gap ∧ comma = ',' :: gap) :
    ∃ close : Lexer, close.Stands (')' :: rest) ∧ close.size = l.size ∧
      (l.kind = .parenClose ∧ close = l ∨ l.kind = .comma ∧ close = l.next) := by
  rcases hcomma with rfl | ⟨gap, hgap, rfl⟩
  · exact ⟨l, h, rfl, .inl ⟨(h.sign .parenClose (by decide) (by simp)).1, rfl⟩⟩
  · obtain ⟨hkind, hafter⟩ := h.sign .comma (by decide) (by simp)
    exact ⟨l.next, h.nextSign rfl hafter hgap (by decide), rfl, .inr ⟨hkind, rfl⟩⟩

/-- From the lexer `l` on an expression with the text `text` is read, up to the lexer `l'`. -/
def ReadsText (r : Rules) (mode : Mode) (l l' : Lexer) (sums : Bool) (text : String) : Prop :=
  ∃ first l₁ j e, r.unary mode l = .ok first l₁ ∧ mayHaveText first.form = true ∧
    Chain r mode first l₁ j e l' ∧ l₁.size = l'.size ∧ textOf sums e = some text ∧
      (sums = false → e = first ∧ l₁ = l')

namespace ReadsText

variable {m : Nat} {mode : Mode} {l l' : Lexer} {sums : Bool} {text : String}

/-- An expression that is no sum. -/
theorem of_primary {e : Node} (hl : l.kind.beginsText = true) (hl' : l'.kind.endsOperand = true)
    (he : textOf sums e = some text) (hrun : primary (rules m) mode l = .ok e l') :
    ReadsText (rules (m + 3)) mode l l' sums text :=
  have hform := mayHaveText_of_textOf he
  ⟨e, l', 0, e, unary_of_primary (Kind.beginsOperand_of_beginsText hl).1 hl'
    (isPassedOn_of_mayHaveText hform) hrun, hform, .refl, rfl, he, fun _ => ⟨rfl, rfl⟩⟩

theorem binary_run {r : Rules} (h : ReadsText r mode l l' sums text)
    (hl' : l'.kind.endsOperand = true) (hprecedence : l'.kind.precedence = 0)
    (hsize : l'.here.pos ≤ l'.size) :
    ∃ e, binary r mode l = .ok e l' ∧ textOf sums e = some text := by
  obtain ⟨first, l₁, j, e, hrun, hfirst, hchain, hsame, he, -⟩ := h
  exact ⟨e, hchain.binary_run hfirst hrun hl' hprecedence (hsame ▸ hsize), he⟩

/-- An expression in parentheses, behind which may stand a comma. -/
theorem paren {last : Lexer} (hopen : l.kind = .parenOpen)
    (hfirst : l.next.kind.beginsText = true) (hremaining : 1 < l.next.remaining)
    (h : ReadsText (rules m)
      { mode with allowIn := true, beforeColon := false, arrowAt := some l.next.pos } l.next last
      sums text)
    (hlast : last.kind = .parenClose ∧ l' = last.next ∨
      last.kind = .comma ∧ last.next.kind = .parenClose ∧ l' = last.next.next)
    (hsize : last.here.pos ≤ last.size) (hl' : l'.kind.endsOperand = true) :
    ReadsText (rules (m + 4)) mode l l' sums text := by
  have hk : last.kind.endsOperand = true ∧ last.kind.precedence = 0 := by
    rcases hlast with ⟨hk, -⟩ | ⟨hk, -⟩ <;> rw [hk] <;> exact ⟨rfl, rfl⟩
  obtain ⟨e, hrun, he⟩ := h.binary_run hk.1 hk.2 hsize
  have hform := isPassedOn_of_mayHaveText (mayHaveText_of_textOf he)
  obtain ⟨hfirst, hname⟩ := Kind.beginsOperand_of_beginsText hfirst
  have hassignment :
      assignment (rules m) { mode with allowIn := true, beforeColon := false } l.next =
        .ok e last :=
    assignment_run hfirst (plainAssignment_run hfirst hk.1 (conditional_run hk.1 hform hrun))
  exact of_primary (by rw [hopen]; rfl) hl'
    (e := .mk .paren l.pos l'.previousEnd [e]) (by cases sums <;> exact he)
    (primary_run_paren hopen hfirst hname hremaining hlast hl' hform hassignment)

/-- A sum of an expression and one that is no sum. -/
theorem sum {sign : Lexer} {a b : String} (hleft : ReadsText (rules (m + 1)) mode l sign true a)
    (hsign : sign.kind = .plus) (hright : ReadsText (rules (m + 1)) mode sign.next l' false b)
    (hl' : l'.kind.endsOperand = true) (hpos : sign.here.pos < l'.here.pos)
    (hsize : sign.size = l'.size) : ReadsText (rules (m + 1)) mode l l' true (a ++ b) := by
  obtain ⟨first, l₁, j, left, hrun, hfirst, hchain, hsame, ha, -⟩ := hleft
  obtain ⟨_, l₂, _, right, hrun', -, -, -, hb, hone⟩ := hright
  obtain ⟨rfl, hlast⟩ := hone rfl
  rw [hlast] at hrun'
  have hprecedence : l'.kind.precedence ≤ Kind.plus.precedence := by
    rcases Kind.endsOperand_cases hl' with hk | hk | hk | hk | hk <;> rw [hk] <;> decide
  have hoperator := operator?_plus hsign left hrun' (operators_run hl' hprecedence)
  refine ⟨first, l₁, j + 1, _, hrun, hfirst, hchain.snoc hoperator hpos, hsame.trans hsize, ?_,
    by simp⟩
  replace ha : foldText left = some a := ha
  replace hb : literalText right = some b := hb
  simp [textOf, foldText, ha, hb]

end ReadsText

/-- The characters `cs` are read as an expression with the text `text` wherever a gap and a sign
that ends an expression stand behind them. Four rules may be needed for each character. -/
def IsRead (sums : Bool) (follow : Option Char) (cs : List Char) (text : String) : Prop :=
  ∀ (d : Nat) (gap rest : List Char) (mode : Mode) (l : Lexer), 4 * cs.length ≤ d →
    GapText false gap → (∀ x ∈ follow, gap.head? = some x) → BeginsEnd rest →
      l.Stands (cs ++ (gap ++ rest)) → l.kind.beginsText = true ∧
        ∃ l', ReadsText (rules d) mode l l' sums text ∧ l'.Stands rest ∧ l'.size = l.size

namespace IsRead

variable {sums : Bool} {follow : Option Char} {cs : List Char} {text : String}

theorem literal {kind : Kind} (hcs : LiteralText follow cs kind text) :
    IsRead sums follow cs text := by
  intro d gap rest mode l hd hgap hfollow hrest hl
  obtain ⟨htoken, hafter⟩ := hl.literal hcs fun x hx => by
    rw [List.head?_append, hfollow x hx]
    rfl
  obtain ⟨x, tail, rfl, hx⟩ := hrest.exists_cons
  obtain ⟨hnext, -⟩ := hl.next hafter hgap hx
  have hkind := hcs.kind_cases
  have hbegins : l.kind.beginsText = true := by
    rw [Lexer.kind, htoken]
    rcases hkind with rfl | rfl <;> rfl
  obtain ⟨y, ys, rfl, -⟩ := hcs.exists_cons
  obtain ⟨m, rfl⟩ : ∃ m, d = m + 3 := ⟨d - 3, by rw [List.length_cons] at hd; omega⟩
  obtain ⟨e, hrun, he⟩ := primary_literal (rules m) mode hkind htoken sums
  exact ⟨hbegins, l.next, .of_primary hbegins (hnext.kind_of_beginsEnd hrest) he hrun, hnext, rfl⟩

theorem paren {front back comma : List Char} (hfront : GapText false front)
    (hcs : Spelling sums follow cs text) (hback : GapText false back)
    (hfollow : ∀ x ∈ follow, back.head? = some x)
    (hcomma : comma = [] ∨ ∃ gap, GapText false gap ∧ comma = ',' :: gap)
    (h : IsRead sums follow cs text) :
    IsRead sums none ('(' :: (front ++ (cs ++ (back ++ (comma ++ [')']))))) text := by
  intro d gap rest mode l hd hgap _ hrest hl
  obtain ⟨m, rfl⟩ : ∃ m, d = m + 4 := ⟨d - 4, by rw [List.length_cons] at hd; omega⟩
  simp only [List.length_cons, List.length_append] at hd
  replace hl : l.Stands
      ('(' :: (front ++ (cs ++ (back ++ (comma ++ ')' :: (gap ++ rest)))))) := by simpa using hl
  obtain ⟨hopen, hafter⟩ := hl.paren
  have hinner : l.next.Stands (cs ++ (back ++ (comma ++ ')' :: (gap ++ rest)))) := by
    obtain ⟨y, ys, rfl, hy⟩ := hcs.exists_cons
    exact hl.nextSign rfl hafter hfront (beginsGap_of_begins hy)
  have hends : BeginsEnd (comma ++ ')' :: (gap ++ rest)) := by
    rcases hcomma with rfl | ⟨gap, -, rfl⟩
    · exact ⟨.parenClose, by decide, by simp⟩
    · exact ⟨.comma, by decide, by simp⟩
  obtain ⟨hfirst, last, hreads, hlast, hsize⟩ := h m _ _
    { mode with allowIn := true, beforeColon := false, arrowAt := some l.next.pos } l.next
    (by omega) hback hfollow hends hinner
  obtain ⟨close, hclose, hsame, hshape⟩ := hlast.exists_parenClose hcomma
  obtain ⟨hkind, hafter'⟩ := hclose.sign .parenClose (by decide) (by simp)
  obtain ⟨x, tail, rfl, hx⟩ := hrest.exists_cons
  have hnext := hclose.nextSign rfl hafter' hgap hx
  refine ⟨by rw [hopen]; rfl, close.next, .paren hopen hfirst ?_ hreads ?_ ?_
    (hnext.kind_of_beginsEnd hrest), hnext, hsame.trans hsize⟩
  · have := hinner.length_lt_remaining
    simp only [List.length_append, List.length_cons] at this
    omega
  · rcases hshape with ⟨hk, rfl⟩ | ⟨hk, rfl⟩
    · exact .inl ⟨hk, rfl⟩
    · exact .inr ⟨hk, hkind, rfl⟩
  · have := hlast.size
    omega

theorem sum {follow' : Option Char} {left back front right : List Char} {a b : String}
    (hback : GapText false back) (hfollow : ∀ x ∈ follow, back.head? = some x)
    (hfront : GapText false front) (hright : Spelling false follow' right b)
    (hl : IsRead true follow left a) (hr : IsRead false follow' right b) :
    IsRead true follow' (left ++ (back ++ '+' :: (front ++ right))) (a ++ b) := by
  intro d gap rest mode l hd hgap hfollow' hrest hstands
  simp only [List.length_cons, List.length_append] at hd
  replace hstands : l.Stands
      (left ++ (back ++ '+' :: (front ++ (right ++ (gap ++ rest))))) := by simpa using hstands
  obtain ⟨m, rfl⟩ : ∃ m, d = m + 1 := ⟨d - 1, by omega⟩
  obtain ⟨y, ys, rfl, hy⟩ := hright.exists_cons
  have hplus := ne_head_of_begins (ys ++ (gap ++ rest)) hfront hy
  have hends : BeginsEnd ('+' :: (front ++ (y :: ys ++ (gap ++ rest)))) :=
    ⟨.plus, by decide, fun _ => hplus⟩
  obtain ⟨hbegins, sign, hreads, hsign, hsize⟩ :=
    hl (m + 1) _ _ mode l (by omega) hback hfollow hends hstands
  obtain ⟨hkind, hafter⟩ := hsign.sign .plus (by decide) fun _ => hplus
  have hnext := hsign.nextSign rfl hafter hfront (beginsGap_of_begins hy)
  obtain ⟨-, l', hreads', hl', hsize'⟩ :=
    hr (m + 1) _ _ mode sign.next (by omega) hgap hfollow' hrest hnext
  have hsame : sign.size = l'.size := hsize'.symm
  refine ⟨hbegins, l', hreads.sum hkind hreads' (hl'.kind_of_beginsEnd hrest) ?_ hsame, hl',
    hsame.symm.trans hsize⟩
  have := hsign.size
  have := hl'.size
  have := '+'.utf8Size_pos
  simp only [byteLength, Text.byteLength_append] at *
  omega

end IsRead

/-- What writes an expression is read as it. -/
theorem Spelling.isRead {sums : Bool} {follow : Option Char} {cs : List Char} {text : String}
    (h : Spelling sums follow cs text) : IsRead sums follow cs text := by
  induction h with
  | literal hcs => exact .literal hcs
  | paren hfront hcs hback hfollow hcomma ih => exact .paren hfront hcs hback hfollow hcomma ih
  | sum hleft hback hfollow hfront hright ihleft ihright =>
    exact .sum hback hfollow hfront hright ihleft ihright

end Phrasebook.Script
