import Phrasebook.Proofs.Script.Alone
import Phrasebook.Text.Split
import Mathlib.Data.List.Forall2

/-!
# Object literals and their values

The members of an object literal are names, which stand for a key and a variable, and keys with a
value behind a colon. A later member wins over an earlier one with its key (`valueAt`). What writes
such members with commas between them is parsed as an object literal with these members
(`membersAlone_eq`).
-/

namespace Phrasebook.Script

open Grammar (key object property namedProperty nameOrArrow primary tokenNode)
open Text (byteLength length_le_byteLength)

/-! ### Values -/

/-- What a key is bound to. -/
inductive Bound where
  | text (s : String)
  /-- The value of the variable with this name. -/
  | var (name : String)
deriving DecidableEq, Repr

def Bound.ofNode? : Node → Option Bound
  | .mk (.string s) _ _ _ => s.map .text
  | .mk (.name x) _ _ _ => some (.var x)
  | _ => none

def keyText? : Node → Option String
  | .mk (.string s) _ _ _ => s
  | .mk (.name x) _ _ _ => some x
  | _ => none

/-- A key that sets the prototype of an object when a colon stands behind it. -/
def prototypeKey : String := "__proto__"

/-- The key and the value of a member. -/
def member? : Node → Option (String × Bound)
  | .mk .shorthand _ _ [.mk (.name x) _ _ _] => some (x, .var x)
  | .mk .property _ _ [k, v] => do
    let name ← keyText? k
    if name = prototypeKey then none else return (name, ← Bound.ofNode? v)
  | _ => none

/-- What an object with these members has under a key: the last member with the key counts. -/
def valueAt (members : List (String × Bound)) (key : String) : Option Bound :=
  members.reverse.lookup key

theorem valueAt_append (front back : List (String × Bound)) (key : String) :
    valueAt (front ++ back) key = (valueAt back key).or (valueAt front key) := by
  rw [valueAt, List.reverse_append, List.lookup_append]
  rfl

theorem mem_of_valueAt {members : List (String × Bound)} {key : String} {v : Bound}
    (h : valueAt members key = some v) : (key, v) ∈ members := by
  obtain ⟨front, back, hsplit, -⟩ := List.lookup_eq_some_iff.mp h
  rw [← List.mem_reverse, hsplit]
  simp

theorem valueAt_isSome {members : List (String × Bound)} {key : String} {v : Bound}
    (h : (key, v) ∈ members) : (valueAt members key).isSome = true := by
  cases hvalue : valueAt members key with
  | some w => rfl
  | none =>
    have := List.lookup_eq_none_iff.mp hvalue (key, v) (List.mem_reverse.mpr h)
    simp at this

/-- No member is hidden where members with one key have one value. -/
theorem valueAt_eq_some_iff {members : List (String × Bound)} {key : String} {v : Bound}
    (h : ∀ w, (key, v) ∈ members → (key, w) ∈ members → w = v) :
    valueAt members key = some v ↔ (key, v) ∈ members := by
  refine ⟨mem_of_valueAt, fun hv => ?_⟩
  obtain ⟨w, hw⟩ := Option.isSome_iff_exists.mp (valueAt_isSome hv)
  rw [hw, h w hv (mem_of_valueAt hw)]

/-- The members of an object literal that stands alone between parentheses. -/
def membersAlone (jsx : Bool) (cs : List Char) : Option (List (String × Bound)) :=
  match parse jsx ('(' :: (cs ++ [')', ';'])) with
  | .ok ⟨_, [.mk .expressionStatement _ _ [.mk .paren _ _ [.mk .object _ _ ps]]], _⟩ =>
    ps.mapM member?
  | _ => none

/-! ### What writes a member -/

/-- The characters of a word that may name a variable in a module. -/
def IsVariable (cs : List Char) : Prop :=
  IsWord cs ∧ (Kind.ofWord (String.ofList cs)).isReference = true ∧
    Kind.ofWord (String.ofList cs) ≠ .kwAwait

instance (cs : List Char) : Decidable (IsVariable cs) := inferInstanceAs (Decidable (_ ∧ _ ∧ _))

inductive KeyText : List Char → String → Prop
  | word {cs : List Char} (h : IsWord cs) (hkind : (Kind.ofWord (String.ofList cs)).isWord = true) :
      KeyText cs (String.ofList cs)
  | literal {cs : List Char} {s : String} (h : LiteralText none cs .string s) : KeyText cs s

inductive BoundText : List Char → Bound → Prop
  | word {cs : List Char} (h : IsVariable cs) : BoundText cs (.var (String.ofList cs))
  | literal {cs : List Char} {s : String} (h : LiteralText none cs .string s) :
      BoundText cs (.text s)

/-- The characters write a member with this key and this value. -/
inductive MemberText : List Char → String × Bound → Prop
  | shorthand {cs : List Char} (h : IsVariable cs) :
      MemberText cs (String.ofList cs, .var (String.ofList cs))
  | pair {front back : List Char} {k : String} {v : Bound} (hk : KeyText front k)
      (hproto : k ≠ prototypeKey) (hv : BoundText back v) :
      MemberText (front ++ ':' :: ' ' :: back) (k, v)

/-! ### Elements with commas between them -/

section

variable {close : Kind} {element : Parser Node} {mode : Mode} {l l' : Lexer} {ns : List Node}

/-- Elements with commas between them, up to a token `close`. -/
inductive Separates (close : Kind) (element : Parser Node) (mode : Mode) :
    Lexer → List Node → Lexer → Prop
  | last {l l' : Lexer} {n : Node} (hl : l.kind ≠ close) (hrun : element mode l = .ok n l')
      (hl' : l'.kind = close) : Separates close element mode l [n] l'
  | cons {l l' l'' : Lexer} {n : Node} {ns : List Node} (hl : l.kind ≠ close)
      (hrun : element mode l = .ok n l') (hl' : l'.kind = .comma)
      (h : Separates close element mode l'.next ns l'') :
      Separates close element mode l (n :: ns) l''

/-- What is done once for each element. -/
def elementStep (close : Kind) (element : Parser Node) (nodes : List Node) :
    Parser (List Node × Bool) := do
  if ← Parser.is close then return (nodes, false)
  let nodes := (← element) :: nodes
  if ← Parser.is close then return (nodes, false)
  Parser.expect .comma
  return (nodes, true)

theorem Separates.iterate (hclose : close ≠ .comma) (h : Separates close element mode l ns l')
    (acc : List Node) {fuel : Nat} (hfuel : ns.length ≤ fuel) :
    Parser.iterate (elementStep close element) fuel acc mode l = .ok (ns.reverse ++ acc) l' := by
  induction h generalizing acc fuel with
  | last hl hrun hl' =>
    obtain ⟨n, rfl⟩ : ∃ n, fuel = n + 1 := ⟨fuel - 1, by rw [List.length_singleton] at hfuel; omega⟩
    simp [Parser.iterate, elementStep, bind_run, hl, hrun, hl']
  | @cons l l' l'' e ns hl hrun hl' h ih =>
    rw [List.length_cons] at hfuel
    obtain ⟨n, rfl⟩ : ∃ n, fuel = n + 1 := ⟨fuel - 1, by omega⟩
    have hstep : elementStep close element acc mode l = .ok (e :: acc, true) l'.next := by
      simp [elementStep, bind_run, map_run, expect_run, hl, hrun, hl', hclose.symm]
    rw [Parser.iterate, bind_run, hstep, List.reverse_cons, List.append_assoc]
    exact ih _ (by omega)

theorem Separates.separated_run (hclose : close ≠ .comma)
    (h : Separates close element mode l ns l') (hremaining : ns.length ≤ l.remaining) :
    Parser.separated close element mode l = .ok ns l' := by
  change (Parser.loop [] (elementStep close element) >>= fun nodes => pure nodes.reverse) mode l = _
  simp [bind_run, loop_run, h.iterate hclose [] hremaining]

end

/-! ### Members -/

/-- Tokens behind a key that is written in full. -/
def Kind.endsKey : Kind → Bool
  | .colon | .comma | .braceClose => true
  | _ => false

/-- Tokens behind a member. -/
def Kind.endsMember : Kind → Bool
  | .comma | .braceClose => true
  | _ => false

theorem Kind.endsMember_cases {k : Kind} (h : k.endsMember = true) :
    k = comma ∨ k = braceClose := by
  unfold endsMember at h
  split at h <;> simp_all

/-- Tokens behind a name that is a primary expression. -/
def Kind.endsName (k : Kind) : Bool := k.endsMember || k == .dot

theorem Kind.endsName_of_endsMember {k : Kind} (h : k.endsMember = true) : k.endsName = true := by
  rw [endsName, h, Bool.true_or]

theorem Kind.endsName_cases {k : Kind} (h : k.endsName = true) :
    k = comma ∨ k = braceClose ∨ k = dot := by
  rcases Bool.or_eq_true_iff.mp h with h | h
  · exact (endsMember_cases h).imp_right .inl
  · exact .inr (.inr (beq_iff_eq.mp h))

section

variable {r : Rules} {mode : Mode} {l l' : Lexer} {x : String} {k v : Node}

theorem wordNode_run (hkind : l.kind.isWord = true) (htext : l.token.text = some x) :
    Parser.wordNode mode l = .ok (.mk (.name x) l.pos l.next.previousEnd []) l.next := by
  simp [Parser.wordNode, Parser.word, Parser.text, bind_run, map_run, hkind, htext]

theorem key_run_word (hkind : l.kind.isWord = true) (htext : l.token.text = some x) :
    key r mode l = .ok (.mk (.name x) l.pos l.next.previousEnd []) l.next := by
  have hrun : Parser.wordNode mode l = .ok _ l.next := wordNode_run hkind htext
  simp only [key, bind_run, kind_run]
  generalize l.kind = kind at hkind ⊢
  split
  · exact absurd hkind (by decide)
  · exact absurd hkind (by decide)
  · exact absurd hkind (by decide)
  · exact absurd hkind (by decide)
  · exact hrun

theorem key_run_string (htoken : l.token = ⟨.string, some x, none⟩) :
    key r mode l = .ok (.mk (.string (some x)) l.pos l.next.previousEnd []) l.next := by
  simp [key, Grammar.literalKey, bind_run, Lexer.kind, htoken]

/-- A word in front of these tokens is no modifier of what follows it. -/
theorem skipModifier_of_endsKey (hnext : l.next.kind.endsKey = true) :
    Parser.skipModifier mode l = .ok () l := by
  have hnot : (l.next.kind.isWord || l.next.kind == .braceOpen || l.next.kind == .bracketOpen) =
      false := by
    generalize l.next.kind = kind at hnext ⊢
    unfold Kind.endsKey at hnext
    split at hnext <;> first | rfl | cases hnext
  simp only [Parser.skipModifier, bind_run, isOneOf_run]
  split
  · simp only [bind_run, peek_run, hnot, Bool.false_eq_true, if_false, pure_run]
  · rfl

theorem property_run_shorthand (hkind : l.kind.isWord = true) (htext : l.token.text = some x)
    (hnext : l.next.kind.endsMember = true) :
    property r mode l = .ok (.mk .shorthand l.pos l.next.previousEnd
      [.mk (.name x) l.pos l.next.previousEnd []]) l.next := by
  have hellipsis : l.kind ≠ .ellipsis := ne_of_apply hkind rfl
  have hstar : l.kind ≠ .star := ne_of_apply hkind rfl
  have hskip : Parser.skipModifier mode l = .ok () l := skipModifier_of_endsKey (by
    rcases Kind.endsMember_cases hnext with hk | hk <;> rw [hk] <;> rfl)
  rcases Kind.endsMember_cases hnext with hk | hk <;>
    simp [property, namedProperty, bind_run, eat_run, hellipsis, hstar, hskip,
      key_run_word hkind htext, hk, Grammar.followsKey, Node.form, Node.lo, Node.hi]

theorem property_run_pair (hbegins : l.kind ≠ .ellipsis ∧ l.kind ≠ .star)
    (hkey : key r mode l = .ok k l.next) (hcolon : l.next.kind = .colon)
    (hvalue : r.fullAssignment mode l.next.next = .ok v l') :
    property r mode l = .ok (.mk .property k.lo l'.previousEnd [k, v]) l' := by
  have hskip : Parser.skipModifier mode l = .ok () l :=
    skipModifier_of_endsKey (by rw [hcolon]; rfl)
  simp [property, bind_run, eat_run, hbegins, hskip, hkey, hcolon, Grammar.followsKey, hvalue]

/-- A name in front of such a token is the whole expression, and no arrow function. -/
theorem nameOrArrow_run (hkind : l.kind.isWord = true) (htext : l.token.text = some x)
    (hnext : l.next.kind.endsName = true) :
    nameOrArrow r mode l = .ok (.mk (.name x) l.pos l.next.previousEnd []) l.next := by
  have hword : Parser.wordNode mode l = .ok _ l.next := wordNode_run hkind htext
  rcases Kind.endsName_cases hnext with hk | hk | hk <;>
    simp [nameOrArrow, bind_run, hk, hword, show Kind.comma.isWord = false from rfl,
      show Kind.braceClose.isWord = false from rfl, show Kind.dot.isWord = false from rfl, ite_run]

theorem primary_run_name (hkind : l.kind.isReference = true) (hword : l.kind.isWord = true)
    (htext : l.token.text = some x) (hnext : l.next.kind.endsName = true) :
    primary r mode l = .ok (.mk (.name x) l.pos l.next.previousEnd []) l.next := by
  have hrun : nameOrArrow r mode l = .ok _ l.next := nameOrArrow_run hword htext hnext
  simp only [primary, bind_run, get_run]
  generalize l.kind = kind at hkind ⊢
  split <;> first | exact absurd hkind (by decide) | skip
  simp [hkind, hrun]

theorem primary_run_string (htoken : l.token = ⟨.string, some x, none⟩) :
    primary r mode l = .ok (.mk (.string (some x)) l.pos l.next.previousEnd []) l.next := by
  simp [primary, tokenNode, bind_run, Lexer.kind, htoken]

end

/-! ### Reading members -/

/-- Signs behind a member. -/
def memberSigns : List (Char × Kind) := [(',', .comma), ('\x7d', .braceClose)]

/-- What stands behind a member: its sign, possibly behind a blank. -/
def EndsMember (kind : Kind) (rest cs : List Char) : Prop :=
  ∃ gap y, (gap = [] ∨ gap = [' ']) ∧ (y, kind) ∈ memberSigns ∧ rest.head? = some y ∧
    cs = gap ++ rest

theorem beginsGap_of_isIdentifierStart {c : Char} (h : Text.isIdentifierStart c = true) :
    beginsGap c = false := by
  cases hgap : beginsGap c with
  | false => rfl
  | true =>
    simp only [beginsGap, Bool.or_eq_true] at hgap
    rcases hgap with hspace | hsign
    · have hcodes : (spaceCodes.all fun n => !Text.isIdentifierStart (Char.ofNat n)) = true := by
        decide +kernel
      have := List.all_eq_true.mp hcodes _ (mem_spaceCodes hspace)
      rw [Char.ofNat_toNat, h] at this
      cases this
    · have hsigns : (['/', '<', '-', '=', '>'].all fun c => !Text.isIdentifierStart c) = true := by
        decide
      have := List.all_eq_true.mp hsigns _ (List.contains_iff_mem.mp hsign)
      rw [h] at this
      cases this

theorem IsWord.exists_cons {cs : List Char} (h : IsWord cs) :
    ∃ x xs, cs = x :: xs ∧ beginsGap x = false := by
  cases cs with
  | nil => exact h.elim
  | cons x xs => exact ⟨x, xs, rfl, beginsGap_of_isIdentifierStart h.1⟩

theorem LiteralText.beginsGap_head {follow : Option Char} {cs : List Char} {kind : Kind}
    {text : String} (h : LiteralText follow cs kind text) :
    ∃ x xs, cs = x :: xs ∧ beginsGap x = false := by
  obtain ⟨x, xs, rfl, rfl | rfl | rfl⟩ := h.exists_cons <;> exact ⟨_, xs, rfl, by decide⟩

theorem BoundText.exists_cons {cs : List Char} {v : Bound} (h : BoundText cs v) :
    ∃ x xs, cs = x :: xs ∧ beginsGap x = false := by
  cases h with
  | word h => exact h.1.exists_cons
  | literal h => exact h.beginsGap_head

theorem MemberText.exists_cons {cs : List Char} {m : String × Bound} (h : MemberText cs m) :
    ∃ x xs, cs = x :: xs ∧ beginsGap x = false := by
  cases h with
  | shorthand h => exact h.1.exists_cons
  | pair hk =>
    obtain ⟨x, xs, rfl, hx⟩ : ∃ x xs, _ = x :: xs ∧ beginsGap x = false := by
      cases hk with
      | word h => exact h.exists_cons
      | literal h => exact h.beginsGap_head
    exact ⟨x, _, rfl, hx⟩

theorem EndsMember.stopsWord {kind : Kind} {rest cs : List Char} (h : EndsMember kind rest cs) :
    StopsWord cs := by
  obtain ⟨gap, y, hgap, hy, hrest, rfl⟩ := h
  have hstops : ∀ s ∈ (' ', Kind.comma) :: memberSigns, s.1 ≠ '\\' ∧
      Text.isIdentifierPart s.1 = false ∧ Text.isPictograph s.1 = false := by decide
  intro x hx
  rcases hgap with rfl | rfl
  · rw [List.nil_append, hrest] at hx
    obtain rfl := Option.some.inj hx
    exact hstops _ (.tail _ hy)
  · obtain rfl := Option.some.inj hx
    exact hstops _ (.head _)

/-- Behind a token the sign that ends a member is in hand. -/
theorem EndsMember.next {kind : Kind} {rest tail cs : List Char} (h : EndsMember kind rest tail)
    {l : Lexer} (hl : l.Stands (cs ++ tail))
    (hafter : l.after = ⟨tail, l.here.pos + byteLength cs⟩) :
    l.next.Stands rest ∧ l.next.kind = kind ∧ l.next.kind.endsMember = true := by
  obtain ⟨gap, y, hgap, hy, hrest, rfl⟩ := h
  obtain ⟨ys, rfl⟩ : ∃ ys, rest = y :: ys := by
    cases rest with
    | nil => cases hrest
    | cons z zs =>
      obtain rfl := Option.some.inj hrest
      exact ⟨zs, rfl⟩
  have hgap' : GapText false gap := by
    rcases hgap with rfl | rfl
    · exact .nil
    · exact .blank (by decide) .nil
  simp only [memberSigns, List.mem_cons, Prod.mk.injEq, List.not_mem_nil, or_false] at hy
  rcases hy with ⟨rfl, rfl⟩ | ⟨rfl, rfl⟩
  · have hnext := (hl.next hafter hgap' (by decide)).1
    have hkind := (hnext.plain .comma fun _ _ => rfl).1
    exact ⟨hnext, hkind, by rw [hkind]; rfl⟩
  · have hnext := (hl.next hafter hgap' (by decide)).1
    have hkind := (hnext.plain .braceClose fun _ _ => rfl).1
    exact ⟨hnext, hkind, by rw [hkind]; rfl⟩

section

variable {kind : Kind} {rest tail : List Char} {l : Lexer} {mode : Mode}

theorem Kind.isWord_of_isReference {k : Kind} (h : k.isReference = true) : k.isWord = true := by
  unfold isReference at h
  split at h
  · cases h
  · cases h
  · exact (Bool.and_eq_true_iff.mp h).1

theorem Kind.endsOperand_of_endsMember {k : Kind} (h : k.endsMember = true) :
    k.endsOperand = true ∧ k.precedence = 0 := by
  rcases endsMember_cases h with rfl | rfl <;> decide

theorem BoundText.run {cs : List Char} {v : Bound} (h : BoundText cs v) (d : Nat)
    (hl : l.Stands (cs ++ tail)) (htail : EndsMember kind rest tail) :
    ∃ n, (rules (d + 4)).fullAssignment mode l = .ok n l.next ∧ Bound.ofNode? n = some v ∧
      l.next.Stands rest ∧ l.next.kind = kind := by
  cases h with
  | word h =>
    obtain ⟨hword, hreference, hawait⟩ := h
    obtain ⟨htoken, hafter⟩ := hl.word hword htail.stopsWord
    obtain ⟨hnext, hkind, hends⟩ := htail.next hl hafter
    obtain ⟨hends', hprecedence⟩ := Kind.endsOperand_of_endsMember hends
    have hk : l.kind = Kind.ofWord (String.ofList cs) := by rw [Lexer.kind, htoken]
    rw [← hk] at hreference hawait
    have hbegins : l.kind.beginsOperand = true := by
      simp [Kind.beginsOperand, hreference, hawait]
    exact ⟨_, assignment_of_primary hbegins hends' hprecedence rfl
      (primary_run_name hreference (Kind.isWord_of_isReference hreference) (by rw [htoken])
        (Kind.endsName_of_endsMember hends)),
      rfl, hnext, hkind⟩
  | literal h =>
    obtain ⟨htoken, hafter⟩ := hl.literal h (by simp)
    obtain ⟨hnext, hkind, hends⟩ := htail.next hl hafter
    obtain ⟨hends', hprecedence⟩ := Kind.endsOperand_of_endsMember hends
    have hbegins : l.kind.beginsOperand = true := by
      rw [Lexer.kind, htoken]
      rfl
    exact ⟨_, assignment_of_primary hbegins hends' hprecedence rfl (primary_run_string htoken),
      rfl, hnext, hkind⟩

theorem KeyText.run {cs : List Char} {k : String} (h : KeyText cs k) (r : Rules)
    (hl : l.Stands (cs ++ ':' :: tail)) :
    ∃ n, key r mode l = .ok n l.next ∧ keyText? n = some k ∧
      (l.kind ≠ .ellipsis ∧ l.kind ≠ .star ∧ l.kind ≠ .braceClose) ∧
      l.after = ⟨':' :: tail, l.here.pos + byteLength cs⟩ := by
  cases h with
  | word h hkind =>
    have hstops : StopsWord (':' :: tail) := stopsWord_cons (by decide) tail
    obtain ⟨htoken, hafter⟩ := hl.word h hstops
    have hk : l.kind = Kind.ofWord (String.ofList cs) := by rw [Lexer.kind, htoken]
    rw [← hk] at hkind
    exact ⟨_, key_run_word hkind (by rw [htoken]), rfl,
      ⟨ne_of_apply hkind rfl, ne_of_apply hkind rfl, ne_of_apply hkind rfl⟩, hafter⟩
  | literal h =>
    obtain ⟨htoken, hafter⟩ := hl.literal h (by simp)
    have hk : l.kind = .string := by rw [Lexer.kind, htoken]
    exact ⟨_, key_run_string htoken, rfl, by rw [hk]; decide, hafter⟩

theorem MemberText.run {cs : List Char} {m : String × Bound} (h : MemberText cs m) (d : Nat)
    (hl : l.Stands (cs ++ tail)) (htail : EndsMember kind rest tail) :
    ∃ n l', property (rules (d + 4)) mode l = .ok n l' ∧ member? n = some m ∧
      l.kind ≠ .braceClose ∧ l'.Stands rest ∧ l'.kind = kind := by
  cases h with
  | shorthand h =>
    obtain ⟨hword, hreference, -⟩ := h
    obtain ⟨htoken, hafter⟩ := hl.word hword htail.stopsWord
    obtain ⟨hnext, hkind, hends⟩ := htail.next hl hafter
    have hk : l.kind = Kind.ofWord (String.ofList cs) := by rw [Lexer.kind, htoken]
    rw [← hk] at hreference
    have hisWord := Kind.isWord_of_isReference hreference
    exact ⟨_, l.next, property_run_shorthand hisWord (by rw [htoken]) hends, rfl,
      ne_of_apply hisWord rfl, hnext, hkind⟩
  | @pair front back k v hk hproto hv =>
    replace hl : l.Stands (front ++ ':' :: ' ' :: (back ++ tail)) := by simpa using hl
    obtain ⟨kn, hkey, hname, ⟨hellipsis, hstar, hbrace⟩, hafter⟩ :=
      hk.run (rules (d + 4)) hl
    -- the key, the colon behind it and the value behind a blank
    have hcolon : l.next.Stands (':' :: ' ' :: (back ++ tail)) :=
      (@Lexer.Stands.next l front _ [] _ hl hafter .nil (by decide)).1
    obtain ⟨hcolonKind, hcolonAfter⟩ := hcolon.plain .colon fun _ _ => rfl
    have hvalue : l.next.next.Stands (back ++ tail) := by
      obtain ⟨y, ys, rfl, hy⟩ := hv.exists_cons
      exact hcolon.nextBehindBlank rfl hcolonAfter hy
    obtain ⟨vn, hrun, hv, hnext, hkind⟩ := hv.run d hvalue htail
    refine ⟨_, _, property_run_pair ⟨hellipsis, hstar⟩ hkey hcolonKind hrun, ?_, hbrace, hnext,
      hkind⟩
    simp [member?, hname, hproto, hv]

/-! ### Reading object literals -/

theorem exists_cons_join {css : List (List Char)} {ms : List (String × Bound)}
    (h : List.Forall₂ MemberText css ms) (hne : css ≠ []) :
    ∃ x xs, Text.join [',', ' '] css = x :: xs ∧ beginsGap x = false := by
  cases h with
  | nil => exact absurd rfl hne
  | cons hm hms =>
    obtain ⟨x, xs, rfl, hx⟩ := hm.exists_cons
    cases hms <;> exact ⟨x, _, rfl, hx⟩

theorem exists_separates (d : Nat) (mode : Mode) {css : List (List Char)}
    {ms : List (String × Bound)} (h : List.Forall₂ MemberText css ms) (hne : css ≠ [])
    (hl : l.Stands (Text.join [',', ' '] css ++ ' ' :: '\x7d' :: rest)) :
    ∃ ns l', Separates .braceClose (property (rules (d + 4))) mode l ns l' ∧
      ns.mapM member? = some ms ∧ ns.length = ms.length ∧ l'.Stands ('\x7d' :: rest) := by
  induction h generalizing l with
  | nil => exact absurd rfl hne
  | @cons cs m css ms hm hms ih =>
    -- behind the last member the brace closes, behind any other there is a comma
    cases hms with
    | nil =>
      have hend : EndsMember .braceClose ('\x7d' :: rest) (' ' :: '\x7d' :: rest) :=
        ⟨[' '], _, .inr rfl, by decide, rfl, rfl⟩
      obtain ⟨n, l', hrun, hn, hbrace, hnext, hkind⟩ := hm.run d hl hend
      exact ⟨[n], l', .last hbrace hrun hkind, by simp [hn], rfl, hnext⟩
    | @cons cs' m' css ms hm' hms =>
      obtain ⟨x, xs, hjoin, hx⟩ := exists_cons_join (.cons hm' hms) (by simp)
      replace hl : l.Stands (cs ++ ',' :: ' ' :: (Text.join [',', ' '] (cs' :: css) ++
          ' ' :: '\x7d' :: rest)) := by simpa [Text.join] using hl
      have hend : EndsMember .comma _ (',' :: ' ' :: (Text.join [',', ' '] (cs' :: css) ++
          ' ' :: '\x7d' :: rest)) := ⟨[], _, .inl rfl, by decide, rfl, rfl⟩
      obtain ⟨n, l', hrun, hn, hbrace, hcomma, hkind⟩ :=
        hm.run d hl hend
      have hafter := (hcomma.plain .comma fun _ _ => rfl).2
      have hnext : l'.next.Stands (Text.join [',', ' '] (cs' :: css) ++ ' ' :: '\x7d' :: rest) := by
        rw [hjoin] at hcomma hafter ⊢
        exact hcomma.nextBehindBlank rfl hafter hx
      obtain ⟨ns, l'', hseparates, hmembers, hlength, hstands⟩ := ih (by simp) hnext
      exact ⟨n :: ns, l'', .cons hbrace hrun hkind hseparates, by simp [hn, hmembers],
        by simp [hlength], hstands⟩

theorem object_run {r : Rules} {l' : Lexer} {ns : List Node} (hopen : l.kind = .braceOpen)
    (h : Separates .braceClose (property r) { mode with beforeColon := false } l.next ns l')
    (hremaining : ns.length ≤ l.next.remaining) (hl' : l'.kind = .braceClose) :
    object r mode l = .ok (.mk .object l.pos l'.next.previousEnd ns) l'.next := by
  simp [object, bind_run, expect_run, hopen, h.separated_run (by decide) hremaining, hl']

theorem length_le_length_join {css : List (List Char)} {ms : List (String × Bound)}
    (h : List.Forall₂ MemberText css ms) :
    ms.length ≤ (Text.join [',', ' '] css).length := by
  induction h with
  | nil => exact Nat.le_refl _
  | cons hm hms ih =>
    obtain ⟨x, xs, rfl, -⟩ := hm.exists_cons
    cases hms <;> simp [Text.join] at ih ⊢
    omega

/-- What writes members between braces is read as an object literal with these members. -/
theorem primary_run_object (d : Nat) (mode : Mode) {css : List (List Char)}
    {ms : List (String × Bound)} (h : List.Forall₂ MemberText css ms) (hne : css ≠ [])
    (hl : l.Stands ('\x7b' :: ' ' :: (Text.join [',', ' '] css ++ ' ' :: '\x7d' :: ')' :: rest))) :
    ∃ lo hi ns l', primary (rules (d + 4)) mode l = .ok (.mk .object lo hi ns) l' ∧
      ns.mapM member? = some ms ∧ l.kind = .braceOpen ∧ l'.Stands (')' :: rest) := by
  obtain ⟨hopen, hafter⟩ := hl.plain .braceOpen fun _ _ => rfl
  obtain ⟨x, xs, hjoin, hx⟩ := exists_cons_join h hne
  have hfirst : l.next.Stands (Text.join [',', ' '] css ++ ' ' :: '\x7d' :: ')' :: rest) := by
    rw [hjoin] at hl hafter ⊢
    exact hl.nextBehindBlank rfl hafter hx
  obtain ⟨ns, last, hseparates, hmembers, hcount, hlast⟩ :=
    exists_separates d { mode with beforeColon := false } h hne hfirst
  obtain ⟨hclose, hafter'⟩ := hlast.plain .braceClose fun _ _ => rfl
  have hnext := hlast.nextAtOnce rfl hafter' (by decide)
  -- each member is a token at least, so there is enough left for all of them
  have hremaining : ns.length ≤ l.next.remaining := by
    have hle := length_le_length_join h
    have hlength := hfirst.length_lt_remaining
    rw [List.length_append] at hlength
    omega
  have hrun := object_run hopen hseparates hremaining hclose
  refine ⟨l.pos, last.next.previousEnd, ns, last.next, ?_, hmembers, hopen, hnext⟩
  simp only [primary, bind_run, get_run, hopen]
  exact hrun

/-- What writes members between braces has these members when it stands alone. -/
theorem membersAlone_eq (jsx : Bool) {css : List (List Char)} {ms : List (String × Bound)}
    (h : List.Forall₂ MemberText css ms) (hne : css ≠ []) :
    membersAlone jsx ('\x7b' :: ' ' :: (Text.join [',', ' '] css ++ [' ', '\x7d'])) = some ms := by
  generalize hcs : '\x7b' :: ' ' :: (Text.join [',', ' '] css ++ [' ', '\x7d']) = cs
  obtain ⟨l, hl⟩ : ∃ l, Lexer.start ('(' :: (cs ++ [')', ';'])) = l := ⟨_, rfl⟩
  have hstart : l.Stands ('(' :: (cs ++ [')', ';'])) := by
    rw [← hl]
    exact start_stands (by decide) (by decide)
  obtain ⟨hopen, hafter⟩ := hstart.paren
  have hbrace : l.next.Stands (cs ++ [')', ';']) := by
    rw [← hcs] at hstart hafter ⊢
    exact hstart.nextAtOnce rfl hafter (by decide)
  have hremaining : 1 < l.next.remaining := by
    have hlength := hbrace.length_lt_remaining
    simp only [List.length_append, List.length_cons] at hlength
    omega
  obtain ⟨d, hd⟩ : ∃ d, depthFor l.size = d + 13 :=
    ⟨64 * (l.size + 2) - 13, by unfold depthFor; omega⟩
  obtain ⟨lo, hi, ns, last, hrun, hmembers, hkind, hlast⟩ :=
    primary_run_object d { jsx, arrowAt := some l.next.pos } h hne
      (by rw [← hcs] at hbrace; simpa using hbrace)
  obtain ⟨hclose, hafter'⟩ := hlast.sign .parenClose (by decide) (by simp)
  have hend := hlast.nextAtOnce rfl hafter' (by decide)
  have hsemicolon := (hend.sign .semicolon (by decide) (by simp)).1
  have hinner : Grammar.assignment (rules (d + 7)) { jsx, arrowAt := some l.pos } l.next =
      .ok (.mk .object lo hi ns) last :=
    assignment_of_primary (by rw [hkind]; rfl) (by rw [hclose]; rfl) (by rw [hclose]; rfl) rfl hrun
  have hparen : primary (rules (d + 8)) { jsx, arrowAt := some l.pos } l =
      .ok (.mk .paren l.pos last.next.previousEnd [.mk .object lo hi ns]) last.next :=
    primary_run_paren hopen (by rw [hkind]; rfl) (by rw [hkind]; rfl) hremaining
      (.inl ⟨hclose, rfl⟩) (by rw [hsemicolon]; rfl) rfl hinner
  have houter : Grammar.assignment (rules (d + 11)) { jsx } l = .ok _ last.next :=
    assignment_of_primary (by rw [hopen]; rfl) (by rw [hsemicolon]; rfl) (by rw [hsemicolon]; rfl)
      rfl hparen
  subst hl
  obtain ⟨lo, hi, comments, hparse⟩ := exists_parse_eq jsx hd rfl houter hend
  unfold membersAlone
  rw [hparse]
  exact hmembers

end

end Phrasebook.Script
