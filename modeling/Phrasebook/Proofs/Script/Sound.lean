import Phrasebook.Proofs.Script.Gives

/-!
# What the rules of the grammar are taken to do

The rules of the grammar are given the rules that they call. `Rules.Sound` says what they rely on:
what the rules read is accounted for, and an expression with a known text is written from where it
is read on (`Written`). Of the places at which a rule begins two matter, that behind a lead and that
of a known token.
-/

namespace Phrasebook.Script

variable {α β : Type} {text : List Char}

/-! ### Steps that keep what does not get lost on the way -/

theorem Moves.triple {P : Lexer → Prop} {p : Parser α} (hp : Moves text p)
    (hP : ∀ l l', l.pos ≤ l'.pos → P l → P l') : Triple text P p fun _ => P := by
  intro mode l hl h
  have hrun := hp _ .idle mode l hl ⟨⟩
  cases heq : p mode l with
  | error e l' =>
    rw [heq] at hrun
    exact hrun
  | ok x l' =>
    rw [heq] at hrun
    exact ⟨hrun.1, hrun.2.1, hP l l' hrun.2.1 h⟩

theorem Shapes.triple {P : Lexer → Prop} {ns : List Node} {f : α → List Node} {p : Parser α}
    (hp : Shapes ns p f) : Triple text P p fun _ => P := by
  intro mode l hl h
  have hrun := hp mode l
  cases heq : p mode l with
  | error e l' =>
    rw [heq] at hrun
    obtain rfl : l' = l := hrun
    exact ⟨hl, Nat.le_refl _⟩
  | ok x l' =>
    rw [heq] at hrun
    obtain ⟨rfl, -⟩ := hrun
    exact ⟨hl, Nat.le_refl _, h⟩

namespace Triple

variable {P : Lexer → Prop} {R : β → Lexer → Prop} {p : Parser α} {q : α → Parser β}

theorem skip (hp : Moves text p) (hP : ∀ l l', l.pos ≤ l'.pos → P l → P l')
    (hq : ∀ x, Triple text P (q x) R) : Triple text P (p >>= q) R :=
  bind (hp.triple hP) hq

/-- A step behind which nothing is known any more. -/
theorem forget (hp : Moves text p) (hq : ∀ x, Triple text (fun _ => True) (q x) R) :
    Triple text P (p >>= q) R :=
  ((bind (hp.triple fun _ _ _ h => h) hq).imp fun _ _ => ⟨⟩) fun _ _ h => h

theorem skipUnless {c : Prop} [Decidable c] {q : Parser β} (hp : Moves text p)
    (hP : ∀ l l', l.pos ≤ l'.pos → P l → P l') (hq : Triple text P q R) :
    Triple text P (if c then q else p >>= fun _ => q) R :=
  .ite hq (.skip hp hP fun _ => hq)

theorem of_run {S : α → Prop} (hp : Moves text p)
    (hS : ∀ mode l x l', P l → p mode l = .ok x l' → S x) : Triple text P p fun x _ => S x := by
  intro mode l hl h
  have hrun := hp _ .idle mode l hl ⟨⟩
  cases heq : p mode l with
  | error e l' =>
    rw [heq] at hrun
    exact hrun
  | ok x l' =>
    rw [heq] at hrun
    exact ⟨hrun.1, hrun.2.1, hS mode l x l' h heq⟩

theorem of_yields {S : α → Prop} (hp : Moves text p) (hS : Yields p S) :
    Triple text P p fun x _ => S x :=
  of_run hp fun mode l x l' _ hrun => hS mode l x l' hrun

/-- A step that stays where it is. -/
theorem stay {ns : List Node} {f : α → List Node} (hp : Shapes ns p f)
    (hq : ∀ x, Triple text P (q x) R) : Triple text P (p >>= q) R :=
  bind hp.triple hq

end Triple

/-! ### Behind a lead and before a known token -/

/-- As `Gives`, from a lexer with `P` on. -/
def GivesWhen (text : List Char) (P : Lexer → Prop) (ns : List Node) (p : Parser α)
    (f : α → List Node) : Prop :=
  ∀ K, Account text K →
    Triple text (fun l => P l ∧ K l.pos (marksOf ns)) p fun x l => K l.pos (marksOf (f x))

/-- As `Gives`, from a lexer behind a lead on, in front of which the nodes in hand stand. -/
def GivesLed (text : List Char) (lead : Lead) (ns : List Node) (p : Parser α)
    (f : α → List Node) : Prop :=
  ∀ K, Account text K →
    Triple text (fun l => ∃ place, LeadAt text lead place l.pos ∧ K place (marksOf ns)) p
      fun x l => K l.pos (marksOf (f x))

section Where

variable {P P' : Lexer → Prop} {lead : Lead} {ns ms : List Node} {f : α → List Node}
  {g : β → List Node} {p p' : Parser α} {q : α → Parser β}

theorem Gives.when (hp : Gives text ns p f) : GivesWhen text P ns p f :=
  fun K hK => (hp K hK).imp (fun _ h => h.2) fun _ _ h => h

theorem Gives.get {q : Lexer → Parser β}
    (hq : ∀ l, l.On text → GivesWhen text (· = l) ns (q l) g) : Gives text ns (get >>= q) g :=
  fun K hK mode l hl h => hq l hl K hK mode l hl ⟨rfl, h⟩

theorem Gives.isOf {k : Kind} {q : Bool → Parser β}
    (hq : ∀ b, GivesWhen text (fun l => (l.kind == k) = b) ns (q b) g) :
    Gives text ns (Parser.is k >>= q) g :=
  fun K hK mode l hl h => hq (l.kind == k) K hK mode l hl ⟨rfl, h⟩

theorem GivesWhen.unexpected : GivesWhen text P ns (Parser.unexpected : Parser α) f :=
  Gives.unexpected.when

theorem GivesWhen.ite {c : Prop} [Decidable c] (h : c → GivesWhen text P ns p f)
    (h' : GivesWhen text P ns p' f) : GivesWhen text P ns (if c then p else p') f := by
  split
  · rename_i hc
    exact h hc
  · exact h'

theorem GivesWhen.imp (hp : GivesWhen text P ns p f) (h : ∀ l, P' l → P l) :
    GivesWhen text P' ns p f :=
  fun K hK => (hp K hK).imp (fun l hl => ⟨h l hl.1, hl.2⟩) fun _ _ h => h

theorem GivesWhen.modify {change : Lexer → Lexer} {k : Unit → Parser β}
    (h : ∀ l, l.On text → P l → (change l).On text ∧ l.pos ≤ (change l).pos)
    (hk : Gives text ns (k ()) g) : GivesWhen text P ns (modify change >>= k) g := by
  intro K hK
  refine .bind (Q := fun _ l => K l.pos (marksOf ns)) ?_ fun _ => hk K hK
  intro mode l hl hP
  obtain ⟨hon, hle⟩ := h l hl hP.1
  exact ⟨hon, hle, hK.mono hP.2 hle⟩

theorem GivesWhen.still (hp : Still p) (hq : ∀ x, GivesWhen text P ns (q x) g) :
    GivesWhen text P ns (p >>= q) g :=
  fun K hK => .still hp fun x => hq x K hK

/-- Behind a lead that the lexer has in hand. -/
theorem GivesWhen.bumpLead (lead : Lead) (hP : ∀ l, P l → l.kind = lead.kind) {k : Unit → Parser β}
    (hk : GivesLed text lead ns (k ()) g) : GivesWhen text P ns (Parser.bump >>= k) g := by
  intro K hK
  refine .bind (Q := fun _ l => ∃ place, LeadAt text lead place l.pos ∧ K place (marksOf ns)) ?_
    fun _ => hk K hK
  intro mode l hl h
  exact ⟨hl.next, hl.pos_le_next, l.here.pos, hl.leadAt (hP l h.1), hK.mono h.2 hl.pos_le⟩

theorem Gives.expectLead (lead : Lead) {k : Unit → Parser β}
    (hk : GivesLed text lead ns (k ()) g) :
    Gives text ns (Parser.expect lead.kind >>= k) g := by
  intro K hK
  refine .bind (Q := fun _ l => ∃ place, LeadAt text lead place l.pos ∧ K place (marksOf ns)) ?_
    fun _ => hk K hK
  intro mode l hl h
  rw [expect_run]
  cases hkind : l.kind == lead.kind with
  | true =>
    exact ⟨hl.next, hl.pos_le_next, l.here.pos, hl.leadAt (eq_of_beq hkind), hK.mono h hl.pos_le⟩
  | false => exact ⟨hl, Nat.le_refl _⟩

theorem GivesLed.still (hp : Still p) (hq : ∀ x, GivesLed text lead ns (q x) g) :
    GivesLed text lead ns (p >>= q) g :=
  fun K hK => .still hp fun x => hq x K hK

theorem GivesLed.ite {c : Prop} [Decidable c] (h : GivesLed text lead ns p f)
    (h' : GivesLed text lead ns p' f) : GivesLed text lead ns (if c then p else p') f :=
  fun K hK => .ite (h K hK) (h' K hK)

/-- Where nothing is returned a lead does not matter. -/
theorem Gives.led (hp : Gives text ns p f) : GivesLed text lead ns p f :=
  fun K hK => (hp K hK).imp (fun _ ⟨_, hlead, haccount⟩ => hK.mono haccount hlead.le) fun _ _ h => h

theorem GivesLed.bindShapes (rest : List Node) (hp : Shapes ms p f) (hu : Uses (rest ++ ms) ns)
    (hq : ∀ x, GivesLed text lead (rest ++ f x) (q x) g) : GivesLed text lead ns (p >>= q) g := by
  intro K hK
  refine .bind (Q := fun x l => ∃ place, LeadAt text lead place l.pos ∧
    K place (marksOf (rest ++ f x))) ?_ fun x => hq x K hK
  intro mode l hl ⟨place, hlead, haccount⟩
  have h := hp mode l
  cases hrun : p mode l with
  | error e l' =>
    rw [hrun] at h
    obtain rfl : l' = l := h
    exact ⟨hl, Nat.le_refl _⟩
  | ok x l' =>
    rw [hrun] at h
    obtain ⟨rfl, hx⟩ := h
    refine ⟨hl, Nat.le_refl _, place, hlead, hK.of_count haccount fun m => ?_⟩
    have := hu m
    have := hx m
    simp only [marksOf_append, List.count_append] at *
    omega

theorem GivesLed.bindOn (rest : List Node) (hp : GivesLed text lead ms p f)
    (hu : Uses (rest ++ ms) ns) (hq : ∀ x, Gives text (rest ++ f x) (q x) g) :
    GivesLed text lead ns (p >>= q) g := by
  intro K hK
  refine .bind (Q := fun x l => K l.pos (marksOf (rest ++ f x))) ?_ fun x => hq x K hK
  refine (hp _ (hK.frame (marksOf rest))).imp (fun l h => ?_) fun x l h => ?_
  · obtain ⟨place, hlead, haccount⟩ := h
    refine ⟨place, hlead, hK.of_count haccount fun m => ?_⟩
    rw [← marksOf_append]
    exact hu m
  · rwa [marksOf_append]

end Where

/-! ### Written expressions -/

/-- Tokens with which an expression with a known text begins. -/
def Kind.beginsText : Kind → Bool
  | .string | .templateWhole | .parenOpen => true
  | _ => false

theorem Kind.beginsText_eq_false {k : Kind} (p : Kind → Bool) (hk : p k = true)
    (hp : ∀ k ∈ [string, templateWhole, parenOpen], p k = false) : k.beginsText = false := by
  unfold beginsText
  split
  case h_4 => rfl
  all_goals
    rw [hp _ (by decide)] at hk
    cases hk

/-- From the token of the lexer `start` on an expression is written, if its text is known, and
between it and the lexer `l` stands a gap. -/
def Written (start l : Lexer) (e : Node) : Prop :=
  ∀ sums, ∀ value ∈ textOf sums e, start.kind.beginsText = true ∧ e.lo = start.pos ∧ e.hi ≤ l.pos ∧
    ∃ cs d gap follow, start.here.Passes cs d ∧ e.hi = d.pos ∧ d.Passes gap l.here ∧
      (l.here.rest ≠ [] → GapText false gap) ∧ (∀ x ∈ follow, nextChar d = x) ∧
        Spelling sums follow cs value

namespace Written

variable {start start' l : Lexer} {e : Node}

theorem of_none (h : foldText e = none) : Written start l e := by
  intro sums value hvalue
  have hsome := foldText_of_textOf (Option.isSome_of_mem hvalue)
  rw [h] at hsome
  cases hsome

/-- A token with which no text begins tells nothing of where another one stands. -/
theorem of_kind (h : Written start l e) (hkind : start.kind.beginsText = false) :
    Written start' l e := by
  intro sums value hvalue
  rw [(h sums value hvalue).1] at hkind
  cases hkind

theorem tight (hl : start.On text) (h : Written start l e) : Tight text start.pos l.pos e := by
  intro value hvalue
  obtain ⟨-, hlo, hle, cs, d, gap, follow, hcs, hhi, -, -, -, hspelling⟩ := h true value hvalue
  obtain ⟨d', lead, ⟨before, hbefore⟩, hpos, hlead, hgap⟩ := hl.starts
  obtain ⟨x, xs, rfl, -⟩ := hspelling.exists_cons
  refine ⟨hlo, hle, before, lead, x :: xs, d.rest, ?_, ?_, ?_, hgap (by rw [hcs.1]; simp), follow,
    hspelling⟩
  · rw [← hcs.1, ← hlead.1]
    exact hbefore.1
  · rw [← hpos, hbefore.2]
    exact (Nat.zero_add _).symm
  · rw [hhi, hcs.2, hlead.2, Text.byteLength_append, ← Nat.add_assoc, hpos]

/-- Nothing but the place where the expression ends is known of the second lexer. -/
theorem of_here {l' : Lexer} (h : Written start l e) (hhere : l'.here = l.here)
    (hpos : l'.pos = l.pos) : Written start l' e := by
  intro sums value hvalue
  rw [hhere, hpos]
  exact h sums value hvalue

/-- A string or a template covers its token. -/
theorem literal (hl : l.On text) (hkind : l.kind = .string ∨ l.kind = .templateWhole)
    (he : ∀ sums, textOf sums e = l.token.text) (hlo : e.lo = l.pos) (hhi : e.hi = l.endPos) :
    Written l l.next e := by
  intro sums value hvalue
  rw [he] at hvalue
  obtain ⟨follow, cs, hcs, hpasses, hfollow⟩ := hl.fits.quoted hkind value hvalue
  obtain ⟨gap, hgap, htext⟩ := hl.gap
  refine ⟨?_, hlo, Nat.le_trans (Nat.le_of_eq hhi) hl.next.previousEnd_le, cs, l.after, gap, follow,
    hpasses, hhi, hgap, htext, hfollow, .literal hcs⟩
  rcases hkind with hkind | hkind <;> rw [hkind] <;> rfl

/-- The line end behind a string without a closing quote belongs to the gap behind it. -/
theorem head?_follow {sums : Bool} {follow : Option Char} {cs gap : List Char} {value : String}
    {c d : Cursor} {x : Char} {xs : List Char} (hspelling : Spelling sums follow cs value)
    (hfollow : ∀ y ∈ follow, nextChar c = y) (hgap : c.Passes gap d) (hd : d.rest = x :: xs)
    (hx : x ≠ '\n' ∧ x ≠ '\r') : ∀ y ∈ follow, gap.head? = some y := by
  intro y hy
  have hends := hspelling.isLineEnd_follow y hy
  have hnext := hfollow y hy
  unfold nextChar at hnext
  rw [hgap.1, hd] at hnext
  cases gap with
  | nil =>
    obtain rfl : x = y := by simpa using hnext
    exact absurd hends (not_or.mpr hx)
  | cons z zs => simpa using hnext

/-- Parentheses stand around what is written between them, behind which may stand a comma. -/
theorem paren {last close : Lexer} (hstart : start.On text) (hopen : start.kind = .parenOpen)
    (h : Written start.next last e)
    (hlast : last = close ∨ last.On text ∧ last.kind = .comma ∧ close = last.next)
    (hclose : close.On text) (hkind : close.kind = .parenClose) :
    Written start close.next (.mk .paren start.pos close.endPos [e]) := by
  intro sums value hvalue
  replace hvalue : value ∈ textOf sums e := by cases sums <;> exact hvalue
  obtain ⟨-, -, -, cs, d, back, follow, hcs, -, hback, hbackText, hfollow, hspelling⟩ :=
    h sums value hvalue
  have hleft : start.here.Passes ['('] start.after := hstart.spelled hopen rfl
  have hright : close.here.Passes [')'] close.after := hclose.spelled hkind rfl
  obtain ⟨front, hfront, hfrontText⟩ := hstart.gap
  obtain ⟨gap, hgap, hgapText⟩ := hclose.gap
  -- what stands behind the expression is a sign
  obtain ⟨x, xs, comma, hx, hne, hcomma, hcommaText⟩ : ∃ x xs comma, last.here.rest = x :: xs ∧
      (x ≠ '\n' ∧ x ≠ '\r') ∧ last.here.Passes comma close.here ∧
        (comma = [] ∨ ∃ gap, GapText false gap ∧ comma = ',' :: gap) := by
    rcases hlast with rfl | ⟨hon, hcommaKind, rfl⟩
    · exact ⟨')', _, [], hright.1, by decide, .refl _, .inl rfl⟩
    · have hsign : last.here.Passes [','] last.after := hon.spelled hcommaKind rfl
      obtain ⟨gap, hgap, hgapText⟩ := hon.gap
      exact ⟨',', _, _, hsign.1, by decide, hsign.trans hgap,
        .inr ⟨gap, hgapText (by rw [hright.1]; simp), rfl⟩⟩
  obtain ⟨y, ys, rfl, -⟩ := hspelling.exists_cons
  refine ⟨by rw [hopen]; rfl, rfl, hclose.next.previousEnd_le, _, close.after, gap, none,
    hleft.trans (hfront.trans (hcs.trans (hback.trans (hcomma.trans hright)))), rfl, hgap, hgapText,
    by simp, .paren (hfrontText (by rw [hcs.1]; simp)) hspelling (hbackText (by rw [hx]; simp))
      (head?_follow hspelling hfollow hback hx hne) hcommaText⟩

/-- A sum is written from its left operand up to its right one. -/
theorem sum {sign : Lexer} {left right : Node} (hsign : sign.On text) (hkind : sign.kind = .plus)
    (hleft : Written start sign left) (hright : Written sign.next l right) :
    Written start l (.mk (.binary true) left.lo right.hi [left, right]) := by
  intro sums value hvalue
  cases sums with
  | false => cases hvalue
  | true =>
    replace hvalue : foldText (.mk (.binary true) left.lo right.hi [left, right]) = some value :=
      hvalue
    simp only [foldText, Option.bind_eq_bind, Option.bind_eq_some_iff] at hvalue
    obtain ⟨a, ha, b, hb, heq⟩ := hvalue
    obtain rfl : a ++ b = value := Option.some.inj heq
    obtain ⟨hbegins, hlo, -, cs, d, back, follow, hcs, -, hback, hbackText, hfollow, hspelling⟩ :=
      hleft true a ha
    obtain ⟨-, -, hle, cs', d', gap, follow', hcs', hhi, hgap, hgapText, hfollow', hspelling'⟩ :=
      hright false b hb
    have hplus : sign.here.Passes ['+'] sign.after := hsign.spelled hkind rfl
    obtain ⟨front, hfront, hfrontText⟩ := hsign.gap
    obtain ⟨y, ys, rfl, -⟩ := hspelling'.exists_cons
    exact ⟨hbegins, hlo, hle, cs ++ (back ++ '+' :: (front ++ y :: ys)), d', gap, follow',
      hcs.trans (hback.trans (hplus.trans (hfront.trans hcs'))), hhi, hgap, hgapText, hfollow',
      .sum hspelling (hbackText (by rw [hplus.1]; simp))
        (head?_follow hspelling hfollow hback hplus.1 (by decide))
        (hfrontText (by rw [hcs'.1]; simp)) hspelling'⟩

end Written

/-- A parser that gives an expression which, if its text is known, is written from the token in hand
on. -/
def ReadsWritten (text : List Char) (p : Parser Node) : Prop :=
  ∀ start, Triple text (· = start) p fun n l => Written start l n

/-- An expression behind a lead. -/
theorem triple_returned {p : Parser Node} (hp : Reads text p) (hw : ReadsWritten text p)
    (lead : Lead) {K : Nat → List Mark → Prop} (hK : Account text K) (ms : List Mark) :
    Triple text (fun l => ∃ place, LeadAt text lead place l.pos ∧ K place ms) p
      fun e l => K l.pos (ms ++ (markOf lead e ++ marks e)) := by
  intro mode l hl ⟨place, hlead, haccount⟩
  have hread := hp _ (.accounted l.pos) mode l hl (.nil (Nat.le_refl _))
  have hwritten := hw l mode l hl rfl
  cases hrun : p mode l with
  | error e l' =>
    rw [hrun] at hread
    exact hread
  | ok e l' =>
    rw [hrun] at hread hwritten
    have he : Accounted text l.pos l'.pos (marks e) := hread.2.2.of_count fun m => by simp
    exact ⟨hread.1, hread.2.1, hK.returned haccount hlead he (hwritten.2.2.tight hl)⟩

/-- A node with marks of its own. -/
theorem triple_node {form : Form} {lo : Nat} {parts : List Node} {ms : List Mark}
    {K : Nat → List Mark → Prop} (hK : Account text K)
    (h : ∀ m, (ownMarks form parts ++ marksOf parts).count m ≤ ms.count m) :
    Triple text (fun l => K l.pos ms) (Parser.node form lo parts)
      fun n l => K l.pos (marksOf [n]) := by
  refine .still .previousEnd fun hi => .pure fun l hl haccount => hK.of_count haccount fun m => ?_
  rw [marksOf_cons, marks_mk, marksOf_nil, List.append_nil]
  exact h m

/-! ### Rules -/

/-- The node begins at `lo` if it is a function that runs at once. -/
def FunctionAt (lo : Nat) (n : Node) : Prop := n.form.runsAtOnce = true → n.lo = lo

/-- Functions that run at once begin where `p` begins. -/
def BeginsFunctions (p : Parser Node) : Prop :=
  ∀ start, YieldsAt start p (FunctionAt start.pos)

/-- Rules that read on in the text and account for what they have read. -/
structure Rules.Sound (text : List Char) (r : Rules) : Prop where
  expression : Reads text r.expression
  assignment : Reads text r.assignment
  unary : Reads text r.unary
  binary : Reads text r.binary
  finishAssignment (lo : Nat) (target : Node) :
    Gives text [target] (r.finishAssignment lo target) fun n => [n]
  operators (left : Node) (min : Nat) : Gives text [left] (r.operators left min) fun n => [n]
  construction : Reads text r.construction
  leftHandSide : Reads text r.leftHandSide
  type : Reads text r.type
  pattern : Reads text r.pattern
  isPlain_pattern : Yields r.pattern (·.form.isPlain = true)
  statement (isDeclaration : Bool) : Reads text (r.statement isDeclaration)
  block : Reads text r.block
  item : Reads text r.item
  element : Reads text r.element
  written_expression : ReadsWritten text r.expression
  written_assignment : ReadsWritten text r.assignment
  written_unary : ReadsWritten text r.unary
  written_binary : ReadsWritten text r.binary
  written_finishAssignment (lo : Nat) (target : Node) (start : Lexer) :
    Triple text (Written start · target) (r.finishAssignment lo target) fun n l => Written start l n
  written_operators (left : Node) (min : Nat) (start : Lexer) :
    Triple text (Written start · left) (r.operators left min) fun n l => Written start l n
  written_construction : ReadsWritten text r.construction
  written_leftHandSide : ReadsWritten text r.leftHandSide
  begins_assignment : BeginsFunctions r.assignment
  begins_unary : BeginsFunctions r.unary
  begins_construction : BeginsFunctions r.construction
  begins_leftHandSide : BeginsFunctions r.leftHandSide
  foldText_block : Yields r.block (foldText · = none)
  form_element : Yields r.element (·.form = .element)

namespace Rules.Sound

variable {r : Rules} (h : r.Sound text)
include h

theorem fullExpression : Reads text r.fullExpression := h.expression.adjust

theorem fullAssignment : Reads text r.fullAssignment := h.assignment.adjust

theorem begins_fullAssignment : BeginsFunctions r.fullAssignment :=
  fun start => (h.begins_assignment start).adjust

theorem written_fullExpression : ReadsWritten text r.fullExpression :=
  fun start => (h.written_expression start).adjust

theorem written_fullAssignment : ReadsWritten text r.fullAssignment :=
  fun start => (h.written_assignment start).adjust

end Rules.Sound

end Phrasebook.Script
