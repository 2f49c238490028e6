import Phrasebook.Proofs.Script.Place
import Phrasebook.Script.Parser

/-!
# Runs of parsers

A parser reads on in the text and never goes back. `Triple` says what holds behind it when
something holds in front of it, also when it fails; the rules follow the way in which parsers are
put together.
-/

namespace Phrasebook.Script

variable {α β : Type} {text : List Char}

/-! ### Runs -/

theorem bind_run (p : Parser α) (q : α → Parser β) (mode : Mode) (l : Lexer) :
    (p >>= q) mode l = match p mode l with
      | .ok a l' => q a mode l'
      | .error e l' => .error e l' := by
  change EStateM.bind (p mode) (fun a => q a mode) l = _
  unfold EStateM.bind
  cases p mode l <;> rfl

section Run

variable (mode : Mode) (l : Lexer)

@[simp] theorem pure_run (x : α) : (pure x : Parser α) mode l = .ok x l := rfl

@[simp] theorem get_run : (get : Parser Lexer) mode l = .ok l l := rfl

@[simp] theorem read_run : (read : Parser Mode) mode l = .ok mode l := rfl

@[simp] theorem kind_run : Parser.kind mode l = .ok l.kind l := rfl

@[simp] theorem pos_run : Parser.pos mode l = .ok l.pos l := rfl

@[simp] theorem previousEnd_run : Parser.previousEnd mode l = .ok l.previousEnd l := rfl

@[simp] theorem lineBreak_run : Parser.lineBreak mode l = .ok l.lineBreak l := rfl

@[simp] theorem is_run (k : Kind) : Parser.is k mode l = .ok (l.kind == k) l := rfl

@[simp] theorem isOneOf_run (ks : List Kind) :
    Parser.isOneOf ks mode l = .ok (ks.contains l.kind) l := rfl

@[simp] theorem peek_run : Parser.peek mode l = .ok l.next l := rfl

@[simp] theorem bump_run : Parser.bump mode l = .ok () l.next := rfl

@[simp] theorem node_run (form : Form) (lo : Nat) (parts : List Node) :
    Parser.node form lo parts mode l = .ok (.mk form lo l.previousEnd parts) l := rfl

@[simp] theorem adjust_run (f : Mode → Mode) (p : Parser α) :
    Parser.adjust f p mode l = p (f mode) l := rfl

theorem map_run (f : α → β) (p : Parser α) : (f <$> p) mode l = match p mode l with
    | .ok a l' => .ok (f a) l'
    | .error e l' => .error e l' := by
  rw [← bind_pure_comp, bind_run]
  rfl

theorem loop_run (a : α) (step : α → Parser (α × Bool)) :
    Parser.loop a step mode l = Parser.iterate step l.remaining a mode l := rfl

theorem ite_run (c : Prop) [Decidable c] (p q : Parser α) :
    (if c then p else q) mode l = if c then p mode l else q mode l := by
  split <;> rfl

end Run

theorem eat_run (k : Kind) (mode : Mode) (l : Lexer) :
    Parser.eat k mode l = if l.kind == k then .ok true l.next else .ok false l := by
  unfold Parser.eat
  rw [bind_run]
  change (if (l.kind == k) = true then _ else _ : Parser Bool) mode l = _
  split <;> rfl

theorem expect_run (k : Kind) (mode : Mode) (l : Lexer) :
    Parser.expect k mode l = if l.kind == k then .ok () l.next else Parser.unexpected mode l := by
  unfold Parser.expect
  rw [bind_run, eat_run]
  cases l.kind == k <;> rfl

/-- From a lexer with `P` on, `p` reads on in the text, and when it succeeds, `Q` holds. -/
def Triple (text : List Char) (P : Lexer → Prop) (p : Parser α) (Q : α → Lexer → Prop) : Prop :=
  ∀ mode l, l.On text → P l →
    match p mode l with
    | .ok a l' => l'.On text ∧ l.pos ≤ l'.pos ∧ Q a l'
    | .error _ l' => l'.On text ∧ l.pos ≤ l'.pos

namespace Triple

variable {P P' : Lexer → Prop} {Q Q' : α → Lexer → Prop} {R : β → Lexer → Prop} {p : Parser α}
  {q : α → Parser β}

theorem bind (hp : Triple text P p Q) (hq : ∀ a, Triple text (Q a) (q a) R) :
    Triple text P (p >>= q) R := by
  intro mode l hl hP
  have h := hp mode l hl hP
  rw [bind_run]
  cases hrun : p mode l with
  | error e l' =>
    rw [hrun] at h
    exact h
  | ok a l' =>
    rw [hrun] at h
    obtain ⟨hl', hle, hQ⟩ := h
    have h' := hq a mode l' hl' hQ
    dsimp only
    cases hrun' : q a mode l' with
    | error e l'' =>
      rw [hrun'] at h'
      exact ⟨h'.1, Nat.le_trans hle h'.2⟩
    | ok b l'' =>
      rw [hrun'] at h'
      exact ⟨h'.1, Nat.le_trans hle h'.2.1, h'.2.2⟩

theorem pure {a : α} (h : ∀ l, l.On text → P l → Q a l) :
    Triple text P (Pure.pure a : Parser α) Q :=
  fun _ l hl hP => ⟨hl, Nat.le_refl _, h l hl hP⟩

theorem ite {c : Prop} [Decidable c] {p' : Parser α} (h : Triple text P p Q)
    (h' : Triple text P p' Q) : Triple text P (if c then p else p') Q := by
  split
  · exact h
  · exact h'

/-- As `ite`, when the condition says what stands in front. -/
theorem iteOf {c : Prop} [Decidable c] {p' : Parser α} (h : c → Triple text P p Q)
    (h' : ¬c → Triple text P p' Q) : Triple text P (if c then p else p') Q := by
  split
  · rename_i hc
    exact h hc
  · rename_i hc
    exact h' hc

theorem failAt (offset : Nat) : Triple text P (Parser.failAt offset : Parser α) Q :=
  fun _ _ hl _ => ⟨hl, Nat.le_refl _⟩

theorem unexpected : Triple text P (Parser.unexpected : Parser α) Q :=
  fun _ _ hl _ => ⟨hl, Nat.le_refl _⟩

theorem adjust {change : Mode → Mode} (hp : Triple text P p Q) :
    Triple text P (Parser.adjust change p) Q :=
  fun mode => hp (change mode)

theorem imp (hp : Triple text P p Q) (hP : ∀ l, P' l → P l) (hQ : ∀ a l, Q a l → Q' a l) :
    Triple text P' p Q' := by
  intro mode l hl h
  have := hp mode l hl (hP l h)
  cases hrun : p mode l with
  | error e l' =>
    rw [hrun] at this
    exact this
  | ok a l' =>
    rw [hrun] at this
    exact ⟨this.1, this.2.1, hQ a l' this.2.2⟩

end Triple

/-! ### Looking at the token in hand -/

/-- A parser that only looks. -/
def Still (p : Parser α) : Prop := ∀ mode l, ∃ a, p mode l = .ok a l

namespace Still

theorem pure (x : α) : Still (Pure.pure x) := fun _ _ => ⟨x, rfl⟩

theorem bind {p : Parser α} {q : α → Parser β} (hp : Still p) (hq : ∀ x, Still (q x)) :
    Still (p >>= q) := by
  intro mode l
  obtain ⟨x, hx⟩ := hp mode l
  rw [bind_run, hx]
  exact hq x mode l

theorem get : Still (get : Parser Lexer) := fun _ _ => ⟨_, rfl⟩

theorem read : Still (read : Parser Mode) := fun _ _ => ⟨_, rfl⟩

theorem kind : Still Parser.kind := fun _ _ => ⟨_, rfl⟩

theorem spelling : Still Parser.text := fun _ _ => ⟨_, rfl⟩

theorem pos : Still Parser.pos := fun _ _ => ⟨_, rfl⟩

theorem previousEnd : Still Parser.previousEnd := fun _ _ => ⟨_, rfl⟩

theorem lineBreak : Still Parser.lineBreak := fun _ _ => ⟨_, rfl⟩

theorem is (k : Kind) : Still (Parser.is k) := fun _ _ => ⟨_, rfl⟩

theorem isOneOf (ks : List Kind) : Still (Parser.isOneOf ks) := fun _ _ => ⟨_, rfl⟩

theorem peek : Still Parser.peek := fun _ _ => ⟨_, rfl⟩

theorem peekIs (k : Kind) : Still (Parser.peekIs k) := fun _ _ => ⟨_, rfl⟩

theorem atStatementEnd : Still Parser.atStatementEnd := fun _ _ => ⟨_, rfl⟩

theorem isModifier : Still Parser.isModifier := fun _ _ => ⟨_, rfl⟩

theorem node (form : Form) (lo : Nat) (parts : List Node) : Still (Parser.node form lo parts) :=
  fun _ _ => ⟨_, rfl⟩

theorem lookAhead (p : Parser Bool) : Still (Parser.lookAhead p) := by
  intro mode l
  unfold Parser.lookAhead
  cases p mode l with
  | error e l' => exact ⟨_, rfl⟩
  | ok b l' => exact ⟨_, rfl⟩

end Still

/-! ### Results -/

/-- What `p` gives and the lexer behind it satisfy `Q`. -/
def Leaves (p : Parser α) (Q : α → Lexer → Prop) : Prop :=
  ∀ mode l a l', p mode l = .ok a l' → Q a l'

namespace Leaves

variable {Q : α → Lexer → Prop} {R : β → Lexer → Prop} {p p' : Parser α} {q : α → Parser β}

theorem pure {x : α} (h : ∀ l, Q x l) : Leaves (Pure.pure x) Q := by
  intro mode l a l' hrun
  cases hrun
  exact h l

/-- What follows may begin with the lexer that `p` leaves. -/
theorem bindAt (hp : Leaves p Q)
    (hq : ∀ x l, Q x l → ∀ mode y l', q x mode l = .ok y l' → R y l') : Leaves (p >>= q) R := by
  intro mode l b l'' hrun
  rw [bind_run] at hrun
  split at hrun
  · rename_i a l' hp'
    exact hq a l' (hp mode l a l' hp') mode b l'' hrun
  · simp at hrun

theorem bindOf {P : α → Prop} (hp : Leaves p fun a _ => P a) (hq : ∀ x, P x → Leaves (q x) R) :
    Leaves (p >>= q) R :=
  bindAt hp fun x l hx mode => hq x hx mode l

theorem bind (hq : ∀ x, Leaves (q x) R) : Leaves (p >>= q) R :=
  bindOf (P := fun _ => True) (fun _ _ _ _ _ => trivial) fun x _ => hq x

theorem ite {c : Prop} [Decidable c] (h : Leaves p Q) (h' : Leaves p' Q) :
    Leaves (if c then p else p') Q := by
  split
  · exact h
  · exact h'

theorem unexpected : Leaves (Parser.unexpected : Parser α) Q := by
  intro mode l a l' hrun
  cases hrun

theorem failAt (offset : Nat) : Leaves (Parser.failAt offset : Parser α) Q := by
  intro mode l a l' hrun
  cases hrun

/-- A step that is made only sometimes in front of `q`. -/
theorem skipIf {c : Prop} [Decidable c] {q : Parser β} (hq : Leaves q R) :
    Leaves (if c then p >>= fun _ => q else q) R :=
  .ite (.bind fun _ => hq) hq

theorem skipUnless {c : Prop} [Decidable c] {q : Parser β} (hq : Leaves q R) :
    Leaves (if c then q else p >>= fun _ => q) R :=
  .ite hq (.bind fun _ => hq)

/-- A node if there is one, else what `k` gives. -/
theorem orElse {Q : Node → Lexer → Prop} {p : Parser (Option Node)}
    {k : Option Node → Parser Node} (hp : Leaves p fun o l => ∀ n ∈ o, Q n l)
    (hsome : ∀ n, k (some n) = Pure.pure n) (hnone : Leaves (k none) Q) : Leaves (p >>= k) Q := by
  refine .bindAt hp fun o l ho mode n l' hrun => ?_
  cases o with
  | some m =>
    rw [hsome] at hrun
    cases hrun
    exact ho _ rfl
  | none => exact hnone mode l n l' hrun

theorem whether {p : Parser (Option Node)} {k : Option Node → Parser β}
    (hsome : ∀ n, Leaves (k (some n)) R) (hnone : Leaves (k none) R) : Leaves (p >>= k) R :=
  .bind fun o => by
    cases o with
    | some n => exact hsome n
    | none => exact hnone

theorem bindSome {Q : Node → Lexer → Prop} {p : Parser Node} (hp : Leaves p Q) :
    Leaves (p >>= fun n => Pure.pure (some n)) fun o l => ∀ n ∈ o, Q n l :=
  .bindAt hp fun n l hn mode o l' hrun m hm => by
    cases hrun
    cases hm
    exact hn

protected theorem none {Q : α → Lexer → Prop} :
    Leaves (Pure.pure none : Parser (Option α)) fun o l => ∀ n ∈ o, Q n l :=
  .pure fun _ _ hn => by cases hn

theorem iterate {step : α → Parser (α × Bool)} {P : α → Prop}
    (h : ∀ x, P x → Leaves (step x) fun y _ => P y.1) (n : Nat) {x : α} (hx : P x) :
    Leaves (Parser.iterate step n x) fun y _ => P y := by
  induction n generalizing x with
  | zero => exact .unexpected
  | succ n ih => exact .bindOf (h x hx) fun y hy => .ite (ih hy) (.pure fun _ => hy)

theorem loop {step : α → Parser (α × Bool)} {P : α → Prop} {x : α}
    (h : ∀ x, P x → Leaves (step x) fun y _ => P y.1) (hx : P x) :
    Leaves (Parser.loop x step) fun y _ => P y :=
  .bind fun _ => iterate h _ hx

theorem node {Q : Node → Lexer → Prop} {form : Form} {lo : Nat} {parts : List Node}
    (h : ∀ l, Q (.mk form lo l.previousEnd parts) l) : Leaves (Parser.node form lo parts) Q := by
  intro mode l n l' hrun
  cases hrun
  exact h l

theorem adjust {change : Mode → Mode} (hp : Leaves p Q) : Leaves (Parser.adjust change p) Q :=
  fun mode => hp (change mode)

end Leaves

/-- Whatever `p` gives satisfies `P`. -/
def Yields (p : Parser α) (P : α → Prop) : Prop := Leaves p fun a _ => P a

namespace Yields

variable {P : α → Prop} {Q : β → Prop} {p p' : Parser α} {q : α → Parser β}

theorem pure {x : α} (h : P x) : Yields (Pure.pure x) P := Leaves.pure fun _ => h

theorem bindOf (hp : Yields p P) (hq : ∀ x, P x → Yields (q x) Q) : Yields (p >>= q) Q :=
  Leaves.bindOf hp hq

theorem bind (hq : ∀ x, Yields (q x) Q) : Yields (p >>= q) Q := Leaves.bind hq

theorem ite {c : Prop} [Decidable c] (h : Yields p P) (h' : Yields p' P) :
    Yields (if c then p else p') P :=
  Leaves.ite h h'

theorem unexpected : Yields (Parser.unexpected : Parser α) P := Leaves.unexpected

theorem failAt (offset : Nat) : Yields (Parser.failAt offset : Parser α) P := Leaves.failAt offset

/-- A step that is made only sometimes in front of `q`. -/
theorem skipIf {c : Prop} [Decidable c] {q : Parser β} (hq : Yields q Q) :
    Yields (if c then p >>= fun _ => q else q) Q :=
  Leaves.skipIf hq

theorem skipUnless {c : Prop} [Decidable c] {q : Parser β} (hq : Yields q Q) :
    Yields (if c then q else p >>= fun _ => q) Q :=
  Leaves.skipUnless hq

/-- A node if there is one, else what `k` gives. -/
theorem orElse {P : Node → Prop} {p : Parser (Option Node)} {k : Option Node → Parser Node}
    (hp : Yields p fun o => ∀ n ∈ o, P n) (hsome : ∀ n, k (some n) = Pure.pure n)
    (hnone : Yields (k none) P) : Yields (p >>= k) P :=
  Leaves.orElse hp hsome hnone

theorem whether {p : Parser (Option Node)} {k : Option Node → Parser β}
    (hsome : ∀ n, Yields (k (some n)) Q) (hnone : Yields (k none) Q) : Yields (p >>= k) Q :=
  Leaves.whether hsome hnone

theorem bindSome {P : Node → Prop} {p : Parser Node} (hp : Yields p P) :
    Yields (p >>= fun n => Pure.pure (some n)) fun o => ∀ n ∈ o, P n :=
  Leaves.bindSome hp

protected theorem none {P : α → Prop} :
    Yields (Pure.pure none : Parser (Option α)) fun o => ∀ n ∈ o, P n :=
  Leaves.none

theorem loop {step : α → Parser (α × Bool)} {x : α}
    (h : ∀ x, P x → Yields (step x) fun y => P y.1) (hx : P x) : Yields (Parser.loop x step) P :=
  Leaves.loop h hx

theorem node {P : Node → Prop} {form : Form} {lo : Nat} {parts : List Node}
    (h : ∀ hi, P (.mk form lo hi parts)) : Yields (Parser.node form lo parts) P :=
  Leaves.node fun l => h l.previousEnd

theorem adjust {change : Mode → Mode} (hp : Yields p P) : Yields (Parser.adjust change p) P :=
  Leaves.adjust hp

end Yields

/-- Whatever `p` gives from the lexer `start` on satisfies `P`. -/
def YieldsAt (start : Lexer) (p : Parser α) (P : α → Prop) : Prop :=
  ∀ mode x l, p mode start = .ok x l → P x

namespace YieldsAt

variable {start : Lexer} {P : α → Prop} {Q : β → Prop} {p p' : Parser α} {q : α → Parser β}

theorem of_yields (hp : Yields p P) : YieldsAt start p P :=
  fun mode x l hrun => hp mode start x l hrun

theorem get {q : Lexer → Parser β} (hq : YieldsAt start (q start) Q) :
    YieldsAt start (get >>= q) Q :=
  hq

theorem pos {q : Nat → Parser β} (hq : YieldsAt start (q start.pos) Q) :
    YieldsAt start (Parser.pos >>= q) Q :=
  hq

theorem still (hp : Still p) (hq : ∀ x, YieldsAt start (q x) Q) : YieldsAt start (p >>= q) Q := by
  intro mode y l hrun
  obtain ⟨x, hx⟩ := hp mode start
  rw [bind_run, hx] at hrun
  exact hq x mode y l hrun

theorem bindOf (hp : YieldsAt start p P) (hq : ∀ x, P x → Yields (q x) Q) :
    YieldsAt start (p >>= q) Q := by
  intro mode y l hrun
  rw [bind_run] at hrun
  split at hrun
  · rename_i x l' hp'
    exact hq x (hp mode x l' hp') mode l' y l hrun
  · cases hrun

theorem bind (hq : ∀ x, Yields (q x) Q) : YieldsAt start (p >>= q) Q := of_yields (.bind hq)

theorem ite {c : Prop} [Decidable c] (h : YieldsAt start p P) (h' : YieldsAt start p' P) :
    YieldsAt start (if c then p else p') P := by
  split
  · exact h
  · exact h'

theorem unexpected : YieldsAt start (Parser.unexpected : Parser α) P := of_yields .unexpected

theorem adjust {change : Mode → Mode} (hp : YieldsAt start p P) :
    YieldsAt start (Parser.adjust change p) P :=
  fun mode => hp (change mode)

theorem attempt {p : Parser (Option α)} {P : Option α → Prop} (hp : YieldsAt start p P)
    (hnone : P none) : YieldsAt start (Parser.attempt p) P := by
  intro mode o l hrun
  unfold Parser.attempt at hrun
  cases heq : p mode start with
  | error e l' =>
    rw [heq] at hrun
    cases hrun
    exact hnone
  | ok x l' =>
    rw [heq] at hrun
    cases x with
    | none =>
      cases hrun
      exact hnone
    | some x =>
      cases hrun
      exact hp mode _ _ heq

/-- A node if there is one, else what `k` gives from the same lexer on. -/
theorem orElse {P : Node → Prop} {p : Parser (Option Node)} {k : Option Node → Parser Node}
    (hp : YieldsAt start (Parser.attempt p) fun o => ∀ n ∈ o, P n)
    (hsome : ∀ n, k (some n) = Pure.pure n) (hnone : YieldsAt start (k none) P) :
    YieldsAt start (Parser.attempt p >>= k) P := by
  intro mode n l hrun
  rw [bind_run] at hrun
  -- an attempt that gives nothing leads back to where it has begun
  have hback : ∀ l', Parser.attempt p mode start = .ok none l' → l' = start := by
    intro l' hattempt
    unfold Parser.attempt at hattempt
    split at hattempt
    · cases hattempt
    · cases hattempt
      rfl
  cases heq : Parser.attempt p mode start with
  | error e l' =>
    rw [heq] at hrun
    cases hrun
  | ok o l' =>
    rw [heq] at hrun
    cases o with
    | none =>
      obtain rfl := hback l' heq
      exact hnone mode n l hrun
    | some n' =>
      dsimp only at hrun
      rw [hsome] at hrun
      cases hrun
      exact hp mode _ _ heq n rfl

end YieldsAt

theorem Yields.of_start {p : Parser α} {P : α → Prop} (h : ∀ start, YieldsAt start p P) :
    Yields p P :=
  fun mode l => h l mode

theorem Yields.attempt {p : Parser (Option α)} {P : Option α → Prop} (hp : Yields p P)
    (hnone : P none) : Yields (Parser.attempt p) P :=
  .of_start fun _ => .attempt (.of_yields hp) hnone

/-! ### Longer runs -/

namespace Triple

variable {P P' : Lexer → Prop} {Q Q' : α → Lexer → Prop} {R : β → Lexer → Prop} {p : Parser α}
  {q : α → Parser β}

theorem still (hp : Still p) (hq : ∀ x, Triple text P (q x) R) : Triple text P (p >>= q) R := by
  intro mode l hl hP
  obtain ⟨x, hx⟩ := hp mode l
  rw [bind_run, hx]
  exact hq x mode l hl hP

theorem get {q : Lexer → Parser β}
    (hq : ∀ l, l.On text → P l → Triple text (· = l) (q l) R) : Triple text P (get >>= q) R :=
  fun mode l hl h => hq l hl h mode l hl rfl

theorem attempt {p : Parser (Option α)} {Q : Option α → Lexer → Prop}
    (hp : Triple text P p fun o l => ∀ x ∈ o, Q (some x) l) (hnone : ∀ l, P l → Q none l) :
    Triple text P (Parser.attempt p) Q := by
  intro mode l hl h
  have hrun := hp mode l hl h
  unfold Parser.attempt
  cases heq : p mode l with
  | error e l' => exact ⟨hl, Nat.le_refl _, hnone l h⟩
  | ok o l' =>
    rw [heq] at hrun
    cases o with
    | none => exact ⟨hl, Nat.le_refl _, hnone l h⟩
    | some x => exact ⟨hrun.1, hrun.2.1, hrun.2.2 x rfl⟩

theorem recover {Q : Option α → Lexer → Prop} (hp : Triple text P p fun x l => Q (some x) l)
    (hnone : ∀ l l', l.pos ≤ l'.pos → P l → Q none l') :
    Triple text P (Parser.recover p) Q := by
  intro mode l hl h
  have hrun := hp mode l hl h
  unfold Parser.recover
  cases heq : p mode l with
  | error e l' =>
    rw [heq] at hrun
    exact ⟨hrun.1, hrun.2, hnone l l' hrun.2 h⟩
  | ok x l' =>
    rw [heq] at hrun
    exact hrun

theorem iterate {step : α → Parser (α × Bool)}
    (h : ∀ x, Triple text (Q x) (step x) fun y => Q y.1) (n : Nat) (x : α) :
    Triple text (Q x) (Parser.iterate step n x) Q := by
  induction n generalizing x with
  | zero => exact .unexpected
  | succ n ih => exact (h x).bind fun y => .ite (ih y.1) (.pure fun _ _ h => h)

theorem loop {step : α → Parser (α × Bool)} {x : α}
    (h : ∀ x, Triple text (Q x) (step x) fun y => Q y.1) :
    Triple text (Q x) (Parser.loop x step) Q :=
  bind (Q := fun _ => Q x) (fun _ _ hl h => ⟨hl, Nat.le_refl _, h⟩) fun _ => iterate h _ x

theorem and {S : α → Prop} (hp : Triple text P p Q) (hS : Yields p S) :
    Triple text P p fun x l => Q x l ∧ S x := by
  intro mode l hl h
  have hrun := hp mode l hl h
  cases heq : p mode l with
  | error e l' =>
    rw [heq] at hrun
    exact hrun
  | ok x l' =>
    rw [heq] at hrun
    exact ⟨hrun.1, hrun.2.1, hrun.2.2, hS mode l x l' heq⟩

/-- What is seen of the token in hand is known behind it. -/
theorem kindOf {q : Kind → Parser β}
    (hq : ∀ k, Triple text (fun l => P l ∧ l.kind = k) (q k) R) :
    Triple text P (Parser.kind >>= q) R :=
  fun mode l hl h => hq l.kind mode l hl ⟨h, rfl⟩

theorem isOf {k : Kind} {q : Bool → Parser β}
    (hq : ∀ b, Triple text (fun l => P l ∧ (l.kind == k) = b) (q b) R) :
    Triple text P (Parser.is k >>= q) R :=
  fun mode l hl h => hq (l.kind == k) mode l hl ⟨h, rfl⟩

theorem peekOf {q : Lexer → Parser β}
    (hq : ∀ next, Triple text (fun l => P l ∧ l.next = next) (q next) R) :
    Triple text P (Parser.peek >>= q) R :=
  fun mode l hl h => hq l.next mode l hl ⟨h, rfl⟩

theorem bump : Triple text P Parser.bump fun _ l => ∃ l', l'.On text ∧ P l' ∧ l = l'.next :=
  fun _ l hl h => ⟨hl.next, hl.pos_le_next, l, hl, h, rfl⟩

theorem expect (k : Kind) : Triple text P (Parser.expect k)
    fun _ l => ∃ l', l'.On text ∧ P l' ∧ l'.kind = k ∧ l = l'.next := by
  intro mode l hl h
  rw [expect_run]
  cases hkind : l.kind == k with
  | true => exact ⟨hl.next, hl.pos_le_next, l, hl, h, eq_of_beq hkind, rfl⟩
  | false => exact ⟨hl, Nat.le_refl _⟩

/-- A step that is made only sometimes in front of `q`. -/
theorem stepIf {c : Prop} [Decidable c] {q : Parser β} (hp : Triple text P p fun _ => P)
    (hq : Triple text P q R) : Triple text P (if c then p >>= fun _ => q else q) R :=
  .ite (.bind hp fun _ => hq) hq

/-- What holds in front whatever the lexer is. -/
theorem given {c : Prop} (h : c → Triple text P p Q) : Triple text (fun l => c ∧ P l) p Q :=
  fun mode l hl hP => h hP.1 mode l hl hP.2

theorem pos {q : Nat → Parser β} {start : Lexer}
    (hq : Triple text (· = start) (q start.pos) R) :
    Triple text (· = start) (Parser.pos >>= q) R := by
  rintro mode _ hl rfl
  exact hq mode _ hl rfl

end Triple

end Phrasebook.Script
