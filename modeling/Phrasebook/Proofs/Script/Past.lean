import Phrasebook.Proofs.Script.Sound

/-!
# Behind the place of a property

A property is accounted for by its place, so what stands in it has to be accounted for behind that
place. Marks are `Past` a place when this is so as soon as anything is read there, and a token with
a known spelling makes it so: `GivesPast` says what a parser gives that begins with one.
-/

namespace Phrasebook.Script

variable {α β : Type} {text : List Char}

/-- From byte `place` up to byte `b` marks are accounted for, and behind `place` when more is
read. -/
structure Past (text : List Char) (place b : Nat) (ms : List Mark) : Prop where
  accounted : Accounted text place b ms
  behind {c : Nat} (hplace : place < c) (hb : b ≤ c) : Accounted text (place + 1) c ms

namespace Past

variable {place place' b : Nat} {ms : List Mark}

theorem nil (h : place ≤ b) : Past text place b [] := ⟨.nil h, fun hplace _ => .nil hplace⟩

theorem of_accounted (h : Accounted text (place + 1) b ms) : Past text place b ms :=
  ⟨h.widen (Nat.le_succ place), fun _ hb => h.mono hb⟩

theorem widen (h : Past text place b ms) (hle : place' ≤ place) : Past text place' b ms := by
  refine ⟨h.accounted.widen hle, fun {c} hplace hb => ?_⟩
  rcases Nat.lt_or_ge place c with hlt | hge
  · exact (h.behind hlt hb).widen (Nat.succ_le_succ hle)
  · have := h.accounted.le
    exact (h.accounted.mono hb).widen (by omega)

end Past

/-- Tokens of the kind have a known spelling. -/
def Kind.isSpelled (k : Kind) : Bool := k.spelling?.any (!·.isEmpty)

/-- Such a token has a place behind it. -/
theorem Lexer.On.pos_lt_next {l : Lexer} (h : l.On text) {k : Kind} (hkind : l.kind = k)
    (hk : k.isSpelled = true) : l.pos < l.next.pos := by
  obtain ⟨cs, hcs, hne⟩ := (Option.any_eq_true ..).mp hk
  have hafter := (h.spelled hkind hcs).2
  have hle := h.pos_le
  have hnext : l.after.pos ≤ l.next.pos := h.next.previousEnd_le
  cases cs with
  | nil => cases hne
  | cons x xs =>
    have hx := x.utf8Size_pos
    simp only [Text.byteLength] at hafter
    omega

/-! ### Results of parsers -/

/-- As `Gives`, with what is in hand past a place and the result behind it. -/
def GivesPast (text : List Char) (ns : List Node) (p : Parser α) (f : α → List Node) : Prop :=
  ∀ place, Triple text (fun l => Past text place l.pos (marksOf ns)) p
    fun x l => Accounted text (place + 1) l.pos (marksOf (f x))

namespace Triple

variable {P : Lexer → Prop} {Q Q' : α → Lexer → Prop} {R : β → Lexer → Prop} {p : Parser α}
  {k : Kind} {place : Nat} {ms : List Mark}

/-- Two things that hold of one run. -/
theorem both (h : Triple text P p Q) (h' : Triple text P p Q') :
    Triple text P p fun x l => Q x l ∧ Q' x l := by
  intro mode l hl hP
  have hrun := h mode l hl hP
  have hrun' := h' mode l hl hP
  cases heq : p mode l with
  | error e l' =>
    rw [heq] at hrun
    exact hrun
  | ok x l' =>
    rw [heq] at hrun hrun'
    exact ⟨hrun.1, hrun.2.1, hrun.2.2, hrun'.2.2⟩

/-- From whatever lexer `p` is run on. -/
theorem start (h : ∀ l, l.On text → P l → Triple text (· = l) p Q) : Triple text P p Q :=
  fun mode l hl hP => h l hl hP mode l hl rfl

theorem eatOf {q : Bool → Parser β}
    (hyes : Triple text (fun l => ∃ l', l'.On text ∧ P l' ∧ l'.kind = k ∧ l = l'.next) (q true) R)
    (hno : Triple text P (q false) R) : Triple text P (Parser.eat k >>= q) R := by
  refine .bind (Q := fun b l => (b = true → ∃ l', l'.On text ∧ P l' ∧ l'.kind = k ∧ l = l'.next) ∧
    (b = false → P l)) ?_ fun b => ?_
  · intro mode l hl hP
    rw [eat_run]
    cases hkind : l.kind == k with
    | true =>
      exact ⟨hl.next, hl.pos_le_next, fun _ => ⟨l, hl, hP, eq_of_beq hkind, rfl⟩, nofun⟩
    | false => exact ⟨hl, Nat.le_refl _, nofun, fun _ => hP⟩
  · cases b with
    | true => exact hyes.imp (fun _ h => h.1 rfl) fun _ _ h => h
    | false => exact hno.imp (fun _ h => h.2 rfl) fun _ _ h => h

theorem behind_next {l l' : Lexer} (hk : k.isSpelled = true) (hl : l'.On text)
    (h : Past text place l'.pos ms) (hkind : l'.kind = k) (heq : l = l'.next) :
    Accounted text (place + 1) l.pos ms := by
  subst heq
  have hlt := hl.pos_lt_next hkind hk
  exact h.behind (Nat.lt_of_le_of_lt h.accounted.le hlt) (Nat.le_of_lt hlt)

/-- Behind a token that has been eaten. -/
theorem eatPast {q : Bool → Parser β} (hk : k.isSpelled = true)
    (hyes : Triple text (fun l => Accounted text (place + 1) l.pos ms) (q true) R)
    (hno : Triple text (fun l => Past text place l.pos ms) (q false) R) :
    Triple text (fun l => Past text place l.pos ms) (Parser.eat k >>= q) R :=
  .eatOf (hyes.imp (fun _ ⟨_, hl, h, hkind, heq⟩ => behind_next hk hl h hkind heq)
    fun _ _ h => h) hno

end Triple

theorem Triple.of_yieldsAt {start : Lexer} {p : Parser α} {P : α → Prop} (hp : Moves text p)
    (h : YieldsAt start p P) : Triple text (· = start) p fun x _ => P x :=
  .of_run hp fun mode l x l' hl hrun => by
    subst hl
    exact h mode x l' hrun

theorem Moves.triple_le {start : Lexer} {p : Parser α} (hp : Moves text p) :
    Triple text (· = start) p fun _ l => start.pos ≤ l.pos :=
  (hp.triple (P := (start.pos ≤ ·.pos)) fun _ _ hle h => Nat.le_trans h hle).imp
    (fun _ hl => Nat.le_of_eq (congrArg Lexer.pos hl.symm)) fun _ _ h => h

/-- Marks that are accounted for from where `p` is run on can be entered into every account. -/
theorem gives_of_accounted {p : Parser α} {f : α → List Node}
    (h : ∀ start, Triple text (· = start) p
      fun x l => Accounted text start.pos l.pos (marksOf (f x))) : Gives text [] p f :=
  fun _ hK => .start fun start _ hstart => (h start).imp (fun _ h => h) fun _ _ h =>
    hK.append hstart h

namespace GivesPast

variable {ns : List Node} {f : α → List Node} {p : Parser α} {k : Kind}

theorem expect (rest ms : List Node) {q : Unit → Parser α} (hk : k.isSpelled = true)
    (hu : Uses (rest ++ ms) ns) (hq : Gives text ms (q ()) f) :
    GivesPast text ns (Parser.expect k >>= q) fun x => rest ++ f x := by
  refine fun place => .bind (.expect k) fun _ => ?_
  refine ((hq.frame rest).mono hu (fun _ => .refl _) _ (.accounted (place + 1))).imp
    (fun l ⟨l', hl, h, hkind, heq⟩ => ?_) fun _ _ h => h
  exact Triple.behind_next hk hl h hkind heq

theorem gives (h : GivesPast text [] p f) : Gives text [] p f :=
  gives_of_accounted fun start => (h start.pos).imp
    (fun l (hl : l = start) => hl ▸ Past.nil (Nat.le_refl _))
    fun _ _ h => h.widen (Nat.le_succ _)

end GivesPast

end Phrasebook.Script
