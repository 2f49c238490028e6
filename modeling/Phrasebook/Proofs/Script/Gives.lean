import Phrasebook.Proofs.Script.Marks
import Phrasebook.Proofs.Script.Triple

/-!
# What parsers give

The result of a parser is put together from the nodes that it was given and from what it has read:
`Gives text ns p f` says that every account that holds of the nodes `ns` in front of `p` holds of
the nodes `f x` of its result `x` behind it. This follows the way in which a parser is written,
step by step.
-/

namespace Phrasebook.Script

variable {α β : Type} {text : List Char}

/-! ### Nodes in hand -/

/-- The marks of the nodes `ms` are among those of the nodes `ns`. -/
def Uses (ms ns : List Node) : Prop := ∀ m, (marksOf ms).count m ≤ (marksOf ns).count m

theorem Uses.refl (ns : List Node) : Uses ns ns := fun _ => Nat.le_refl _

/-- A plain node has the marks of its parts. -/
theorem Uses.mk {form : Form} (hform : form.isPlain = true) (lo hi : Nat) (parts : List Node) :
    Uses [.mk form lo hi parts] parts := fun m => by
  have hmarks : marksOf [.mk form lo hi parts] = marksOf parts := by
    rw [marksOf_cons, marks_of_isPlain hform, marksOf_nil, List.append_nil]
  exact Nat.le_of_eq (congrArg (List.count m) hmarks)

/-- When the nodes `ns` are in hand, those of the result of `p` are `f`. -/
def Gives (text : List Char) (ns : List Node) (p : Parser α) (f : α → List Node) : Prop :=
  ∀ K, Account text K →
    Triple text (fun l => K l.pos (marksOf ns)) p fun x l => K l.pos (marksOf (f x))

/-- A parser whose result has no nodes that matter. -/
def Moves (text : List Char) (p : Parser α) : Prop := Gives text [] p fun _ => []

/-- A parser that gives a node. -/
def Reads (text : List Char) (p : Parser Node) : Prop := Gives text [] p fun n => [n]

namespace Gives

variable {ns ms rest : List Node} {f f' : α → List Node} {g : β → List Node} {p : Parser α}
  {q : α → Parser β}

theorem mono (hp : Gives text ms p f) (hu : Uses ms ns) (hf : ∀ x, Uses (f' x) (f x)) :
    Gives text ns p f' :=
  fun K hK => (hp K hK).imp (fun _ h => hK.of_count h hu) fun x _ h => hK.of_count h (hf x)

theorem frame (hp : Gives text ms p f) (rest : List Node) :
    Gives text (rest ++ ms) p fun x => rest ++ f x := by
  intro K hK
  refine (hp _ (hK.frame (marksOf rest))).imp (fun l h => ?_) fun x l h => ?_
  · rwa [marksOf_append] at h
  · rwa [marksOf_append]

/-- A step that uses some of the nodes in hand; `rest` are the others. -/
theorem bindOn (rest : List Node) (hp : Gives text ms p f) (hu : Uses (rest ++ ms) ns)
    (hq : ∀ x, Gives text (rest ++ f x) (q x) g) : Gives text ns (p >>= q) g :=
  fun K hK => ((hp.frame rest).mono hu (fun _ => .refl _) K hK).bind fun x => hq x K hK

theorem bind (hp : Gives text [] p f) (hq : ∀ x, Gives text (ns ++ f x) (q x) g) :
    Gives text ns (p >>= q) g :=
  bindOn ns hp (fun m => by simp) hq

theorem skip (hp : Moves text p) (hq : ∀ x, Gives text ns (q x) g) :
    Gives text ns (p >>= q) g := by
  refine bind hp fun x => ?_
  rw [List.append_nil]
  exact hq x

theorem pure {x : α} (h : Uses (f x) ns) : Gives text ns (Pure.pure x) f :=
  fun _ hK => .pure fun _ _ haccount => hK.of_count haccount h

theorem done {x : α} : Gives text ns (Pure.pure x) fun _ => [] :=
  .pure fun m => by simp

protected theorem none : Gives text ns (Pure.pure none) Option.toList :=
  .pure fun m => by simp

theorem ite {c : Prop} [Decidable c] {p p' : Parser α} (h : Gives text ns p f)
    (h' : Gives text ns p' f) : Gives text ns (if c then p else p') f := by
  split
  · exact h
  · exact h'

/-- Two ways to get to the same `k`. -/
theorem choose {c : Prop} [Decidable c] {p p' : Parser α} {k : α → Parser β}
    (hp : Gives text [] p f) (hp' : Gives text [] p' f)
    (hk : ∀ x, Gives text (ns ++ f x) (k x) g) :
    Gives text ns (if c then p >>= k else p' >>= k) g :=
  .ite (.bind hp hk) (.bind hp' hk)

/-- A step that is made only sometimes in front of `q`. -/
theorem skipIf {c : Prop} [Decidable c] {p : Parser α} {q : Parser β} (hp : Moves text p)
    (hq : Gives text ns q g) : Gives text ns (if c then p >>= fun _ => q else q) g :=
  .ite (.skip hp fun _ => hq) hq

theorem skipUnless {c : Prop} [Decidable c] {p : Parser α} {q : Parser β} (hp : Moves text p)
    (hq : Gives text ns q g) : Gives text ns (if c then q else p >>= fun _ => q) g :=
  .ite hq (.skip hp fun _ => hq)

/-- A node that may be missing in front of `k`. -/
theorem optional {c : Prop} [Decidable c] {p : Parser Node} {k : List Node → Parser β}
    (hp : Reads text p) (hk : ∀ xs, Gives text (ns ++ xs) (k xs) g) :
    Gives text ns (if c then p >>= fun x => Pure.pure [x] >>= k else Pure.pure [] >>= k) g :=
  .ite (.bind hp fun x => .bindOn ns (.pure (f := id) (.refl [x])) (.refl _) hk)
    (.bindOn ns (.pure (f := id) (.refl [])) (fun m => by simp) hk)

/-- A node if there is one, else what `k` does with the nodes that are still in hand. -/
theorem orElseKeep {p : Parser (Option Node)} {k : Option Node → Parser Node}
    (hp : Gives text ns p fun o => o.elim ns fun n => [n]) (hsome : ∀ n, k (some n) = Pure.pure n)
    (hnone : Gives text ns (k none) fun n => [n]) : Gives text ns (p >>= k) fun n => [n] := by
  refine .bindOn [] hp (.refl _) fun o => ?_
  cases o with
  | none => exact hnone
  | some n =>
    rw [hsome]
    exact .pure (.refl _)

/-- A node if there is one, else what `k` does without it. -/
theorem orElse {p : Parser (Option Node)} {k : Option Node → Parser Node}
    (hp : Gives text [] p Option.toList) (hsome : ∀ n, k (some n) = Pure.pure n)
    (hnone : Gives text ns (k none) fun n => [n]) : Gives text ns (p >>= k) fun n => [n] := by
  refine orElseKeep ((hp.frame ns).mono (fun m => by simp) fun o => ?_) hsome hnone
  cases o with
  | none => exact fun m => by simp
  | some n => exact fun m => by simp

/-- What `k` does with a node and without one. -/
theorem whether {p : Parser (Option Node)} {k : Option Node → Parser β}
    (hp : Gives text [] p Option.toList) (hsome : ∀ n, Gives text (ns ++ [n]) (k (some n)) g)
    (hnone : Gives text ns (k none) g) : Gives text ns (p >>= k) g := by
  refine .bind hp fun o => ?_
  cases o with
  | none => exact hnone.mono (fun m => by simp) fun _ => .refl _
  | some n => exact hsome n

theorem failAt (offset : Nat) : Gives text ns (Parser.failAt offset : Parser α) f :=
  fun _ _ => .failAt offset

theorem unexpected : Gives text ns (Parser.unexpected : Parser α) f := fun _ _ => .unexpected

theorem map {h : α → β} (hp : Gives text ns p f) (hf : ∀ x, Uses (g (h x)) (f x)) :
    Gives text ns (h <$> p) g :=
  fun K hK => (hp K hK).bind fun x => Gives.pure (hf x) K hK

theorem adjust {change : Mode → Mode} (hp : Gives text ns p f) :
    Gives text ns (Parser.adjust change p) f :=
  fun K hK => (hp K hK).adjust

/-! ### Nodes -/

theorem node_of_ownMarks {form : Form} {lo : Nat} {parts : List Node}
    (hown : ownMarks form parts = []) (h : Uses parts ns) :
    Gives text ns (Parser.node form lo parts) fun n => [n] := by
  refine fun K hK => .still .previousEnd fun hi => .pure fun l _ haccount =>
    hK.of_count haccount fun m => ?_
  rw [marksOf_cons, marks_mk, hown, List.nil_append, marksOf_nil, List.append_nil]
  exact h m

theorem node {form : Form} {lo : Nat} {parts : List Node} (hform : form.isPlain = true)
    (h : Uses parts ns) : Gives text ns (Parser.node form lo parts) fun n => [n] :=
  node_of_ownMarks (ownMarks_of_isPlain hform parts) h

theorem leaf {form : Form} {lo : Nat} : Gives text ns (Parser.node form lo []) fun n => [n] :=
  node_of_ownMarks (ownMarks_nil form) fun m => by simp

theorem bindPure {x : α} {k : α → Parser β} (hk : Gives text ns (k x) g) :
    Gives text ns (Pure.pure x >>= k) g :=
  hk

/-- A node of which the form matters. -/
theorem bindNode (rest : List Node) {form : Form} {lo : Nat} {parts : List Node}
    {k : Node → Parser β} (hform : form.isPlain = true) (hu : Uses (rest ++ parts) ns)
    (hk : ∀ n, n.form = form → Gives text (rest ++ [n]) (k n) g) :
    Gives text ns (Parser.node form lo parts >>= k) g := by
  intro K hK mode l hl haccount
  refine hk (.mk form lo l.previousEnd parts) rfl K hK mode l hl
    (hK.of_count haccount fun m => ?_)
  have := hu m
  simp only [marksOf_append, marksOf_cons, marksOf_nil, marks_of_isPlain hform,
    List.count_append, List.append_nil] at this ⊢
  omega

/-! ### Going back -/

theorem attempt {p : Parser (Option α)} {f : Option α → List Node} (hp : Gives text ns p f)
    (hnone : Uses (f none) ns) : Gives text ns (Parser.attempt p) f :=
  fun K hK => .attempt ((hp K hK).imp (fun _ h => h) fun _ _ h _ hx => hx ▸ h)
    fun _ h => hK.of_count h hnone

/-- What is in hand stays there when nothing comes of it. -/
theorem attemptKeep {p : Parser (Option Node)} (hp : Gives text ns p Option.toList) :
    Gives text ns (Parser.attempt p) fun o => o.elim ns fun n => [n] := by
  refine fun K hK => .attempt ((hp K hK).imp (fun _ h => h) fun o l h x hx => ?_) fun _ h => h
  obtain rfl : o = some x := hx
  exact h

theorem recover {f : Option α → List Node} (hp : Gives text ns p fun x => f (some x))
    (hnone : Uses (f none) ns) : Gives text ns (Parser.recover p) f :=
  fun K hK => .recover (hp K hK) fun _ _ hle h => hK.of_count (hK.mono h hle) hnone

/-- What is known of a result besides its nodes. -/
theorem bindOnOf (rest : List Node) {P : α → Prop} (hp : Gives text ms p f)
    (hu : Uses (rest ++ ms) ns) (hP : Yields p P)
    (hq : ∀ x, P x → Gives text (rest ++ f x) (q x) g) : Gives text ns (p >>= q) g :=
  fun K hK => (((hp.frame rest).mono hu (fun _ => .refl _) K hK).and hP).bind fun x mode l hl h =>
    hq x h.2 K hK mode l hl h.1

theorem bindOf {P : α → Prop} (hp : Gives text [] p f) (hP : Yields p P)
    (hq : ∀ x, P x → Gives text (ns ++ f x) (q x) g) : Gives text ns (p >>= q) g :=
  bindOnOf ns hp (fun m => by simp) hP hq

/-! ### Repetition -/

/-- What every step of a loop keeps, the loop keeps. -/
theorem loop (keep : α → List Node) {step : α → Parser (α × Bool)} {x : α}
    (hx : Uses (keep x) ns) (h : ∀ x, Gives text (keep x) (step x) fun y => keep y.1) :
    Gives text ns (Parser.loop x step) keep :=
  fun K hK => (Triple.loop fun x => h x K hK).imp (fun _ haccount => hK.of_count haccount hx)
    fun _ _ haccount => haccount

end Gives

/-! ### Looking at what is in hand -/

/-- A parser that reads nothing and only puts the nodes in hand together in another way. -/
def Shapes (ns : List Node) (p : Parser α) (f : α → List Node) : Prop :=
  ∀ mode l, match p mode l with
    | .ok x l' => l' = l ∧ Uses (f x) ns
    | .error _ l' => l' = l

namespace Shapes

variable {ns ms rest : List Node} {f : α → List Node} {g : β → List Node} {p p' : Parser α}
  {q : α → Parser β}

theorem gives (hp : Shapes ns p f) : Gives text ns p f := by
  intro K hK mode l hl haccount
  have h := hp mode l
  cases hrun : p mode l with
  | error e l' =>
    rw [hrun] at h
    obtain rfl : l' = l := h
    exact ⟨hl, Nat.le_refl _⟩
  | ok x l' =>
    rw [hrun] at h
    obtain ⟨rfl, hu⟩ := h
    exact ⟨hl, Nat.le_refl _, hK.of_count haccount hu⟩

theorem mono (hp : Shapes ms p f) (hu : Uses ms ns) : Shapes ns p f := by
  intro mode l
  have h := hp mode l
  cases hrun : p mode l with
  | error e l' =>
    rw [hrun] at h
    exact h
  | ok x l' =>
    rw [hrun] at h
    exact ⟨h.1, fun m => Nat.le_trans (h.2 m) (hu m)⟩

theorem pure {x : α} (h : Uses (f x) ns) : Shapes ns (Pure.pure x) f := fun _ _ => ⟨rfl, h⟩

theorem failAt (offset : Nat) : Shapes ns (Parser.failAt offset : Parser α) f := fun _ _ => rfl

theorem ite {c : Prop} [Decidable c] (h : Shapes ns p f) (h' : Shapes ns p' f) :
    Shapes ns (if c then p else p') f := by
  split
  · exact h
  · exact h'

theorem bindOn (rest : List Node) (hp : Shapes ms p f) (hu : Uses (rest ++ ms) ns)
    (hq : ∀ x, Shapes (rest ++ f x) (q x) g) : Shapes ns (p >>= q) g := by
  intro mode l
  have h := hp mode l
  rw [bind_run]
  cases hrun : p mode l with
  | error e l' =>
    rw [hrun] at h
    exact h
  | ok x l' =>
    rw [hrun] at h
    obtain ⟨rfl, hx⟩ := h
    have h' := hq x mode l'
    dsimp only
    cases hrun' : q x mode l' with
    | error e l'' =>
      rw [hrun'] at h'
      exact h'
    | ok y l'' =>
      rw [hrun'] at h'
      refine ⟨h'.1, fun m => Nat.le_trans (h'.2 m) (Nat.le_trans ?_ (hu m))⟩
      rw [marksOf_append, marksOf_append, List.count_append, List.count_append]
      exact Nat.add_le_add_left (hx m) _

theorem still (hp : Still p) (hq : ∀ x, Shapes ns (q x) g) : Shapes ns (p >>= q) g := by
  intro mode l
  obtain ⟨x, hx⟩ := hp mode l
  rw [bind_run, hx]
  exact hq x mode l

end Shapes

/-! ### Steps without nodes -/

namespace Moves

theorem of_run {p : Parser α} (h : ∀ mode l, l.On text →
    match p mode l with
    | .ok _ l' => l'.On text ∧ l.pos ≤ l'.pos
    | .error _ l' => l'.On text ∧ l.pos ≤ l'.pos) : Moves text p := by
  intro K hK mode l hl haccount
  have hrun := h mode l hl
  cases heq : p mode l with
  | error e l' =>
    rw [heq] at hrun
    exact hrun
  | ok x l' =>
    rw [heq] at hrun
    exact ⟨hrun.1, hrun.2, hK.mono haccount hrun.2⟩

theorem of_still {p : Parser α} (h : Still p) : Moves text p := by
  refine .of_run fun mode l hl => ?_
  obtain ⟨a, ha⟩ := h mode l
  rw [ha]
  exact ⟨hl, Nat.le_refl _⟩

/-- A parser whose nodes do not matter. -/
theorem of_gives {ns : List Node} {p : Parser α} {f : α → List Node} (h : Gives text ns p f) :
    Moves text p := by
  refine .of_run fun mode l hl => ?_
  have hrun := h _ .idle mode l hl ⟨⟩
  cases heq : p mode l with
  | error e l' =>
    rw [heq] at hrun
    exact hrun
  | ok x l' =>
    rw [heq] at hrun
    exact ⟨hrun.1, hrun.2.1⟩

theorem modify {change : Lexer → Lexer}
    (h : ∀ l, l.On text → (change l).On text ∧ l.pos ≤ (change l).pos) :
    Moves text (modify change : Parser Unit) :=
  .of_run fun _ l hl => h l hl

theorem get : Moves text (get : Parser Lexer) := .of_still .get

theorem read : Moves text (read : Parser Mode) := .of_still .read

theorem kind : Moves text Parser.kind := .of_still .kind

theorem spelling : Moves text Parser.text := .of_still .spelling

theorem pos : Moves text Parser.pos := .of_still .pos

theorem previousEnd : Moves text Parser.previousEnd := .of_still .previousEnd

theorem lineBreak : Moves text Parser.lineBreak := .of_still .lineBreak

theorem is (k : Kind) : Moves text (Parser.is k) := .of_still (.is _)

theorem isOneOf (ks : List Kind) : Moves text (Parser.isOneOf ks) := .of_still (.isOneOf _)

theorem peek : Moves text Parser.peek := .of_still .peek

theorem peekIs (k : Kind) : Moves text (Parser.peekIs k) := .of_still (.peekIs _)

theorem atStatementEnd : Moves text Parser.atStatementEnd := .of_still .atStatementEnd

theorem isModifier : Moves text Parser.isModifier := .of_still .isModifier

theorem lookAhead (p : Parser Bool) : Moves text (Parser.lookAhead p) :=
  .of_still (.lookAhead p)

theorem bump : Moves text Parser.bump := modify fun _ hl => ⟨hl.next, hl.pos_le_next⟩

theorem unexpected : Moves text (Parser.unexpected : Parser α) := Gives.unexpected

theorem failAt (offset : Nat) : Moves text (Parser.failAt offset : Parser α) :=
  Gives.failAt offset

theorem eat (k : Kind) : Moves text (Parser.eat k) :=
  Gives.skip (is k) fun _ => .ite (.skip bump fun _ => .done) .done

theorem expect (k : Kind) : Moves text (Parser.expect k) :=
  Gives.skip (eat k) fun _ => .ite .done .unexpected

theorem word : Moves text Parser.word :=
  Gives.skip kind fun _ => .ite (.skip spelling fun _ => .skip bump fun _ => .done) .unexpected

theorem bindingWord : Moves text Parser.bindingWord :=
  Gives.skip kind fun _ => .ite word .unexpected

theorem eatStatementEnd : Moves text Parser.eatStatementEnd :=
  Gives.skip (eat _) fun _ => .ite .done atStatementEnd

theorem expectStatementEnd : Moves text Parser.expectStatementEnd :=
  Gives.skip eatStatementEnd fun _ => .ite .done .unexpected

theorem eatModifier (words : List Kind) : Moves text (Parser.eatModifier words) :=
  Gives.skip kind fun _ =>
    .ite (.skip isModifier fun _ => .ite (.skip bump fun _ => .done) .done) .done

theorem skipModifier : Moves text Parser.skipModifier :=
  Gives.skip (isOneOf _) fun _ =>
    .ite (.skip peek fun _ => .ite (.skip (eatModifier _) fun _ => .done) .done) .done

end Moves

/-! ### Words and lists -/

theorem reads_wordNode : Reads text Parser.wordNode :=
  .skip .pos fun _ => .skip .word fun _ => .leaf

theorem reads_bindingName : Reads text Parser.bindingName :=
  .skip .pos fun _ => .skip .bindingWord fun _ => .leaf

theorem gives_many {stop : Parser Bool} {element : Parser Node} (hstop : Moves text stop)
    (h : Reads text element) : Gives text [] (Parser.many stop element) id := by
  refine .bind (.loop id (.refl _) fun nodes => ?_) fun nodes => .pure fun m => by simp
  exact .skip hstop fun _ => .ite (.pure (.refl _)) <| .bind h fun n => .pure fun m => by
    simp [Nat.add_comm]

/-- Elements of which what `wrap` makes matters. -/
theorem gives_separatedAs {element : Parser Node} (wrap : Node → Node) (close : Kind)
    (h : Gives text [] element fun n => [wrap n]) :
    Gives text [] (Parser.separated close element) (List.map wrap) := by
  refine .bind (.loop (List.map wrap) (.refl _) fun nodes => ?_) fun nodes => .pure fun m => by
    simp
  have hcons (n : Node) : Uses ((n :: nodes).map wrap) (nodes.map wrap ++ [wrap n]) := fun m => by
    simp [Nat.add_comm]
  exact .skip (.is _) fun _ => .ite (.pure (.refl _)) <| .bind h fun n =>
    .skip (.is _) fun _ => .ite (.pure (hcons n)) (.skip (.expect _) fun _ => .pure (hcons n))

theorem gives_separated {element : Parser Node} (close : Kind) (h : Reads text element) :
    Gives text [] (Parser.separated close element) id :=
  (gives_separatedAs id close h).mono (.refl _) fun ns m => by simp

end Phrasebook.Script
