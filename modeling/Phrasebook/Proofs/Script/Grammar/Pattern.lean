import Phrasebook.Proofs.Script.Past
import Phrasebook.Script.Grammar.Pattern

/-!
# Patterns, keys and parameters account for what they read

An expression that is taken for a pattern has no other marks than before, since its form changes
but not what stands in it.
-/

namespace Phrasebook.Script.Grammar

section Rule

variable {text : List Char} {r : Rules} (h : r.Sound text)
include h

/-! ### Keys -/

theorem past_computedKey : GivesPast text [] (computedKey r) fun k => [k] := fun place =>
  .still .pos fun _ => GivesPast.expect [] [] (by decide) (.refl _) (.bind h.fullExpression fun _ =>
    .skip (.expect _) fun _ => .node rfl (.refl _)) place

theorem reads_computedKey : Reads text (computedKey r) := (past_computedKey h).gives

omit h in
theorem reads_literalKey : Reads text literalKey :=
  .skip .get fun l => .skip .bump fun _ => by
    split <;> exact .leaf

theorem reads_key : Reads text (key r) :=
  .skip .kind fun k => by
    split
    · exact reads_literalKey
    · exact reads_literalKey
    · exact reads_literalKey
    · exact reads_computedKey h
    · exact reads_wordNode

/-- A key begins with the token in hand, and what stands in it stands behind that place. -/
theorem triple_key (start : Lexer) : Triple text (· = start) (key r)
    fun k l => k.lo = start.pos ∧ Past text start.pos l.pos (marksOf [k]) := by
  -- a key without parts has no marks, so only its place is to be said
  have hleaf {p : Parser Node} (hp : Moves text p)
      (hyields : YieldsAt start p fun k => k.lo = start.pos ∧ k.parts = []) :
      Triple text (· = start) p
        fun k l => k.lo = start.pos ∧ Past text start.pos l.pos (marksOf [k]) := by
    refine (hp.triple_le.both (.of_yieldsAt hp hyields)).imp (fun _ h => h) ?_
    rintro ⟨form, lo, hi, parts⟩ l ⟨hle, hlo, hparts⟩
    obtain rfl : parts = [] := hparts
    refine ⟨hlo, ?_⟩
    simpa using Past.nil hle
  have hliteral := hleaf (.of_gives reads_literalKey) <| .get <| .bind fun _ => by
    split <;> exact .node fun _ => ⟨rfl, rfl⟩
  refine .still .kind fun k => ?_
  split
  · exact hliteral
  · exact hliteral
  · exact hliteral
  · have hlo : YieldsAt start (computedKey r) (·.lo = start.pos) :=
      .pos <| .bind fun _ => .bind fun _ => .bind fun _ => .node fun _ => rfl
    refine (Triple.of_yieldsAt (.of_gives (reads_computedKey h)) hlo).both ?_
    exact (past_computedKey h start.pos).imp
      (fun l hl => Past.nil (Nat.le_of_eq (congrArg Lexer.pos hl.symm))) fun _ _ => .of_accounted
  · exact hleaf (.of_gives reads_wordNode) (.pos <| .bind fun _ => .node fun _ => ⟨rfl, rfl⟩)

theorem reads_classKey : Reads text (classKey r) :=
  .skip (.is _) fun _ => .ite
    (.skip .get fun _ => .skip .bump fun _ => .skip .pos fun _ => .ite
      (.skip .unexpected fun _ => .skip .word fun _ => .leaf) (.skip .word fun _ => .leaf))
    (reads_key h)

/-! ### Types of names -/

theorem gives_annotation? : Gives text [] (annotation? r) Option.toList :=
  .skip (.eat _) fun _ => .ite (.bind h.type.adjust fun _ => .pure (.refl _)) (.pure (.refl _))

omit h in
theorem marks_withPart {n : Node} (hn : n.form.isPlain = true) (part : Node) :
    marks (n.withPart part) = marks n ++ marks part := by
  obtain ⟨form, lo, hi, parts⟩ := n
  have hform : form.isPlain = true := hn
  simp [Node.withPart, hform]

theorem gives_annotated {n : Node} (hn : n.form.isPlain = true) :
    Gives text [n] (annotated r n) fun n => [n] :=
  .bind (gives_annotation? h) fun t => by
    cases t with
    | none => exact .pure (.refl _)
    | some t => exact .pure fun m => by simp [marks_withPart hn]

/-! ### Patterns -/

theorem gives_withDefault (lo : Nat) (n : Node) :
    Gives text [n] (withDefault r lo n) fun n => [n] :=
  .skip (.eat _) fun _ => .ite (.bind h.fullAssignment fun _ => .node rfl (.refl _))
    (.pure (.refl _))

theorem reads_patternElement : Reads text (patternElement r) :=
  .skip .pos fun _ => .bind h.pattern fun _ => gives_withDefault h _ _

theorem reads_restElement : Reads text (restElement r) :=
  .skip .pos fun _ => .skip (.expect _) fun _ => .bind h.pattern fun _ => .node rfl (.refl _)

theorem reads_arrayPattern : Reads text (arrayPattern r) := by
  refine .skip .pos fun _ => .skip (.expect _) fun _ =>
    .bind (.loop id (.refl _) fun elements => ?_) fun elements =>
      .skip (.expect _) fun _ => .node rfl fun m => by simp
  have hcons (e : Node) : Uses (e :: elements) (elements ++ [e]) := fun m => by
    simp [Nat.add_comm]
  exact .skip (.is _) fun _ => .ite (.pure (.refl _)) <| .skip (.eat _) fun _ =>
    .ite (.pure (.refl _)) <| .skip (.is _) fun _ =>
      .choose (reads_restElement h) (reads_patternElement h) fun e => .skip (.is _) fun _ =>
        .ite (.pure (hcons e)) (.skip (.expect _) fun _ => .pure (hcons e))

theorem reads_patternProperty : Reads text (patternProperty r) :=
  .skip (.is _) fun _ => .ite (reads_restElement h) <|
    .skip .pos fun _ => .bind (reads_key h) fun k => .skip (.eat _) fun _ => .ite
      (.bind (reads_patternElement h) fun _ => .node rfl (.refl _)) (by
        split
        · exact gives_withDefault h _ _
        · exact .unexpected)

theorem reads_objectPattern : Reads text (objectPattern r) :=
  .skip .pos fun _ => .skip (.expect _) fun _ =>
    .bind (gives_separated _ (reads_patternProperty h)) fun _ =>
      .skip (.expect _) fun _ => .node rfl (.refl _)

theorem reads_pattern : Reads text (pattern r) :=
  .skip .kind fun _ => by
    split
    · exact reads_arrayPattern h
    · exact reads_objectPattern h
    · exact reads_bindingName

omit h in
theorem isPlain_pattern : Yields (pattern r) (·.form.isPlain = true) :=
  .bind fun k => by
    split
    · exact .bind fun _ => .bind fun _ => .bind fun _ => .bind fun _ => .node fun _ => rfl
    · exact .bind fun _ => .bind fun _ => .bind fun _ => .bind fun _ => .node fun _ => rfl
    · exact .bind fun _ => .bind fun _ => .node fun _ => rfl

/-! ### Parameters -/

theorem reads_restParameter : Reads text (restParameter r) := by
  refine .skip .pos fun lo => .skip (.expect _) fun _ =>
    .bindOf h.pattern h.isPlain_pattern fun n hn => .skip (.eat _) fun _ => ?_
  have htail {ns : List Node} {n : Node} (hn : n.form.isPlain = true) (hu : Uses [n] ns) :
      Gives text ns (Parser.eat .question >>= fun _ => annotated r n >>= fun n =>
        Parser.node .restPattern lo [n]) fun n => [n] :=
    .skip (.eat _) fun _ => .bindOn [] (gives_annotated h hn) hu fun _ => .node rfl (.refl _)
  exact .ite
    (.bind h.assignment fun e => .bindNode [] rfl (.refl _) fun n hn => htail (hn ▸ rfl) (.refl _))
    (.bindPure (htail hn (.refl _)))

theorem reads_plainParameter : Reads text (plainParameter r) :=
  .skip .skipModifier fun _ => .skip .pos fun _ =>
    .bindOf h.pattern h.isPlain_pattern fun _ hn => .skip (.eat _) fun _ =>
      .bindOn [] (gives_annotated h hn) (.refl _) fun _ => gives_withDefault h _ _

theorem reads_parameter : Reads text (parameter r) :=
  .skip (.is _) fun _ => .ite (reads_restParameter h) (reads_plainParameter h)

omit h in
theorem reads_parameters {one : Parser Node} (hone : Reads text one) :
    Reads text (parameters one) :=
  .skip .pos fun _ => .bind (gives_separated _ hone) fun _ => .node rfl (.refl _)

end Rule

/-! ### Expressions taken for patterns -/

theorem exists_of_bind_eq_ok {ε α β : Type} {x : Except ε α} {f : α → Except ε β} {b : β}
    (h : x >>= f = .ok b) : ∃ a, x = .ok a ∧ f a = .ok b := by
  cases x with
  | error e => cases h
  | ok a => exact ⟨a, rfl, h⟩

section

variable {m : Mark} {lo hi lo' hi' : Nat} {ns ns' : List Node}

theorem count_mk_le {form form' : Form} (hplain : form'.isPlain = true)
    (h : (marksOf ns').count m ≤ (marksOf ns).count m) :
    (marks (.mk form' lo' hi' ns')).count m ≤ (marks (.mk form lo hi ns)).count m := by
  rw [marks_of_isPlain hplain, marks_mk, List.count_append]
  exact Nat.le_trans h (Nat.le_add_left _ _)

/-- A node in front of nodes that are taken for others. -/
theorem count_cons_le {n n' : Node} {rest : Except SyntaxFailure (List Node)}
    (h : (rest >>= fun ns => .ok (n' :: ns)) = .ok ns')
    (hn : (marks n').count m ≤ (marks n).count m)
    (hrest : ∀ {ns'}, rest = .ok ns' → (marksOf ns').count m ≤ (marksOf ns).count m) :
    (marksOf ns').count m ≤ (marksOf (n :: ns)).count m := by
  obtain ⟨rest, heq, h⟩ := exists_of_bind_eq_ok h
  obtain rfl := Except.ok.inj h
  rw [marksOf_cons, marksOf_cons, List.count_append, List.count_append]
  exact Nat.add_le_add hn (hrest heq)

end

mutual

/-- A pattern has no marks that its expression has not. -/
theorem count_ofExpression (m : Mark) {place : PatternPlace} :
    ∀ {n n' : Node}, ofExpression place n = .ok n' → (marks n').count m ≤ (marks n).count m
  | .mk form lo hi parts, n', h => by
    unfold ofExpression at h
    split at h
    · rename_i heq
      cases heq
      obtain rfl := Except.ok.inj h
      exact Nat.le_refl _
    · rename_i heq
      cases heq
      obtain ⟨ps, hps, h⟩ := exists_of_bind_eq_ok h
      obtain rfl := Except.ok.inj h
      exact count_mk_le rfl (count_ofProperties m hps)
    · rename_i heq
      cases heq
      obtain ⟨ps, hps, h⟩ := exists_of_bind_eq_ok h
      obtain rfl := Except.ok.inj h
      exact count_mk_le rfl (count_ofElements m hps)
    · rename_i heq
      cases heq
      split at h
      · obtain rfl := Except.ok.inj h
        exact Nat.le_refl _
      · split at h
        · obtain rfl := Except.ok.inj h
          exact count_mk_le rfl (Nat.le_refl _)
        · obtain rfl := Except.ok.inj h
          exact Nat.zero_le _
    · rename_i heq
      cases heq
      split at h
      · obtain rfl := Except.ok.inj h
        exact Nat.le_refl _
      · split at h
        · obtain rfl := Except.ok.inj h
          exact Nat.le_refl _
        · -- a literal leaves nothing behind
          split at h
          case h_6 => cases h
          all_goals
            obtain rfl := Except.ok.inj h
            exact Nat.zero_le _

theorem count_ofProperties (m : Mark) {place : PatternPlace} :
    ∀ {ns ns' : List Node}, ofProperties place ns = .ok ns' →
      (marksOf ns').count m ≤ (marksOf ns).count m
  | [], ns', h => by
    obtain rfl := Except.ok.inj h
    exact Nat.le_refl _
  | n :: ns, ns', h => by
    have hns {rest : List Node} (h : ofProperties place ns = .ok rest) := count_ofProperties m h
    unfold ofProperties at h
    split at h
    · rename_i heq
      cases heq
    · rename_i heq
      cases heq
      obtain ⟨v, hv, h⟩ := exists_of_bind_eq_ok h
      have hv' := count_ofExpression m hv
      exact count_cons_le h (count_mk_le rfl (by simpa using hv')) hns
    · rename_i heq
      cases heq
      exact count_cons_le h (Nat.le_refl _) hns
    · rename_i heq
      cases heq
      exact count_cons_le h (count_mk_le rfl (Nat.le_refl _)) hns
    · rename_i heq
      cases heq
      split at h
      · -- nothing but a name can be bound to the rest
        split at h
        · exact count_cons_le h (count_mk_le rfl (Nat.le_refl _)) hns
        · exact count_cons_le h (count_mk_le rfl (Nat.zero_le _)) hns
      · obtain ⟨e, he, h⟩ := exists_of_bind_eq_ok h
        have he' := count_ofExpression m he
        exact count_cons_le h (count_mk_le rfl (by simpa using he')) hns
    · cases h

theorem count_ofElements (m : Mark) {place : PatternPlace} :
    ∀ {ns ns' : List Node}, ofElements place ns = .ok ns' →
      (marksOf ns').count m ≤ (marksOf ns).count m
  | [], ns', h => by
    obtain rfl := Except.ok.inj h
    exact Nat.le_refl _
  | n :: ns, ns', h => by
    unfold ofElements at h
    split at h
    · rename_i heq
      cases heq
    · rename_i heq
      cases heq
      exact count_cons_le h (Nat.le_refl _) (count_ofElements m)
    · rename_i heq
      cases heq
      split at h
      · obtain ⟨e, he, h⟩ := exists_of_bind_eq_ok h
        obtain rfl := Except.ok.inj h
        have he' := count_ofExpression m he
        rw [marksOf_cons, marksOf_cons, List.count_append, List.count_append]
        exact Nat.add_le_add (count_mk_le rfl (by simpa using he')) (Nat.zero_le _)
      · -- a rest in front of other elements is left out
        have hns := count_ofElements m h
        rw [marksOf_cons, List.count_append]
        exact Nat.le_trans hns (Nat.le_add_left _ _)
    · rename_i heq
      cases heq
      obtain ⟨e, he, h⟩ := exists_of_bind_eq_ok h
      have he' := count_ofExpression m he
      exact count_cons_le h he' (count_ofElements m)

end

/-- What is bound is no literal, no function and no statement. -/
theorem isPlain_ofExpression {n n' : Node} (h : ofExpression .binding n = .ok n') :
    n'.form.isPlain = true := by
  obtain ⟨form, lo, hi, parts⟩ := n
  unfold ofExpression at h
  split at h
  · obtain rfl := Except.ok.inj h
    rfl
  · obtain ⟨ps, -, h⟩ := exists_of_bind_eq_ok h
    obtain rfl := Except.ok.inj h
    rfl
  · obtain ⟨ps, -, h⟩ := exists_of_bind_eq_ok h
    obtain rfl := Except.ok.inj h
    rfl
  · split at h
    · contradiction
    · split at h
      · obtain rfl := Except.ok.inj h
        rfl
      · obtain rfl := Except.ok.inj h
        rfl
  · split at h
    · contradiction
    · split at h
      · -- this is asked of elements only
        rename_i helement
        exact absurd helement.1 (by decide)
      · split at h
        case h_6 => cases h
        all_goals
          obtain rfl := Except.ok.inj h
          rfl

theorem shapes_asPattern (place : PatternPlace) (n : Node) :
    Shapes [n] (asPattern place n) fun n => [n] := by
  unfold asPattern
  split
  · rename_i n' hn
    exact .pure fun m => by simpa using count_ofExpression m hn
  · exact .failAt _

theorem isPlain_asPattern (n : Node) :
    Yields (asPattern .binding n) (·.form.isPlain = true) := by
  unfold asPattern
  split
  · rename_i n' hn
    exact .pure (isPlain_ofExpression hn)
  · exact .failAt _

end Phrasebook.Script.Grammar
