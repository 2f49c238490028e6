import Phrasebook.Proofs.Script.Grammar.Function
import Phrasebook.Script.Grammar.Class

/-!
# Classes account for what they read

The clauses of a class stand in front of its members, though they are its last parts.
-/

namespace Phrasebook.Script.Grammar

variable {text : List Char} {r : Rules} (h : r.Sound text)

theorem moves_atProperty (lineEndCounts : Bool) : Moves text (atProperty lineEndCounts) :=
  .skip (.isOneOf _) fun _ => .ite .done (.ite Moves.atStatementEnd .done)

theorem moves_atMethod : Moves text atMethod := .isOneOf _

include h

/-! ### Members -/

theorem gives_classProperty (lo : Nat) (m : Modifiers) (k : Node) (isOptional : Bool) :
    Gives text [k] (classProperty r lo m k isOptional) fun n => [n] := by
  unfold classProperty
  extract_lets rest
  have hrest (u : Unit) : Gives text [k] (rest u) fun n => [n] := by
    refine .bind (gives_annotation? h) fun a => .skip (.is _) fun _ => ?_
    extract_lets last assigned
    have hlast {ns value : List Node} (hu : Uses (k :: value ++ a.toList) ns) :
        Gives text ns (last value) fun n => [n] :=
      .skip .eatStatementEnd fun _ => .node rfl hu
    have hassigned (u : Unit) : Gives text ([k] ++ a.toList) (assigned u) fun n => [n] :=
      .skip .bump fun _ => .bind h.assignment.adjust fun e => .bindPure <| hlast fun m => by
        simp [Nat.add_comm]
    exact .ite (.ite (.skip .unexpected hassigned) (hassigned ()))
      (.bindPure <| hlast (.refl _))
  exact .ite (hrest ()) (.skip (.eat _) fun _ => hrest ())

theorem gives_classMethod (lo : Nat) (k : Node) (flow : Flow) :
    Gives text [k] (classMethod r lo k flow) fun n => [n] :=
  .bind (reads_functionFrom h _ _) fun _ => .node rfl (.refl _)

theorem gives_memberNamedBy (lo : Nat) (m : Modifiers) (word : String) (lineEndCounts : Bool) :
    Gives text [] (memberNamedBy r lo m word lineEndCounts) Option.toList := by
  refine .bind .leaf fun k => .skip moves_atMethod fun _ => .ite
    (.bindOn [] (gives_classMethod h _ _ _) (.refl _) fun _ => .pure (.refl _)) <|
    .skip (moves_atProperty _) fun _ => .skip (.is _) fun _ => .ite ?_ (.pure fun m => by simp)
  exact .skip (.eat _) fun _ => .skip moves_atMethod fun _ => .ite
    (.bindOn [] (gives_classMethod h _ _ _) (.refl _) fun _ => .pure (.refl _))
    (.bindOn [] (gives_classProperty h _ _ _ _) (.refl _) fun _ => .pure (.refl _))

theorem reads_constructorParameter : Reads text (constructorParameter r) := by
  refine .skip (.is _) fun _ => .ite (reads_restParameter h) <| .skip
    (.loop (fun _ => []) (.refl _) fun _ => .skip (.eatModifier _) fun _ => .ite .done .done)
      fun isProperty => .skip .pos fun lo => .bind (reads_plainParameter h) fun n =>
        .ite ?_ (.pure (.refl _))
  split
  · exact .pure (.refl _)
  · exact .pure (.refl _)
  · exact .failAt _

theorem gives_constructorMember (lo : Nat) (k : Node) :
    Gives text [k] (constructorMember r lo k) fun n => [n] :=
  .bind (gives_typeParameters? h) fun _ => .skip (.expect _) fun _ =>
    .bind (reads_parameters (reads_constructorParameter h)).adjust fun _ =>
      .skip (.expect _) fun _ => .bind (gives_annotation? h) fun _ =>
        .bind (reads_functionBody h _) fun _ => .node rfl fun m => by
          simp
          omega

theorem reads_memberBody (lo : Nat) (m : Modifiers) : Reads text (memberBody r lo m) := by
  refine .skip (.eat _) fun _ => .ite
    (.bind (reads_classKey h) fun _ => gives_classMethod h _ _ _) <| .skip (.isOneOf _) fun _ => ?_
  extract_lets rest
  -- behind `get`, `set` and `async` the key is read anew, and the word that was read for one is
  -- dropped
  have hrest (k : Node) : Gives text [k] (rest k) fun n => [n] := by
    have hmethod (flow : Flow) : Gives text [k] (classKey r >>= fun k => classMethod r lo k flow)
        fun n => [n] :=
      .bind (reads_classKey h) fun k' =>
        (gives_classMethod h _ _ _).mono (fun m => by simp) fun _ => .refl _
    have hkey : Gives text [k] (if (isConstructorKey k && !m.isStatic) = true
        then constructorMember r lo k else classMethod r lo k {}) fun n => [n] :=
      .ite (gives_constructorMember h _ _) (gives_classMethod h _ _ _)
    refine .skip (.eat _) fun _ => .skip moves_atMethod fun _ => .ite
      (.ite (.skip .unexpected fun _ => hkey) hkey) ?_
    refine .skip .lineBreak fun _ => .skip (.is _) fun _ => .skip (moves_atProperty _) fun _ =>
      .skip (moves_atProperty _) fun _ => .ite (gives_classProperty h _ _ _ _) ?_
    refine .skip .lineBreak fun _ => .ite ?_ (.ite (hmethod _) .unexpected)
    exact .skip (.eat _) fun _ => .bind (reads_classKey h) fun _ => .skip (.eat _) fun _ =>
      (gives_classMethod h _ _ _).mono (fun m => by simp) fun _ => .refl _
  exact .ite (.skip .previousEnd fun _ => .bind .leaf hrest) (.bind (reads_classKey h) hrest)

theorem reads_memberFrom (lo : Nat) (m : Modifiers) : Reads text (memberFrom r lo m) := by
  refine .skip (.loop (fun _ => []) (.refl _) fun m => ?_) fun m => ?_
  · refine .skip (.is _) fun _ => .skip (.peekIs _) fun _ => .ite .done <|
      .skip (.eatModifier _) fun k => ?_
    split <;> exact .done
  refine .skip (.eat _) fun _ => ?_
  extract_lets last body rest
  have hlast : Reads text (last ()) := .bind h.block.adjust fun _ => .node rfl (.refl _)
  have hrest (u : Unit) : Reads text (rest u) := by
    refine .skip (.is _) fun _ => .skip (.peekIs _) fun _ => .ite (.skip .bump fun _ => hlast) <|
      .skip (.is _) fun _ => .ite hlast <| .ite ?_ (reads_memberBody h _ _)
    exact .orElse (gives_indexSignature? h) (fun _ => rfl) (reads_memberBody h _ _)
  exact .ite (.orElse (gives_memberNamedBy h _ _ _ _) (fun _ => rfl) (hrest ())) (hrest ())

theorem reads_classMember : Reads text (classMember r) := by
  refine .skip .pos fun lo => .skip (.eat _) fun _ => .skip (.eatModifier _) fun access => ?_
  extract_lets m static last rest
  have hlast (u : Unit) : Reads text (last u) := by
    refine .skip (.eat _) fun _ => .ite ?_ (reads_memberFrom h _ _)
    exact .orElse (gives_memberNamedBy h _ _ _ _) (fun _ => rfl) (reads_memberFrom h _ _)
  have hrest (declared : Bool) : Reads text (rest declared) :=
    .ite (.orElse (gives_memberNamedBy h _ _ _ _) (fun _ => rfl) (hlast ())) (hlast ())
  exact .ite (.bindPure (hrest true)) (.skip (.eat _) hrest)

theorem gives_classMembers : Gives text [] (classMembers r) id :=
  gives_many (.isOneOf _) <| .skip .pos fun _ => .skip (.eat _) fun _ =>
    .ite .leaf (reads_classMember h)

/-! ### Heritage -/

theorem gives_superClass : Gives text [] (superClass r) id := by
  refine .bind h.leftHandSide fun e => ?_
  split
  · exact .pure fun m => by simp (disch := decide)
  · exact .bind (gives_typeArguments? h) fun _ => .pure (.refl _)

theorem gives_heritage : Gives text [] (heritage r) id :=
  .loop id (.refl _) fun _ => .bind h.leftHandSide fun _ => .bind (gives_typeArguments? h) fun _ =>
    .skip (.eat _) fun _ => .pure fun m => by simp

theorem gives_heritageClauses : Gives text [] (heritageClauses r) id := by
  refine .loop id (.refl _) fun acc => .skip (.eat _) fun _ => .ite
    (.bind (gives_superClass h) fun ns => .skip (.eat _) fun _ =>
      .choose (gives_heritage h) (.pure (.refl _)) fun _ => .pure (.refl _)) <|
    .skip (.eat _) fun _ => .ite (.bind (gives_heritage h) fun _ => .pure (.refl _))
      (.pure (.refl _))

omit h in
theorem moves_className? (needsName : Bool) : Moves text (className? needsName) :=
  Gives.ite (.skip .bindingWord fun _ => .done) <| .skip .kind fun _ => .skip (.is _) fun _ =>
    .ite (.skip .word fun _ => .done) .done

theorem reads_classFrom (lo : Nat) (needsName : Bool) : Reads text (classFrom r lo needsName) :=
  .skip (.expect _) fun _ => .skip (moves_className? _) fun _ =>
    .bind (gives_typeParameters? h) fun _ => .bind (gives_heritageClauses h) fun _ =>
      .skip (.expect _) fun _ => .bind (gives_classMembers h).adjust fun _ =>
        .skip (.expect _) fun _ => .node rfl fun m => by
          simp
          omega

end Phrasebook.Script.Grammar
