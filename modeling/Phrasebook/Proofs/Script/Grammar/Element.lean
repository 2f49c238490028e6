import Phrasebook.Proofs.Script.Grammar.Type
import Phrasebook.Script.Grammar.Element

/-!
# Elements account for what they read

The expressions in an element stand in its tags and between them, in the order of the text.
-/

namespace Phrasebook.Script.Grammar

variable {text : List Char} {r : Rules} (h : r.Sound text)

theorem moves_rereadHyphenated : Moves text (modify Lexer.rereadHyphenated : Parser Unit) :=
  .modify fun _ hl => ⟨hl.rereadHyphenated, Nat.le_refl _⟩

theorem moves_nextText : Moves text (modify Lexer.nextText : Parser Unit) :=
  .modify fun _ hl => ⟨hl.nextText, hl.pos_le_nextText⟩

theorem moves_hyphenatedName : Moves text hyphenatedName :=
  .skip .kind fun _ => .skipUnless .unexpected <| .skip moves_rereadHyphenated fun _ => Moves.word

theorem moves_tagName : Moves text tagName :=
  .skip moves_hyphenatedName fun _ => .skip (.eat _) fun _ => .ite
    (.skip moves_hyphenatedName fun _ => .done) <|
    .loop (fun _ => []) (.refl _) fun _ => .skip (.eat _) fun _ =>
      .ite (.skip moves_hyphenatedName fun _ => .done) .done

/-- A string without escapes is no literal, but it is passed at once. -/
theorem gives_quoted {α : Type} {ns : List Node} {p : Parser α} {f : α → List Node}
    (hp : Gives text ns p f) : Gives text ns
      (modify Lexer.rereadQuoted >>= fun _ => Parser.expect .string >>= fun _ => p) f := by
  intro K hK mode l hl haccount
  obtain ⟨hnext, hle, hsame⟩ := hl.rereadQuoted
  have hrun : (modify Lexer.rereadQuoted >>= fun _ => Parser.expect .string >>= fun _ => p) mode l =
      (Parser.expect .string >>= fun _ => p) mode l.rereadQuoted := rfl
  rw [hrun, bind_run, expect_run]
  cases hkind : l.rereadQuoted.kind == .string with
  | true =>
    have h := hp K hK mode _ hnext (hK.mono haccount hle)
    simp only [if_true]
    cases hrun' : p mode l.rereadQuoted.next with
    | error e l' =>
      rw [hrun'] at h
      exact ⟨h.1, Nat.le_trans hle h.2⟩
    | ok x l' =>
      rw [hrun'] at h
      exact ⟨h.1, Nat.le_trans hle h.2.1, h.2.2⟩
  | false =>
    -- what cannot be read as such a string is left as it was
    obtain ⟨hon, hpos⟩ := hsame (by simpa using hkind)
    exact ⟨hon, Nat.le_of_eq hpos.symm⟩

include h

theorem gives_container : Gives text [] (container r) id :=
  .skip .bump fun _ => .skip (.is _) fun _ => .ite (.pure (.refl _)) <|
    .skip (.eat _) fun _ => .bind h.fullExpression fun _ => .skip (.is _) fun _ =>
      .skipUnless .unexpected (.pure (.refl _))

theorem gives_attributeValue : Gives text [] (attributeValue r) id :=
  .skip .get fun _ => .ite (gives_quoted (.pure (.refl _))) <|
    .skip (.is _) fun _ => .ite
      (.bind (gives_container h) fun _ => .skip (.expect _) fun _ =>
        .skipIf (.failAt _) (.pure (.refl _))) <|
      .skip (.is _) fun _ => .ite
        (.bind h.element fun _ => .skip .bump fun _ => .pure (.refl _)) .unexpected

theorem gives_tagAttribute : Gives text [] (tagAttribute r) id :=
  .skip (.is _) fun _ => .ite
    (.skip .bump fun _ => .skip (.expect _) fun _ => .bind h.fullAssignment fun _ =>
      .skip (.expect _) fun _ => .pure (.refl _)) <|
    .skip moves_hyphenatedName fun _ => .skip (.eat _) fun _ =>
      .skipIf moves_hyphenatedName <| .skip (.eat _) fun _ =>
        .ite (gives_attributeValue h) (.pure (.refl _))

theorem gives_tagAttributes : Gives text [] (tagAttributes r) id :=
  .loop id (.refl _) fun _ => .skip (.isOneOf _) fun _ => .ite (.pure (.refl _)) <|
    .bind (gives_tagAttribute h) fun _ => .pure (.refl _)

theorem gives_children (name : String) : Gives text [] (children r name) id := by
  refine .skip moves_nextText fun _ => .loop id (.refl _) fun acc => .skip .kind fun k => ?_
  split
  · exact .skip moves_nextText fun _ => .pure (.refl _)
  · exact .bind (gives_container h) fun _ => .skip moves_nextText fun _ => .pure (.refl _)
  · refine .skip (.peekIs _) fun _ => .ite ?_ <| .bind h.element fun _ =>
      .skip moves_nextText fun _ => .pure (.refl _)
    refine .skip .bump fun _ => .skip .bump fun _ => .skip .pos fun _ => .skip (.is _) fun _ => ?_
    extract_lets last check rest
    have hcheck (u : Unit) : Gives text acc (check u) fun y => id y.1 :=
      .skip (.is _) fun _ => .skipUnless .unexpected (.pure (.refl _))
    have hrest (close : String) : Gives text acc (rest close) fun y => id y.1 :=
      .ite (.skip (.failAt _) hcheck) (hcheck ())
    exact .ite (.bindPure (hrest "")) (.skip moves_tagName hrest)
  · exact .unexpected

theorem reads_element : Reads text (element r) := by
  refine .skip .pos fun lo => .skip (.expect _) fun _ => ?_
  extract_lets close
  have hclose {ns parts : List Node} (hu : Uses parts ns) :
      Gives text ns (close parts) fun n => [n] :=
    .skip .get fun _ => .pure fun m => Nat.le_trans (Uses.mk rfl _ _ _ m) (hu m)
  refine .skip (.is _) fun _ => .ite (.bind (gives_children h _) fun _ => hclose (.refl _)) <|
    .skip moves_tagName fun _ => .bind (f := Option.toList) (.attempt (.skip (.is _) fun _ =>
      .ite (.bind (reads_typeArguments h) fun _ => .pure (.refl _)) (.pure (.refl _)))
        (.refl _)) fun ts => .bind (gives_tagAttributes h) fun attributes => ?_
  exact .skip (.eat _) fun _ => .ite
    (.skip (.is _) fun _ => .skipUnless .unexpected <| hclose fun m => by simp [Nat.add_comm])
    (.bind (gives_children h _) fun _ => hclose fun m => by
      simp
      omega)

end Phrasebook.Script.Grammar
