import Phrasebook.Proofs.Script.Grammar.Type
import Phrasebook.Script.Grammar.Function

/-!
# Functions and object literals account for what they read
-/

namespace Phrasebook.Script.Grammar

variable {text : List Char}

/-! ### Properties -/

/-- An object literal with one property. -/
def asObject (n : Node) : Node := .mk .object n.lo n.hi [n]

theorem marksOf_asObject (n : Node) :
    marksOf [asObject n] = (keyPlace? n).toList.map .key ++ marks n := by
  cases hkey : keyPlace? n <;> simp [asObject, ownMarks, hkey]

/-- An object literal has the marks of its properties. -/
theorem count_marksOf_asObject (m : Mark) (ns : List Node) :
    (marksOf (ns.map asObject)).count m = (ownMarks .object ns ++ marksOf ns).count m := by
  induction ns with
  | nil => rfl
  | cons n ns ih =>
    have hown : ownMarks .object (n :: ns) =
        (keyPlace? n).toList.map .key ++ ownMarks .object ns := by
      cases hkey : keyPlace? n <;> simp [ownMarks, hkey]
    rw [List.map_cons, ← List.singleton_append, marksOf_append, marksOf_asObject, hown,
      marksOf_cons]
    simp only [List.count_append] at ih ⊢
    omega

theorem uses_asObject {n : Node} (hkey : keyPlace? n = none) : Uses [asObject n] [n] := fun m => by
  rw [marksOf_asObject, hkey]
  simp

/-- A property without a place of its own. -/
theorem gives_asObject {ns : List Node} {p : Parser Node} (hp : Gives text ns p fun n => [n])
    (hkey : Yields p (keyPlace? · = none)) : Gives text ns p fun n => [asObject n] :=
  fun K hK => ((hp K hK).and hkey).imp (fun _ h => h) fun _ _ h =>
    hK.of_count h.1 (uses_asObject h.2)

theorem keyPlace?_of_runsAtOnce {form : Form} {lo hi : Nat} {k f : Node}
    (h : f.form.runsAtOnce = false) : keyPlace? (.mk form lo hi [k, f]) = none := by
  unfold keyPlace?
  split <;> simp_all

theorem keyPlace?_asyncMethod {lo hi : Nat} {k f : Node} {flow : Flow}
    (hf : f.form = .function flow) (hflow : (flow == {}) = false) :
    keyPlace? (.mk .method lo hi [k, f]) = none :=
  keyPlace?_of_runsAtOnce (by rw [hf]; exact hflow)

/-- The property at `place`, with its key and its value behind it. -/
theorem triple_keyed {form : Form} {place lo : Nat} {k f : Node} (hform : form.isPlain = true)
    (hplace : IsPlace text place) (hkey : f.form.runsAtOnce = true → min k.lo f.lo = place) :
    Triple text (fun l => Accounted text (place + 1) l.pos (marksOf [k, f]))
      (Parser.node form lo [k, f])
      fun n l => Accounted text place l.pos (marksOf [asObject n]) := by
  refine .still .previousEnd fun hi => .pure fun l hl haccount => ?_
  have hown : keyPlace? (.mk form lo hi [k, f]) = none ∨
      keyPlace? (.mk form lo hi [k, f]) = some place := by
    cases hruns : f.form.runsAtOnce with
    | false => exact .inl (keyPlace?_of_runsAtOnce hruns)
    | true =>
      unfold keyPlace?
      split <;> simp_all
  rw [marksOf_asObject, Script.marks_of_isPlain hform]
  rcases hown with hnone | hsome
  · rw [hnone]
    exact haccount.widen (Nat.le_succ place)
  · rw [hsome]
    exact haccount.keyed hplace (Nat.lt_succ_self place)

section Rule

variable {r : Rules} (h : r.Sound text)
include h

/-! ### Functions -/

theorem reads_functionBody (flow : Flow) : Reads text (functionBody r flow) :=
  .skip (.is _) fun _ => .skip .eatStatementEnd fun _ => .ite (.skip .previousEnd fun _ => .leaf)
    h.block.adjust

theorem past_functionFrom (ns : List Node) (lo : Nat) (flow : Flow) :
    GivesPast text ns (functionFrom r lo flow) fun f => ns ++ [f] := fun place =>
  .bind (past_typeParameters? h place ns) fun tps =>
    GivesPast.expect ns tps (by decide) (.refl _)
      (.bind (reads_parameters (reads_parameter h)).adjust fun _ => .skip (.expect _) fun _ =>
        .bind (gives_resultType? h _) fun _ => .bind (reads_functionBody h _) fun _ =>
          .node rfl fun m => by
            simp
            omega) place

theorem reads_functionFrom (lo : Nat) (flow : Flow) : Reads text (functionFrom r lo flow) :=
  (past_functionFrom h [] lo flow).gives

omit h in
theorem yields_functionFrom (lo : Nat) (flow : Flow) :
    Yields (functionFrom r lo flow) fun f => f.form = .function flow ∧ f.lo = lo :=
  .bind fun _ => .bind fun _ => .bind fun _ => .bind fun _ => .bind fun _ => .bind fun _ =>
    .node fun _ => ⟨rfl, rfl⟩

omit h in
theorem form_withName (f : Node) (name : Option String) : (withName f name).form = f.form := by
  cases f
  cases name <;> rfl

omit h in
theorem lo_withName (f : Node) (name : Option String) : (withName f name).lo = f.lo := by
  cases f
  cases name <;> rfl

omit h in
theorem marks_withName {f : Node} (hf : f.form.isPlain = true) (name : Option String) :
    marks (withName f name) = marks f := by
  cases name with
  | none => rfl
  | some name =>
    rw [withName, marks_withPart hf]
    exact List.append_nil _

omit h in
theorem moves_functionName? (needsName : Bool) : Moves text (functionName? needsName) :=
  Gives.ite (.skip .bindingWord fun _ => .done) <| .skip .kind fun _ => .skip .kind fun _ =>
    .ite (.skip .word fun _ => .done) .done

theorem reads_namedFunction (lo : Nat) (isAsync needsName : Bool) :
    Reads text (namedFunction r lo isAsync needsName) :=
  .skip (.expect _) fun _ => .skip (.eat _) fun _ => .skip (moves_functionName? _) fun name =>
    .bindOf (reads_functionFrom h _ _) (yields_functionFrom _ _) fun f hf =>
      .pure fun m => by simp [marks_withName (f := f) (hf.1 ▸ rfl)]

theorem reads_functionDeclaration : Reads text (functionDeclaration r) :=
  .skip .pos fun _ => .skip (.eat _) fun _ => .bind (reads_namedFunction h _ _ _) fun _ =>
    .node rfl (.refl _)

theorem reads_functionExpression : Reads text (functionExpression r) :=
  .skip .pos fun _ => .skip (.eat _) fun _ => .bind (reads_namedFunction h _ _ _) fun _ =>
    .skipIf .unexpected (.pure (.refl _))

/-! ### Object literals -/

omit h in
theorem unkeyed_namedProperty (lo : Nat) (k : Node) (name : String) :
    Yields (namedProperty r lo k name) (keyPlace? · = none) := by
  refine .bind fun _ => .bind fun _ => .ite (.bind fun _ => .node fun _ => rfl) <|
    .bind fun _ => .ite (.pure rfl) <| .ite
      (.bind fun _ => .bind fun _ => .node fun _ => rfl) <| .ite ?_ .unexpected
  exact .bind fun isGenerator => .bind fun k => .bindOf (yields_functionFrom _ _) fun f hf =>
    .node fun _ => keyPlace?_asyncMethod hf.1 (by cases isGenerator <;> rfl)

theorem gives_namedProperty (lo : Nat) (k : Node) (name : String) :
    Gives text [k] (namedProperty r lo k name) fun n => [asObject n] :=
  gives_asObject
    (.skip (.eat _) fun _ => .skip (.eat _) fun _ => .ite
      (.bind h.fullAssignment fun _ => .node rfl (.refl _)) <|
      .skip (.isOneOf _) fun _ => .ite (.pure (.mk rfl _ _ _)) <| .ite
        (.bind (reads_key h) fun _ => .bind (reads_functionFrom h _ _) fun _ =>
          .node rfl fun m => by simp) <|
        .ite (.skip (.eat _) fun _ => .bind (reads_key h) fun _ =>
          .bind (reads_functionFrom h _ _) fun _ => .node rfl fun m => by simp) .unexpected)
    (unkeyed_namedProperty lo k name)

/-- The value behind the colon of the property at `place`. -/
theorem triple_valued {place : Nat} (hplace : IsPlace text place) {k : Node} (hk : k.lo = place) :
    Triple text (fun l => Accounted text (place + 1) l.pos (marksOf [k]))
      (r.fullAssignment >>= fun e => Parser.node .property k.lo [k, e])
      fun n l => Accounted text place l.pos (marksOf [asObject n]) := by
  refine .start fun start _ hstart => .bind
    (((h.fullAssignment.frame [k]) _ (.accounted (place + 1))).imp
      (fun l (hl : l = start) => hl ▸ hstart) (fun _ _ h => h) |>.both
        (.of_yieldsAt (.of_gives h.fullAssignment) (h.begins_fullAssignment start))) fun e => ?_
  intro mode l hl ⟨haccount, hruns⟩
  refine triple_keyed rfl hplace (fun hf => ?_) mode l hl haccount
  have := hstart.le
  rw [hruns hf, hk]
  omega

/-- A method, of which the function begins in front of its key. -/
theorem triple_method {place lo : Nat} (hplace : IsPlace text lo) (hle : lo ≤ place) {k : Node}
    (hk : k.lo = place) :
    Triple text (fun l => Past text place l.pos (marksOf [k]))
      (functionFrom r lo {} >>= fun f => Parser.node .method lo [k, f])
      fun n l => Accounted text lo l.pos (marksOf [asObject n]) := by
  refine .bind (((past_functionFrom h [k] lo {}) lo).imp (fun _ h => h.widen hle)
    (fun _ _ h => h) |>.and (yields_functionFrom lo {})) fun f => ?_
  intro mode l hl ⟨haccount, hf⟩
  refine triple_keyed rfl hplace (fun _ => ?_) mode l hl haccount
  rw [hf.2, hk]
  omega

theorem gives_property : Gives text [] (property r) fun n => [asObject n] := by
  refine gives_of_accounted fun first => .start fun start hstart heq => .pos ?_
  subst heq
  have hle (l l' : Lexer) (h : l.pos ≤ l'.pos) (hl : start.pos ≤ l.pos) : start.pos ≤ l'.pos :=
    Nat.le_trans hl h
  -- a property that is no key with a value is as if its object stood alone
  have hunkeyed {p : Parser Node} (hp : Gives text [] p fun n => [n])
      (hkey : Yields p (keyPlace? · = none)) : Triple text (start.pos ≤ ·.pos) p
        fun n l => Accounted text start.pos l.pos (marksOf [asObject n]) :=
    (gives_asObject hp hkey _ (.accounted start.pos)).imp (fun _ => .nil) fun _ _ h => h
  refine Triple.imp (P := (start.pos ≤ ·.pos)) ?_
    (fun l hl => Nat.le_of_eq (congrArg Lexer.pos hl.symm)) fun _ _ h => h
  refine .skip (.eat _) hle fun _ => .ite (hunkeyed (.bind h.fullAssignment fun _ =>
    .node rfl (.refl _)) (.bind fun _ => .node fun _ => rfl)) <| .skip (.eat _) hle fun _ => .ite
      (hunkeyed (.bind (reads_key h) fun _ => .bind (reads_functionFrom h _ _) fun _ =>
        .node rfl (.refl _)) ?generator) <| .skip .skipModifier hle fun _ => ?keyed
  case generator =>
    exact .bind fun _ => .bindOf (yields_functionFrom _ _) fun f hf => .node fun _ =>
      keyPlace?_asyncMethod hf.1 rfl
  refine .start fun l hl hstartle => .bind (triple_key h l) fun k => .given fun hk =>
    .still .kind fun _ => .ite ?broken <| .eatPast (by decide) ?valued <| .still (.isOneOf _)
      fun _ => .ite (triple_method h hstart.isPlace_pos hstartle hk) ?named
  case broken =>
    refine .still .pos fun p => .still .previousEnd fun hi => .pure fun l' _ hpast => ?_
    have hkey : keyPlace? (.mk .property k.lo hi [k, .mk .broken start.pos p []]) = none := rfl
    exact (hpast.accounted.widen hstartle).of_count fun m =>
      Nat.le_trans (uses_asObject hkey m) (by simp (disch := decide))
  case valued =>
    exact (triple_valued h hl.isPlace_pos hk).imp (fun _ h => h) fun _ _ h => h.widen hstartle
  case named =>
    split
    · exact (gives_namedProperty h _ _ _ _ (.accounted start.pos)).imp
        (fun _ hpast => hpast.accounted.widen hstartle) fun _ _ h => h
    · exact .unexpected

theorem reads_object : Reads text (object r) :=
  .skip .pos fun _ => .skip (.expect _) fun _ =>
    .bind (gives_separatedAs asObject _ (gives_property h)).adjust fun ps =>
      .skip (.expect _) fun _ => fun _ hK => triple_node hK fun m =>
        Nat.le_of_eq (count_marksOf_asObject m ps).symm

end Rule

end Phrasebook.Script.Grammar
