import Phrasebook.Proofs.Exempt
import Phrasebook.Proofs.Revision.Front

/-!
# Trees in which texts have given way to calls

A revision is a text with edits and the modules that it is before and after them. `Becomes` says
what its trees have become when the edits do what they are meant to: where a text was returned
stands a call, and everything else is what it was. Then the message functions that are still found
are those whose texts have stayed, in the same order (`again_of_becomes`).
-/

namespace Phrasebook

open Collect (docOf exists_holds_of_functionProperty? functionProperty? functionProperty?_of_holds
  functionProperty?_of_not_holds mem_of_mem_withPrevious returning? returns_of_returning?
  soleReturn? soleReturn?_eq_some_iff withPrevious)
open Script (Form Module Node foldText literalText)

/-! ### Message functions with their places -/

/-- A message function with the places by which its documentation is found. -/
structure PlacedFunction where
  shape : Shape
  result : Node
  text : String
  /-- The end of the property before it. -/
  previousEnd : Option Nat
  brace : Nat
  propertyLo : Nat
  functionLo : Nat
  propertyLo_le : propertyLo ≤ functionLo

namespace PlacedFunction

def range (f : PlacedFunction) : Nat × Nat := (f.result.lo, f.result.hi)

/-- Where the text in front of it begins. -/
def frontLo (f : PlacedFunction) : Nat := f.previousEnd.getD (f.brace + 1)

def doc (m : Module) (source : List Char) (f : PlacedFunction) : ResolvedDoc :=
  docOf m source f.previousEnd f.brace f.propertyLo f.functionLo

def messageFunction (m : Module) (source : List Char) (f : PlacedFunction) : MessageFunction :=
  ⟨f.shape, f.result, f.text, f.doc m source⟩

end PlacedFunction

/-- The message function that a property is. -/
def placedFunction? (brace : Nat) (previousEnd : Option Nat) (property : Node) :
    Option PlacedFunction := do
  let p ← functionProperty? property
  let text ← foldText p.returning.result
  return {
    shape := p.returning.shape, result := p.returning.result, text, previousEnd, brace
    propertyLo := min p.key.lo p.function.lo, functionLo := p.function.lo
    propertyLo_le := Nat.min_le_right _ _ }

def placedIn (object : Node) : List PlacedFunction :=
  (withPrevious none object.parts).filterMap fun x => placedFunction? object.lo x.1 x.2

/-- The message functions in trees. -/
def placedOf (ns : List Node) : List PlacedFunction := (objectsOf ns).flatMap placedIn

theorem messageFunction?_eq_map (m : Module) (source : List Char) (brace : Nat)
    (previousEnd : Option Nat) (property : Node) :
    Collect.messageFunction? m source brace previousEnd property =
      (placedFunction? brace previousEnd property).map (·.messageFunction m source) := by
  unfold Collect.messageFunction? placedFunction?
  cases functionProperty? property with
  | none => rfl
  | some p =>
    simp only [Option.bind_eq_bind, Option.bind_some]
    cases foldText p.returning.result with
    | none => rfl
    | some text => rfl

theorem map_snd_messageFunctionsIn (m : Module) (source : List Char) (path : List Nat)
    (object : Node) : (Collect.messageFunctionsIn m source path object).map Prod.snd =
      (placedIn object).map (·.messageFunction m source) := by
  unfold Collect.messageFunctionsIn placedIn
  generalize object.lo = brace
  generalize (none : Option Nat) = previousEnd
  generalize 0 = k
  induction object.parts generalizing previousEnd k with
  | nil => rfl
  | cons p ps ih =>
    have hps := ih (some p.hi) (k + 1)
    rw [withPrevious, List.zipIdx_cons, List.filterMap_cons, List.filterMap_cons]
    cases hf : placedFunction? brace previousEnd p with
    | none => simpa only [messageFunction?_eq_map, hf, Option.map_none] using hps
    | some f =>
      simpa only [messageFunction?_eq_map, hf, Option.map_some, List.map_cons,
        List.cons.injEq, true_and] using hps

theorem map_snd_messageFunctions (m : Module) (source : List Char) :
    (Collect.messageFunctions m source).map Prod.snd =
      (placedOf m.items).map (·.messageFunction m source) := by
  unfold Collect.messageFunctions placedOf
  rw [← Collect.map_snd_locatedOf 0, List.map_flatMap, List.map_flatMap, List.flatMap_map]
  simp only [map_snd_messageFunctionsIn]

theorem placedOf_append (ns ns' : List Node) :
    placedOf (ns ++ ns') = placedOf ns ++ placedOf ns' := by
  have hobjects : objectsOf (ns ++ ns') = objectsOf ns ++ objectsOf ns' := by
    induction ns with
    | nil => rw [objectsOf]; rfl
    | cons n ns ih => rw [List.cons_append, objectsOf, objectsOf, ih, List.append_assoc]
  rw [placedOf, hobjects, List.flatMap_append]
  rfl

theorem placedOf_cons (n : Node) (ns : List Node) :
    placedOf (n :: ns) = placedOf [n] ++ placedOf ns :=
  placedOf_append [n] ns

theorem placedOf_singleton (form : Form) (lo hi : Nat) (parts : List Node) :
    placedOf [.mk form lo hi parts] =
      (if form = .object then placedIn (.mk form lo hi parts) else []) ++ placedOf parts := by
  rw [placedOf, objectsOf, objects, objectsOf, List.append_nil]
  split <;> rfl

/-! ### Trees without functions -/

mutual

/-- No function stands in the tree. -/
def functionFree : Node → Bool
  | .mk (.function _) _ _ _ => false
  | .mk (.arrow _) _ _ _ => false
  | .mk _ _ _ parts => functionFreeAll parts

def functionFreeAll : List Node → Bool
  | [] => true
  | n :: ns => functionFree n && functionFreeAll ns

end

theorem forall_of_functionFreeAll {ns : List Node} (h : functionFreeAll ns = true) :
    ∀ n ∈ ns, functionFree n = true := by
  induction ns with
  | nil => simp
  | cons n ns ih =>
    rw [functionFreeAll, Bool.and_eq_true] at h
    exact List.forall_mem_cons.mpr ⟨h.1, ih h.2⟩

theorem functionFreeAll_parts {form : Form} {lo hi : Nat} {parts : List Node}
    (h : functionFree (.mk form lo hi parts) = true) : functionFreeAll parts = true := by
  unfold functionFree at h
  split at h
  · cases h
  · cases h
  · rename_i heq
    cases heq
    exact h

theorem functionProperty?_of_functionFree {p : Node} (h : functionFree p = true) :
    functionProperty? p = none := by
  refine Option.eq_none_iff_forall_ne_some.mpr fun found hfound => ?_
  obtain ⟨kind, hheld, hreturning⟩ := exists_holds_of_functionProperty? hfound
  obtain ⟨key, f, shape, ps, e⟩ := found
  have hf : functionFree f = true := by
    cases hheld <;> exact forall_of_functionFreeAll (functionFreeAll_parts h) f (by simp)
  have hreturns : Returns kind f shape e := returns_of_returning? hreturning
  cases hreturns <;> cases hf

mutual

theorem placedOf_of_functionFree : (n : Node) → functionFree n = true → placedOf [n] = []
  | .mk form lo hi parts, h => by
    have hparts := functionFreeAll_parts h
    have hin : placedIn (.mk form lo hi parts) = [] := by
      refine List.filterMap_eq_nil_iff.mpr fun x hx => ?_
      have hp := forall_of_functionFreeAll hparts x.2 (mem_of_mem_withPrevious hx)
      unfold placedFunction?
      rw [functionProperty?_of_functionFree hp]
      rfl
    rw [placedOf_singleton, placedOf_of_functionFreeAll parts hparts, hin, ite_self,
      List.append_nil]

theorem placedOf_of_functionFreeAll :
    (ns : List Node) → functionFreeAll ns = true → placedOf ns = []
  | [], _ => rfl
  | n :: ns, h => by
    rw [functionFreeAll, Bool.and_eq_true] at h
    rw [placedOf_cons, placedOf_of_functionFree n h.1, placedOf_of_functionFreeAll ns h.2]
    rfl

end

/-! ### Revisions -/

structure Revision where
  source : List Char
  edits : List Edit
  /-- The ranges of the texts that give way to calls. -/
  calls : List (Nat × Nat)
  old : Module
  new : Module

/-- An expression that can give way to a call. -/
structure Script.Node.IsText (n : Node) : Prop where
  text : (foldText n).isSome
  functionFree : functionFree n = true

theorem Script.Node.IsText.form_ne_block {n : Node} (h : n.IsText) : n.form ≠ .block := by
  obtain ⟨form, lo, hi, parts⟩ := n
  rintro rfl
  cases h.text

/-- An expression that can be put in the place of a text: a call, or the template of the marks
around one. -/
structure Script.Node.IsCall (n : Node) : Prop where
  form : n.form = .call ∨ n.form = .template none
  functionFree : functionFree n = true

/-- What a return statement or an arrow function that has no block returns. -/
def Script.Node.returned? : Node → Option Node
  | .mk .returnStatement _ _ [e] => some e
  | .mk (.arrow _) _ _ (_ :: e :: _) => some e
  | _ => none

namespace Revision

variable (r : Revision)

/-- Documentation is found by the same comments at a property and what it has become. -/
structure KeepsPlace (p p' : Node) : Prop where
  hi : Moves r.edits r.source p.hi p'.hi
  function : ∀ q q', functionProperty? p = some q → functionProperty? p' = some q' →
    Moves r.edits r.source q.function.lo q'.function.lo ∧
      r.new.leadingAt (min q'.key.lo q'.function.lo) =
        r.old.leadingAt (min q.key.lo q.function.lo) ∧
      r.new.leadingAt q'.function.lo = r.old.leadingAt q.function.lo

mutual

/-- What a tree of the old text has become in the new one. -/
inductive Becomes : Node → Node → Prop
  /-- A call directly behind the word `return` runs into it, and then nothing is returned. -/
  | returned {lo hi lo' hi' : Nat} {form' : Form} {e e' : Node} (hcalls : (e.lo, e.hi) ∈ r.calls)
      (htext : e.IsText) (hcall : e'.IsCall)
      (hform : form' = .returnStatement ∨ form' = .expressionStatement) :
      Becomes (.mk .returnStatement lo hi [e]) (.mk form' lo' hi' [e'])
  | arrow {flow : Script.Flow} {lo hi lo' hi' : Nat} {ps ps' e e' : Node} {types types' : List Node}
      (hcalls : (e.lo, e.hi) ∈ r.calls) (htext : e.IsText) (hcall : e'.IsCall)
      (hps : Becomes ps ps') (htypes : BecomesAll types types') :
      Becomes (.mk (.arrow flow) lo hi (ps :: e :: types))
        (.mk (.arrow flow) lo' hi' (ps' :: e' :: types'))
  | object {lo hi lo' hi' : Nat} {parts parts' : List Node}
      (hbrace : Moves r.edits r.source (lo + 1) (lo' + 1))
      (hplaces : List.Forall₂ r.KeepsPlace parts parts') (hparts : BecomesAll parts parts') :
      Becomes (.mk .object lo hi parts) (.mk .object lo' hi' parts')
  | other {form : Form} {lo hi lo' hi' : Nat} {parts parts' : List Node} (hform : form ≠ .object)
      (hkept : ∀ e ∈ (Node.mk form lo hi parts).returned?, (e.lo, e.hi) ∉ r.calls)
      (hparts : BecomesAll parts parts') :
      Becomes (.mk form lo hi parts) (.mk form lo' hi' parts')

inductive BecomesAll : List Node → List Node → Prop
  | nil : BecomesAll [] []
  | cons {n n' : Node} {ns ns' : List Node} (h : Becomes n n') (hs : BecomesAll ns ns') :
      BecomesAll (n :: ns) (n' :: ns')

end

/-- What is left of the message functions: the same text is found, by the same comments. -/
structure Again (f f' : PlacedFunction) : Prop where
  shape : f'.shape = f.shape
  text : f'.text = f.text
  brace : Moves r.edits r.source (f.brace + 1) (f'.brace + 1)
  previousEnd : Option.Rel (Moves r.edits r.source) f.previousEnd f'.previousEnd
  functionLo : Moves r.edits r.source f.functionLo f'.functionLo
  leadingProperty : r.new.leadingAt f'.propertyLo = r.old.leadingAt f.propertyLo
  leadingFunction : r.new.leadingAt f'.functionLo = r.old.leadingAt f.functionLo

variable {r}

/-! ### What a tree has become -/

theorem BecomesAll.singleton {n : Node} {ns' : List Node} (h : r.BecomesAll [n] ns') :
    ∃ n', ns' = [n'] ∧ r.Becomes n n' := by
  cases h with
  | cons h hs =>
    cases hs
    exact ⟨_, rfl, h⟩

theorem literalText_of_becomes : (e : Node) → {e' : Node} → r.Becomes e e' →
    literalText e' = literalText e
  | .mk form lo hi parts, e', h => by
    cases h with
    | returned _ _ _ hform => rcases hform with rfl | rfl <;> rfl
    | arrow => rfl
    | object => rfl
    | other hform hkept hparts =>
      cases form with
      | template value => cases hparts <;> rfl
      | paren =>
        cases hparts with
        | nil => rfl
        | cons h hs =>
          cases hs with
          | nil => simpa only [literalText] using literalText_of_becomes _ h
          | cons => rfl
      | _ => rfl

theorem foldText_of_becomes : (e : Node) → {e' : Node} → r.Becomes e e' → foldText e' = foldText e
  | .mk form lo hi parts, e', h => by
    cases h with
    | returned _ _ _ hform => rcases hform with rfl | rfl <;> rfl
    | arrow => rfl
    | object => rfl
    | other hform hkept hparts =>
      cases form with
      | template value => cases hparts <;> rfl
      | paren =>
        cases hparts with
        | nil => rfl
        | cons h hs =>
          cases hs with
          | nil => simpa only [foldText] using foldText_of_becomes _ h
          | cons => rfl
      | binary isPlus =>
        cases isPlus with
        | false => rfl
        | true =>
          cases hparts with
          | nil => rfl
          | cons hleft hs =>
            cases hs with
            | nil => rfl
            | cons hright hs =>
              cases hs with
              | nil =>
                simp only [foldText, foldText_of_becomes _ hleft, literalText_of_becomes _ hright]
              | cons => rfl
      | _ => rfl

theorem form_eq_block_iff {n n' : Node} (h : r.Becomes n n') :
    n'.form = .block ↔ n.form = .block := by
  cases h with
  | returned _ _ _ hform => rcases hform with rfl | rfl <;> simp [Node.form]
  | arrow => simp [Node.form]
  | object => simp [Node.form]
  | other => rfl

/-! ### What a function returns -/

variable (r) in
/-- What is returned in a tree and in what it has become, each with the shape of its function. A
text that gives way to a call is none any more, whether or not anything is still returned. -/
inductive Result : Option (Shape × Node) → Option (Shape × Node) → Prop
  | none : Result none none
  | call {shape : Shape} {e : Node} {result' : Option (Shape × Node)}
      (hcalls : (e.lo, e.hi) ∈ r.calls) (hcall : ∀ x ∈ result', foldText x.2 = none) :
      Result (some (shape, e)) result'
  | kept {shape : Shape} {e e' : Node} (hcalls : (e.lo, e.hi) ∉ r.calls) (h : r.Becomes e e') :
      Result (some (shape, e)) (some (shape, e'))

theorem IsCall.foldText {e : Node} (h : e.IsCall) : foldText e = none := by
  obtain ⟨form, lo, hi, parts⟩ := e
  rcases h.form with rfl | rfl
  · rfl
  · cases parts <;> rfl

theorem result_soleReturn? (shape : Shape) {body body' : Node} (h : r.Becomes body body') :
    r.Result ((soleReturn? body).map (shape, ·)) ((soleReturn? body').map (shape, ·)) := by
  cases hsole : soleReturn? body with
  | some e =>
    obtain ⟨lo, hi, lo', hi', rfl⟩ := soleReturn?_eq_some_iff.mp hsole
    cases h with
    | other _ _ hparts =>
      obtain ⟨n', rfl, hn⟩ := hparts.singleton
      cases hn with
      | returned hcalls _ hcall hform =>
        refine .call hcalls fun x hx => ?_
        rcases hform with rfl | rfl
        · cases hx
          exact IsCall.foldText hcall
        · cases hx
      | other _ hkept hparts' =>
        obtain ⟨e', rfl, he⟩ := hparts'.singleton
        exact .kept (hkept e rfl) he
  | none =>
    -- what did not return a text alone does not do so with calls in it
    have hnone : soleReturn? body' = none := by
      refine Option.eq_none_iff_forall_ne_some.mpr fun e' he' => ?_
      obtain ⟨lo', hi', lo'', hi'', rfl⟩ := soleReturn?_eq_some_iff.mp he'
      cases h with
      | returned _ _ _ hform => rcases hform with hform | hform <;> cases hform
      | other _ _ hparts =>
        cases hparts with
        | cons hn hs =>
          cases hs
          cases hn with
          | returned => cases hsole
          | other _ _ hparts' =>
            cases hparts' with
            | cons he hs =>
              cases hs
              cases hsole
    rw [hnone]
    exact .none

/-- What a function returns at once, with its shape. -/
def resultOf (kind : Shape) (f : Node) : Option (Shape × Node) :=
  (returning? kind f).map fun g => (g.shape, g.result)

theorem resultOf_arrow (kind : Shape) (lo hi : Nat) (ps body : Node) (types : List Node) :
    resultOf kind (.mk (.arrow ⟨false, false⟩) lo hi (ps :: body :: types)) =
      if body.form = .block then (soleReturn? body).map (.arrowBlock, ·)
      else some (.arrowExpression, body) := by
  rw [resultOf, returning?]
  split
  · rw [Option.map_map]
    rfl
  · rfl

theorem resultOf_function (kind : Shape) (lo hi : Nat) (ps body : Node) (types : List Node) :
    resultOf kind (.mk (.function ⟨false, false⟩) lo hi (ps :: body :: types)) =
      (soleReturn? body).map (kind, ·) := by
  rw [resultOf, returning?, Option.map_map]
  rfl

theorem result_resultOf (kind : Shape) {f f' : Node} (h : r.Becomes f f') :
    r.Result (resultOf kind f) (resultOf kind f') := by
  cases h with
  | returned _ _ _ hform => rcases hform with rfl | rfl <;> exact .none
  | object => exact .none
  | @arrow flow _ _ _ _ ps ps' e e' types types' hcalls htext hcall hps htypes =>
    obtain ⟨isAsync, isGenerator⟩ := flow
    cases isAsync <;> cases isGenerator
    · -- a text is no block, and neither is a call, so the arrow still returns its body
      have hblock : e.form ≠ .block := htext.form_ne_block
      have hblock' : e'.form ≠ .block := by
        rcases hcall.form with h | h <;> rw [h] <;> decide
      rw [resultOf_arrow, resultOf_arrow, if_neg hblock, if_neg hblock']
      refine .call hcalls fun x hx => ?_
      cases hx
      exact IsCall.foldText hcall
    all_goals exact .none
  | @other form _ _ _ _ parts parts' hform hkept hparts =>
    cases form with
    | arrow flow =>
      obtain ⟨isAsync, isGenerator⟩ := flow
      cases isAsync <;> cases isGenerator
      · cases hparts with
        | nil => exact .none
        | cons hps hs =>
          cases hs with
          | nil => exact .none
          | @cons body body' types types' hbody htypes =>
            rw [resultOf_arrow, resultOf_arrow]
            -- a body stays a block, or an expression
            simp only [form_eq_block_iff hbody]
            split
            · exact result_soleReturn? .arrowBlock hbody
            · exact .kept (hkept body rfl) hbody
      all_goals exact .none
    | function flow =>
      obtain ⟨isAsync, isGenerator⟩ := flow
      cases isAsync <;> cases isGenerator
      · cases hparts with
        | nil => exact .none
        | cons hps hs =>
          cases hs with
          | nil => exact .none
          | @cons body body' types types' hbody htypes =>
            rw [resultOf_function, resultOf_function]
            exact result_soleReturn? kind hbody
      all_goals exact .none
    | _ => exact .none

/-! ### Properties -/

/-- A message function from the shape and the expression that a function returns. -/
def placedResult? (brace : Nat) (previousEnd : Option Nat) (key f : Node) (x : Shape × Node) :
    Option PlacedFunction :=
  (foldText x.2).map fun text =>
    { shape := x.1, result := x.2, text, previousEnd, brace, propertyLo := min key.lo f.lo
      functionLo := f.lo, propertyLo_le := Nat.min_le_right _ _ }

theorem placedFunction?_of_holds {p key f : Node} {kind : Shape} (h : Holds p kind key f)
    (brace : Nat) (previousEnd : Option Nat) : placedFunction? brace previousEnd p =
      (resultOf kind f).bind (placedResult? brace previousEnd key f) := by
  unfold placedFunction? resultOf placedResult?
  rw [functionProperty?_of_holds h]
  cases returning? kind f with
  | none => rfl
  | some g =>
    simp only [Option.map_some, Option.bind_eq_bind, Option.bind_some]
    cases foldText g.result <;> rfl

theorem placedFunction?_of_not_holds {p : Node} (h : ∀ kind key f, ¬ Holds p kind key f)
    (brace : Nat) (previousEnd : Option Nat) : placedFunction? brace previousEnd p = none := by
  unfold placedFunction?
  rw [functionProperty?_of_not_holds h]
  rfl

theorem holds_of_becomes {p p' : Node} (h : r.Becomes p p') :
    (∃ kind key f key' f', Holds p kind key f ∧ Holds p' kind key' f' ∧ r.Becomes f f') ∨
      (∀ kind key f, ¬ Holds p kind key f) ∧ ∀ kind key f, ¬ Holds p' kind key f := by
  by_cases hp : ∃ kind key f, Holds p kind key f
  · obtain ⟨kind, key, f, hp⟩ := hp
    cases hp <;> cases h with
    | other hform hkept hparts =>
      cases hparts with
      | cons hkey hs =>
        obtain ⟨f', rfl, hf⟩ := hs.singleton
        first
        | exact .inl ⟨_, _, _, _, _, .property, .property, hf⟩
        | exact .inl ⟨_, _, _, _, _, .method, .method, hf⟩
  · refine .inr ⟨by simpa using hp, fun kind key' f' hp' => hp ?_⟩
    cases hp' <;> cases h with
    | other hform hkept hparts =>
      cases hparts with
      | cons hkey hs =>
        cases hs with
        | cons hf hs =>
          cases hs
          first
          | exact ⟨_, _, _, .property⟩
          | exact ⟨_, _, _, .method⟩

/-- The texts that are left at a property. -/
theorem again_of_property {p p' : Node} (h : r.Becomes p p') (hplace : r.KeepsPlace p p')
    {brace brace' : Nat} (hbrace : Moves r.edits r.source (brace + 1) (brace' + 1))
    {previousEnd previousEnd' : Option Nat}
    (hprevious : Option.Rel (Moves r.edits r.source) previousEnd previousEnd') :
    List.Forall₂ r.Again
      ((placedFunction? brace previousEnd p).toList.filter fun f => f.range ∉ r.calls)
      (placedFunction? brace' previousEnd' p').toList := by
  rcases holds_of_becomes h with ⟨kind, key, f, key', f', hp, hp', hf⟩ | ⟨hp, hp'⟩
  · rw [placedFunction?_of_holds hp, placedFunction?_of_holds hp']
    have hresult := result_resultOf kind hf
    generalize hx : resultOf kind f = x at hresult
    generalize hx' : resultOf kind f' = x' at hresult
    cases hresult with
    | none => exact .nil
    | @call shape e _ hcalls hcall =>
      -- a call has no text, so nothing is found where the text was
      have hgone : x'.bind (placedResult? brace' previousEnd' key' f') = none := by
        refine Option.bind_eq_none_iff.mpr fun y hy => ?_
        rw [placedResult?, hcall y hy]
        rfl
      rw [hgone]
      cases htext : foldText e <;> simp [placedResult?, htext, PlacedFunction.range, hcalls]
    | @kept shape e e' hcalls he =>
      have htext' := foldText_of_becomes e he
      simp only [Option.bind_some, placedResult?, htext']
      cases htext : foldText e with
      | none => exact .nil
      | some text =>
        obtain ⟨g, hg, heq⟩ := Option.map_eq_some_iff.mp hx
        obtain ⟨g', hg', heq'⟩ := Option.map_eq_some_iff.mp hx'
        obtain ⟨hlo, hproperty, hfunction⟩ := hplace.function ⟨key, f, g⟩ ⟨key', f', g'⟩
          (by rw [functionProperty?_of_holds hp, hg]; rfl)
          (by rw [functionProperty?_of_holds hp', hg']; rfl)
        have hkept : (e.lo, e.hi) ∉ r.calls := hcalls
        simp only [Option.map_some, Option.toList_some, PlacedFunction.range, List.filter_cons,
          hkept, not_false_eq_true, decide_true, if_true, List.filter_nil]
        exact .cons ⟨rfl, rfl, hbrace, hprevious, hlo, hproperty, hfunction⟩ .nil
  · rw [placedFunction?_of_not_holds hp, placedFunction?_of_not_holds hp']
    exact .nil

/-! ### Trees -/

theorem filterMap_withPrevious_cons (brace : Nat) (previousEnd : Option Nat) (p : Node)
    (ps : List Node) :
    (withPrevious previousEnd (p :: ps)).filterMap (fun x => placedFunction? brace x.1 x.2) =
      (placedFunction? brace previousEnd p).toList ++
        (withPrevious (some p.hi) ps).filterMap (fun x => placedFunction? brace x.1 x.2) := by
  rw [withPrevious, List.filterMap_cons]
  cases placedFunction? brace previousEnd p <;> simp only <;> rfl

theorem again_of_properties {ps ps' : List Node} (hplaces : List.Forall₂ r.KeepsPlace ps ps')
    (h : r.BecomesAll ps ps') {brace brace' : Nat}
    (hbrace : Moves r.edits r.source (brace + 1) (brace' + 1))
    {previousEnd previousEnd' : Option Nat}
    (hprevious : Option.Rel (Moves r.edits r.source) previousEnd previousEnd') :
    List.Forall₂ r.Again
      (((withPrevious previousEnd ps).filterMap fun x => placedFunction? brace x.1 x.2).filter
        fun f => f.range ∉ r.calls)
      ((withPrevious previousEnd' ps').filterMap fun x => placedFunction? brace' x.1 x.2) := by
  induction hplaces generalizing previousEnd previousEnd' with
  | nil => exact .nil
  | @cons p p' ps ps' hplace hplaces ih =>
    cases h with
    | cons hp hps =>
      rw [filterMap_withPrevious_cons, filterMap_withPrevious_cons, List.filter_append]
      exact List.rel_append (again_of_property hp hplace hbrace hprevious)
        (ih hps (.some hplace.hi))

mutual

theorem again_of_becomes : (n : Node) → {n' : Node} → r.Becomes n n' →
    List.Forall₂ r.Again ((placedOf [n]).filter fun f => f.range ∉ r.calls) (placedOf [n'])
  | .mk form lo hi parts, n', h => by
    cases h with
    | @returned _ _ _ _ form' e e' _ htext hcall hform =>
      -- neither a text nor a call has functions in it
      have hne : form' ≠ .object := by rcases hform with rfl | rfl <;> decide
      rw [placedOf_singleton, placedOf_singleton, if_neg (by decide), if_neg hne,
        placedOf_of_functionFree e htext.functionFree,
        placedOf_of_functionFree e' hcall.functionFree]
      exact .nil
    | @arrow flow _ _ _ _ ps ps' e e' types types' _ htext hcall hps htypes =>
      rw [placedOf_singleton, placedOf_singleton, if_neg (by simp), if_neg (by simp),
        placedOf_cons ps, placedOf_cons e, placedOf_cons ps', placedOf_cons e',
        placedOf_of_functionFree e htext.functionFree,
        placedOf_of_functionFree e' hcall.functionFree]
      simp only [List.nil_append, List.filter_append]
      exact List.rel_append (again_of_becomes ps hps) (again_of_becomesAll types htypes)
    | object hbrace hplaces hparts =>
      rw [placedOf_singleton, placedOf_singleton, if_pos rfl, if_pos rfl, List.filter_append]
      exact List.rel_append (again_of_properties hplaces hparts hbrace .none)
        (again_of_becomesAll parts hparts)
    | other hform hkept hparts =>
      rw [placedOf_singleton, placedOf_singleton, if_neg hform, if_neg hform]
      exact again_of_becomesAll parts hparts

theorem again_of_becomesAll : (ns : List Node) → {ns' : List Node} → r.BecomesAll ns ns' →
    List.Forall₂ r.Again ((placedOf ns).filter fun f => f.range ∉ r.calls) (placedOf ns')
  | [], _, .nil => .nil
  | n :: ns, ns', h => by
    cases h with
    | @cons _ n' _ ns' h hs =>
      rw [placedOf_cons n ns, placedOf_cons n' ns', List.filter_append]
      exact List.rel_append (again_of_becomes n h) (again_of_becomesAll ns hs)

end

/-! ### Modules -/

/-- The new text is read as the first `k` items of the old one with calls in them, and possibly with
an import somewhere between them. -/
def Reads (r : Revision) (k : Nat) : Prop :=
  ∃ items, r.BecomesAll (r.old.items.take k) items ∧
    (r.new.items = items ∨ ∃ front back added, items = front ++ back ∧
      r.new.items = front ++ added :: back ∧ functionFree added = true)

theorem Reads.again {k : Nat} (h : r.Reads k) :
    List.Forall₂ r.Again ((placedOf (r.old.items.take k)).filter fun f => f.range ∉ r.calls)
      (placedOf r.new.items) := by
  obtain ⟨items, hitems, hnew⟩ := h
  have hagain := again_of_becomesAll (r.old.items.take k) hitems
  rcases hnew with hnew | ⟨front, back, added, rfl, hnew, hfree⟩
  · rwa [hnew]
  · rw [placedOf_append] at hagain
    rw [hnew, placedOf_append, placedOf_cons, placedOf_of_functionFree added hfree,
      List.nil_append]
    exact hagain

end Revision

end Phrasebook
