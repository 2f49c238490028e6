import Phrasebook.Proofs.Revision.Tree
import Phrasebook.Proofs.Scope.Names

/-!
# Calls declare nothing

Where calls have taken the places of texts, the same names are declared at the same places as
before: neither a text nor a call declares a name, and everything else has stayed what it was.
-/

namespace Phrasebook

open Script

/-! ### Nodes that declare the same names -/

/-- Two nodes declare the same names. -/
structure Script.Node.SameNames (n n' : Node) : Prop where
  pattern : patternNames n' = patternNames n
  declarator : declaratorNames n' = declaratorNames n
  parameter : parameterNames n' = parameterNames n
  function : functionNames n' = functionNames n
  own : ownNames n' = ownNames n
  key : keyNames n' = keyNames n
  member : memberNames n' = memberNames n
  binding : bindingNames n' = bindingNames n
  imported : importedNames n' = importedNames n
  hoisted : hoistedNames n' = hoistedNames n
  lexical : lexicalNames n' = lexicalNames n
  isBlock : n'.form = .block ↔ n.form = .block
  isParameters : n'.form = .parameters ↔ n.form = .parameters

namespace Script.Node.SameNames

variable {n n' : Node} {ns ns' : List Node}

theorem flatMap {f : Node → List String} (hf : ∀ {n n'}, SameNames n n' → f n' = f n)
    (h : List.Forall₂ SameNames ns ns') : ns'.flatMap f = ns.flatMap f := by
  induction h with
  | nil => rfl
  | cons h hs ih => rw [List.flatMap_cons, List.flatMap_cons, hf h, ih]

theorem patternNamesOf_eq (h : List.Forall₂ SameNames ns ns') :
    patternNamesOf ns' = patternNamesOf ns := by
  induction h with
  | nil => rfl
  | cons h hs ih => rw [patternNamesOf, patternNamesOf, h.pattern, ih]

theorem hoistedNamesOf_eq (h : List.Forall₂ SameNames ns ns') :
    hoistedNamesOf ns' = hoistedNamesOf ns := by
  induction h with
  | nil => rfl
  | cons h hs ih => rw [hoistedNamesOf, hoistedNamesOf, h.hoisted, ih]

section

variable {form : Form} {lo hi lo' hi' : Nat} (h : List.Forall₂ SameNames ns ns')
include h

theorem patternNames_mk :
    patternNames (.mk form lo' hi' ns') = patternNames (.mk form lo hi ns) := by
  cases form
  case defaultPattern =>
    cases h with
    | nil => rfl
    | cons hn => exact hn.pattern
  case property =>
    cases h with
    | nil => rfl
    | cons hk hs =>
      cases hs with
      | nil => rfl
      | cons hn hs =>
        cases hs with
        | nil => exact hn.pattern
        | cons => rfl
  all_goals first | rfl | exact patternNamesOf_eq h

theorem lexicalNames_mk :
    lexicalNames (.mk form lo' hi' ns') = lexicalNames (.mk form lo hi ns) := by
  cases form
  case variableList isVar =>
    cases isVar
    · exact flatMap declarator h
    · rfl
  case declaration => exact flatMap own h
  case importEquals typeOnly =>
    cases typeOnly
    · exact flatMap binding h
    · rfl
  -- an item with one part declares what that part does
  case item | statement =>
    cases h with
    | nil => rfl
    | cons hn hs =>
      cases hs with
      | nil => exact hn.lexical
      | cons => rfl
  all_goals rfl

theorem hoistedNames_mk :
    hoistedNames (.mk form lo' hi' ns') = hoistedNames (.mk form lo hi ns) := by
  cases form
  case variableList isVar =>
    cases isVar
    · rfl
    · exact flatMap declarator h
  all_goals first | rfl | exact hoistedNamesOf_eq h

/-- Nodes of the same form declare the same names when their parts do. -/
theorem of_parts : SameNames (.mk form lo hi ns) (.mk form lo' hi' ns') where
  pattern := patternNames_mk h
  declarator := by
    cases form
    case declarator =>
      cases h with
      | nil => rfl
      | cons hn => exact hn.pattern
    all_goals rfl
  parameter := by
    cases form
    case parameters => exact patternNamesOf_eq h
    all_goals rfl
  function := by cases form <;> rfl
  own := by
    cases form
    case function => exact flatMap function h
    all_goals rfl
  key := by cases form <;> rfl
  member := by
    cases form
    case item =>
      cases h with
      | nil => rfl
      | cons hn => exact hn.key
    all_goals rfl
  binding := by cases form <;> rfl
  imported := by
    cases form
    case importItem typeOnly =>
      cases typeOnly
      · exact flatMap binding h
      · rfl
    all_goals rfl
  hoisted := hoistedNames_mk h
  lexical := lexicalNames_mk h
  isBlock := .rfl
  isParameters := .rfl

end

theorem bodyNames_eq (h : SameNames n n') : bodyNames n' = bodyNames n := by
  simp only [bodyNames, h.isBlock, h.hoisted]

theorem caughtNames_eq (h : SameNames n n') : caughtNames n' = caughtNames n := by
  simp only [caughtNames, h.isBlock, h.pattern]

theorem argumentNames_eq (h : SameNames n n') : argumentNames n' = argumentNames n := by
  simp only [argumentNames, h.isParameters]

theorem getElem?_toList (h : List.Forall₂ SameNames ns ns') (i : Nat) :
    List.Forall₂ SameNames ns[i]?.toList ns'[i]?.toList := by
  induction h generalizing i with
  | nil => exact .nil
  | cons hn hs ih =>
    cases i with
    | zero => exact .cons hn .nil
    | succ i => exact ih i

/-- For their parts too they declare the same names then. -/
theorem namesFor_mk (h : List.Forall₂ SameNames ns ns') (form : Form) (lo hi lo' hi' i : Nat) :
    namesFor (.mk form lo' hi' ns') i = namesFor (.mk form lo hi ns) i := by
  have hbody : ns'[i]?.toList.flatMap bodyNames = ns[i]?.toList.flatMap bodyNames :=
    flatMap bodyNames_eq (getElem?_toList h i)
  cases form
  case function =>
    simp only [namesFor, flatMap function h, flatMap argumentNames_eq h, flatMap parameter h, hbody]
  case arrow => simp only [namesFor, flatMap parameter h, hbody]
  case item => simp only [namesFor, flatMap argumentNames_eq h, flatMap parameter h, hbody]
  case namespaceForm => simp only [namesFor, hbody]
  case enumeration => exact flatMap member h
  case block => simp only [namesFor, flatMap lexical h, flatMap imported h]
  case forStatement => exact flatMap lexical (List.forall₂_take 1 h)
  case switchStatement => simp only [namesFor, flatMap lexical (List.forall₂_drop 1 h)]
  case tryStatement => simp only [namesFor, flatMap caughtNames_eq (getElem?_toList h 1)]
  all_goals rfl

end Script.Node.SameNames

namespace Revision

variable {r : Revision}

/-! ### What trees have become -/

/-- A statement that returns a value declares no names, and neither does an expression statement,
which it becomes where the call is written tight behind `return`. -/
theorem sameNames_of_returned {lo hi lo' hi' : Nat} {form' : Form} {ns ns' : List Node}
    (h : form' = .returnStatement ∨ form' = .expressionStatement) :
    Node.SameNames (.mk .returnStatement lo hi ns) (.mk form' lo' hi' ns') := by
  rcases h with rfl | rfl <;> constructor <;> simp [patternNames, declaratorNames, parameterNames,
    functionNames, ownNames, keyNames, memberNames, bindingNames, importedNames, hoistedNames,
    lexicalNames, Form.holdsStatements, Node.form]

mutual

theorem sameNames_of_becomes : (n : Node) → {n' : Node} → r.Becomes n n' → n.SameNames n'
  | .mk form lo hi parts, n', h => by
    cases h with
    | returned _ _ _ hform => exact sameNames_of_returned hform
    | arrow => constructor <;> rfl
    | object _ _ hparts => exact .of_parts (sameNames_of_becomesAll parts hparts)
    | other _ _ hparts => exact .of_parts (sameNames_of_becomesAll parts hparts)

theorem sameNames_of_becomesAll : (ns : List Node) → {ns' : List Node} → r.BecomesAll ns ns' →
    List.Forall₂ Node.SameNames ns ns'
  | [], _, .nil => .nil
  | n :: ns, _, h => by
    cases h with
    | cons h hs => exact .cons (sameNames_of_becomes n h) (sameNames_of_becomesAll ns hs)

end

theorem parameterNames_of_ne {n : Node} (h : n.form ≠ .parameters) : parameterNames n = [] := by
  unfold parameterNames
  split
  · exact (h rfl).elim
  · rfl

theorem noNames_of_isText {e : Node} (h : e.IsText) :
    parameterNames e = [] ∧ bodyNames e = [] := by
  refine ⟨parameterNames_of_ne ?_, if_neg h.form_ne_block⟩
  obtain ⟨form, lo, hi, parts⟩ := e
  rintro rfl
  cases h.text

theorem noNames_of_isCall {e : Node} (h : e.IsCall) :
    parameterNames e = [] ∧ bodyNames e = [] := by
  rcases h.form with hform | hform
  all_goals exact ⟨parameterNames_of_ne (by rw [hform]; decide), if_neg (by rw [hform]; decide)⟩

theorem namesFor_arrow {flow : Flow} {lo hi lo' hi' : Nat} {ps ps' e e' : Node}
    {types types' : List Node} (htext : e.IsText) (hcall : e'.IsCall) (hps : r.Becomes ps ps')
    (htypes : r.BecomesAll types types') (i : Nat) :
    namesFor (.mk (.arrow flow) lo' hi' (ps' :: e' :: types')) i =
      namesFor (.mk (.arrow flow) lo hi (ps :: e :: types)) i := by
  have hps := sameNames_of_becomes ps hps
  have htypes := sameNames_of_becomesAll types htypes
  obtain ⟨hparameter, hbody⟩ := noNames_of_isText htext
  obtain ⟨hparameter', hbody'⟩ := noNames_of_isCall hcall
  have hpart : (ps' :: e' :: types')[i]?.toList.flatMap bodyNames =
      (ps :: e :: types)[i]?.toList.flatMap bodyNames := by
    match i with
    | 0 => simp [hps.bodyNames_eq]
    | 1 => simp [hbody, hbody']
    | i + 2 =>
      exact Node.SameNames.flatMap (·.bodyNames_eq) (Node.SameNames.getElem?_toList htypes i)
  simp only [namesFor, List.flatMap_cons, hps.parameter, hparameter, hparameter',
    Node.SameNames.flatMap (·.parameter) htypes, hpart]

theorem getElem?_of_becomesAll {ns ns' : List Node} (h : r.BecomesAll ns ns') {i : Nat} {n : Node}
    (hn : ns[i]? = some n) : ∃ n', ns'[i]? = some n' ∧ r.Becomes n n' := by
  induction ns generalizing ns' i with
  | nil => cases hn
  | cons m ms ih =>
    cases h with
    | cons h hs =>
      cases i with
      | zero =>
        obtain rfl := Option.some.inj hn
        exact ⟨_, rfl, h⟩
      | succ i => exact ih hs hn

/-- A part with a function in it has become a part at the same place, with the same names around
it. -/
theorem Becomes.getElem? {n n' : Node} (h : r.Becomes n n') {i : Nat} {p : Node}
    (hp : n.parts[i]? = some p) (hfunction : functionFree p = false) :
    ∃ p', n'.parts[i]? = some p' ∧ r.Becomes p p' ∧ namesFor n' i = namesFor n i := by
  cases h with
  | returned _ htext =>
    obtain rfl := List.mem_singleton.mp (List.mem_of_getElem? hp)
    rw [htext.functionFree] at hfunction
    cases hfunction
  | arrow _ htext hcall hps htypes =>
    match i with
    | 0 =>
      obtain rfl := Option.some.inj hp
      exact ⟨_, rfl, hps, namesFor_arrow htext hcall hps htypes 0⟩
    | 1 =>
      obtain rfl := Option.some.inj hp
      rw [htext.functionFree] at hfunction
      cases hfunction
    | i + 2 =>
      obtain ⟨p', hp', h⟩ := getElem?_of_becomesAll htypes hp
      exact ⟨p', hp', h, namesFor_arrow htext hcall hps htypes (i + 2)⟩
  | object _ _ hparts | other _ _ hparts =>
    obtain ⟨p', hp', h⟩ := getElem?_of_becomesAll hparts hp
    exact ⟨p', hp', h, Node.SameNames.namesFor_mk (sameNames_of_becomesAll _ hparts) ..⟩

theorem functionFree_of_descend? {n f : Node} {path : List Nat} (hf : n.descend? path = some f)
    (h : functionFree n = true) : functionFree f = true := by
  induction path generalizing n with
  | nil =>
    obtain rfl := Option.some.inj hf
    exact h
  | cons i path ih =>
    obtain ⟨p, hp, hf'⟩ := Option.bind_eq_some_iff.mp hf
    obtain ⟨form, lo, hi, parts⟩ := n
    exact ih hf' (forall_of_functionFreeAll (functionFreeAll_parts h) p (List.mem_of_getElem? hp))

/-- A function has become a function at the same place, with the same names around it. -/
theorem Becomes.descend? {n n' : Node} (h : r.Becomes n n') {path : List Nat} {f : Node}
    (hf : n.descend? path = some f) (hfunction : functionFree f = false) :
    ∃ f', n'.descend? path = some f' ∧ r.Becomes f f' ∧
      n'.namesAround path = n.namesAround path := by
  induction path generalizing n n' with
  | nil =>
    obtain rfl := Option.some.inj hf
    exact ⟨n', rfl, h, rfl⟩
  | cons i path ih =>
    obtain ⟨p, hp, hf⟩ := Option.bind_eq_some_iff.mp hf
    -- the way leads to a function, so it keeps clear of what has given way to calls
    have hpart : functionFree p = false := by
      rw [← Bool.not_eq_true]
      intro hfree
      rw [functionFree_of_descend? hf hfree] at hfunction
      cases hfunction
    obtain ⟨p', hp', h', hnames⟩ := h.getElem? hp hpart
    obtain ⟨f', hf', h'', haround⟩ := ih h' hf
    refine ⟨f', ?_, h'', ?_⟩
    · rw [Node.descend?, hp']
      exact hf'
    · rw [Node.namesAround, Node.namesAround, hp, hp', hnames]
      exact congrArg (namesFor n i ++ ·) haround

end Revision

end Phrasebook
