import Phrasebook.Proofs.MessageFunction

/-!
# What names refer to

A name refers to what the innermost scope around it declares under that name. Scopes are made by
functions, classes, enumerations, namespaces, blocks, loops, cases and clauses that catch; the
outermost one is the module, which declares names of its own and imports others. `namesFor` says
what a node declares for each of its parts, and `referent?` what that makes of a name at a place.

Only names of values count: types and what is merely said to be declared elsewhere leave nothing
behind. A namespace that is written in several parts is looked at in each of them alone, and it
declares its name whatever it holds.
-/

namespace Phrasebook

namespace Script

/-! ### Names in patterns -/

mutual

/-- The names that a pattern binds. Keys, types and default values bind none. -/
def patternNames : Node → List String
  | .mk (.name text) _ _ _ => [text]
  | .mk .defaultPattern _ _ (n :: _) => patternNames n
  | .mk .property _ _ [_, n] => patternNames n
  | .mk .shorthand _ _ ns | .mk .restPattern _ _ ns | .mk .arrayPattern _ _ ns
  | .mk .objectPattern _ _ ns => patternNamesOf ns
  | _ => []

def patternNamesOf : List Node → List String
  | [] => []
  | n :: ns => patternNames n ++ patternNamesOf ns

end

/-- The names of a variable and of those that come with it. -/
def declaratorNames : Node → List String
  | .mk .declarator _ _ (n :: _) => patternNames n
  | _ => []

def parameterNames : Node → List String
  | .mk .parameters _ _ ns => patternNamesOf ns
  | _ => []

/-! ### Names of functions, classes and members -/

/-- The name of a function, where it stands among its parts. -/
def functionNames (n : Node) : List String :=
  match n.form with
  | .functionName text => [text]
  | _ => []

/-- The name of a function or class itself. -/
def ownNames : Node → List String
  | .mk (.function _) _ _ ns => ns.flatMap functionNames
  | .mk (.classForm name) _ _ _ => name.toList
  | _ => []

/-- A key that is a name. -/
def keyNames (n : Node) : List String :=
  match n.form with
  | .name text | .string (some text) => [text]
  | _ => []

/-- The name of a member of an enumeration. -/
def memberNames : Node → List String
  | .mk .item _ _ (k :: _) => keyNames k
  | _ => []

/-! ### Names of imports -/

def bindingNames (n : Node) : List String :=
  match n.form with
  | .importBinding false text => [text]
  | _ => []

/-- The names of the values that an import binds. -/
def importedNames : Node → List String
  | .mk (.importItem false) _ _ ns => ns.flatMap bindingNames
  | _ => []

theorem mem_bindingNames_iff {n : Node} {name : String} :
    name ∈ bindingNames n ↔ n.form = .importBinding false name := by
  unfold bindingNames
  split
  · rename_i text hform
    simp [hform, eq_comm]
  · rename_i hform
    simpa using hform name

/-- What counts as an import of a name binds it. -/
theorem bindsValue_iff {name : String} {item : Node} :
    bindsValue name item = true ↔ name ∈ importedNames item := by
  obtain ⟨form, lo, hi, parts⟩ := item
  cases form
  case importItem typeOnly =>
    cases typeOnly
    · simp [bindsValue, importedNames, mem_bindingNames_iff]
    · simp [bindsValue, importedNames]
  all_goals simp [bindsValue, importedNames]

/-! ### Names that statements declare -/

/-- Forms that hold statements of the function around them. -/
def Form.holdsStatements : Form → Bool
  | .block | .statement | .forStatement | .switchStatement | .tryStatement | .item => true
  | _ => false

mutual

/-- The names of the variables of the function around a statement. They belong to all of it, however
deep in it they stand. -/
def hoistedNames : Node → List String
  | .mk (.variableList true) _ _ ns => ns.flatMap declaratorNames
  | .mk form _ _ ns => if form.holdsStatements then hoistedNamesOf ns else []

def hoistedNamesOf : List Node → List String
  | [] => []
  | n :: ns => hoistedNames n ++ hoistedNamesOf ns

end

/-- The names that a statement declares in the block around it, with or without `export` or labels
in front of it. -/
def lexicalNames : Node → List String
  | .mk (.variableList false) _ _ ns => ns.flatMap declaratorNames
  | .mk .declaration _ _ ns => ns.flatMap ownNames
  | .mk (.enumeration name) _ _ _ => [name]
  | .mk (.namespaceForm names) _ _ _ => names.take 1
  | .mk (.importEquals false) _ _ ns => ns.flatMap bindingNames
  | .mk .item _ _ [n] | .mk .statement _ _ [n] => lexicalNames n
  | _ => []

/-! ### Scopes -/

/-- The names of the variables in a body. -/
def bodyNames (n : Node) : List String := if n.form = .block then hoistedNames n else []

/-- The names that a clause catches failures by; what is tried and what is done about it are
blocks. -/
def caughtNames (n : Node) : List String := if n.form = .block then [] else patternNames n

/-- What functions that are no arrow functions declare by themselves. -/
def argumentNames (n : Node) : List String := if n.form = .parameters then ["arguments"] else []

/-- The names that a node declares for its part number `i`. A constructor and a block that runs once
for a class are items. -/
def namesFor : Node → Nat → List String
  | .mk (.function _) _ _ ns, i =>
    ns.flatMap functionNames ++ ns.flatMap argumentNames ++ ns.flatMap parameterNames
      ++ ns[i]?.toList.flatMap bodyNames
  | .mk (.arrow _) _ _ ns, i => ns.flatMap parameterNames ++ ns[i]?.toList.flatMap bodyNames
  | .mk .item _ _ ns, i =>
    ns.flatMap argumentNames ++ ns.flatMap parameterNames ++ ns[i]?.toList.flatMap bodyNames
  | .mk (.classForm name) _ _ _, _ => name.toList
  | .mk (.enumeration _) _ _ ns, _ => ns.flatMap memberNames
  | .mk (.namespaceForm names) _ _ ns, i => names.drop 1 ++ ns[i]?.toList.flatMap bodyNames
  | .mk .block _ _ ns, _ => ns.flatMap lexicalNames ++ ns.flatMap importedNames
  | .mk .forStatement _ _ ns, _ => (ns.take 1).flatMap lexicalNames
  | .mk .switchStatement _ _ ns, i => if i = 0 then [] else (ns.drop 1).flatMap lexicalNames
  | .mk .tryStatement _ _ ns, i => if i = 1 ∨ i = 2 then ns[1]?.toList.flatMap caughtNames else []
  | _, _ => []

/-- The names that are declared around a place in a node, by the node and by what is in it. -/
def Node.namesAround (n : Node) : List Nat → List String
  | [] => []
  | i :: path => namesFor n i ++ n.parts[i]?.elim [] (namesAround · path)

theorem Node.descend?_append (n : Node) (path path' : List Nat) :
    n.descend? (path ++ path') = (n.descend? path).bind (·.descend? path') := by
  induction path generalizing n with
  | nil => rfl
  | cons i path ih =>
    rw [List.cons_append, descend?, descend?, Option.bind_assoc]
    exact congrArg _ (funext ih)

theorem Node.namesAround_append {n f : Node} {path : List Nat} (h : n.descend? path = some f)
    (path' : List Nat) :
    n.namesAround (path ++ path') = n.namesAround path ++ f.namesAround path' := by
  induction path generalizing n with
  | nil =>
    obtain rfl := Option.some.inj h
    rfl
  | cons i path ih =>
    obtain ⟨p, hp, h'⟩ := Option.bind_eq_some_iff.mp h
    rw [List.cons_append, namesAround, namesAround, hp, List.append_assoc]
    exact congrArg _ (ih h')

/-! ### Modules -/

/-- What a name refers to. -/
inductive Referent where
  /-- What is declared around its place within the module. -/
  | inner
  /-- What the module declares itself. -/
  | own
  /-- What the module imports. -/
  | imported
deriving DecidableEq

namespace Module

/-- The names that are declared around a place by scopes within a module. -/
def namesAround (m : Module) : List Nat → List String
  | [] => []
  | i :: path => m.items[i]?.elim [] (·.namesAround path)

theorem namesAround_append {m : Module} {n : Node} {path : List Nat}
    (h : m.root.descend? path = some n) (hne : path ≠ []) (path' : List Nat) :
    m.namesAround (path ++ path') = m.namesAround path ++ n.namesAround path' := by
  cases path with
  | nil => exact (hne rfl).elim
  | cons i path =>
    obtain ⟨item, hitem, h'⟩ := Option.bind_eq_some_iff.mp h
    have hget : m.items[i]? = some item := hitem
    rw [List.cons_append, namesAround, namesAround, hget]
    exact Node.namesAround_append h' path'

/-- The names that a module declares. -/
def declaredNames (m : Module) : List String :=
  m.items.flatMap hoistedNames ++ m.items.flatMap lexicalNames

/-- What a name at a place of a module refers to, if it is declared at all. -/
def referent? (m : Module) (path : List Nat) (name : String) : Option Referent :=
  if name ∈ m.namesAround path then some .inner
  else if name ∈ m.declaredNames then some .own
  else if m.items.any (bindsValue name) then some .imported
  else none

end Module

end Script

end Phrasebook
