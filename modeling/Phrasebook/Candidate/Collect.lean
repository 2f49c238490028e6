import Phrasebook.Candidate
import Phrasebook.Doc.Lookup
import Phrasebook.Script.Fold
import Phrasebook.Script.Module
import Phrasebook.Script.Numeral

/-!
# Finding message functions

`objects` lists the object literals of a tree, each before those inside it. A property of one is a
message function when its value is a plain function that does nothing but return an expression
with a known text. Documentation either exempts it or goes with it.
-/

namespace Phrasebook

open Script (Node Form Module foldText numeralText bigIntText)

mutual

/-- The object literals in a node, outer ones first. -/
def objects : Node → List Node
  | .mk form lo hi parts =>
    if form = .object then .mk form lo hi parts :: objectsOf parts else objectsOf parts

def objectsOf : List Node → List Node
  | [] => []
  | n :: ns => objects n ++ objectsOf ns

end

namespace Collect

/-! ### Functions -/

/-- The expression that a block returns when it does nothing else. -/
def soleReturn? : Node → Option Node
  | .mk .block _ _ [.mk .returnStatement _ _ [e]] => some e
  | _ => none

/-- A function that does nothing but return `result`. -/
structure ReturningFunction where
  shape : Shape
  params : List Node
  result : Node

/-- Functions that run at once and in one go. Those that are values of properties, which are no
arrow functions, have the shape `shape`. -/
def returning? (shape : Shape) : Node → Option ReturningFunction
  | .mk (.arrow ⟨false, false⟩) _ _ (ps :: body :: _) =>
    if body.form = .block then (soleReturn? body).map (⟨.arrowBlock, ps.parts, ·⟩)
    else some ⟨.arrowExpression, ps.parts, body⟩
  | .mk (.function ⟨false, false⟩) _ _ (ps :: body :: _) =>
    (soleReturn? body).map (⟨shape, ps.parts, ·⟩)
  | _ => none

/-- A property with the function that is its value. -/
structure FunctionProperty where
  key : Node
  function : Node
  returning : ReturningFunction

def functionProperty? : Node → Option FunctionProperty
  | .mk .property _ _ [key, f] => (returning? .function f).map (⟨key, f, ·⟩)
  | .mk .method _ _ [key, f] => (returning? .method f).map (⟨key, f, ·⟩)
  | _ => none

def propertyName (key : Node) : String :=
  match key.form with
  | .name text => text
  | .string value => value.getD ""
  | .number text => String.ofList (numeralText text.toList)
  | .bigInt text => String.ofList (bigIntText text.toList)
  | _ => "[computed]"

/-! ### Parameters -/

def isThis (n : Node) : Bool := n.form == .name "this"

/-- A parameter that is a name, with its type as the source has it. -/
def param? (source : List Char) (index : Nat) (n : Node) : Option Param :=
  match n.form with
  | .name name =>
    let type := n.parts.head?.bind fun t => Text.slice? source t.lo t.hi
    some ⟨index, name, type.map String.ofList⟩
  | _ => none

def params (source : List Char) (ns : List Node) : List Param :=
  (ns.filter (!isThis ·)).zipIdx.filterMap fun (n, i) => param? source i n

/-! ### Properties -/

/-- Where the text in front of a property begins: behind the line on which the property before it
ends, or behind the brace at `brace`. -/
def rawStart (source : List Char) (previousEnd : Option Nat) (brace stop : Nat) : Nat :=
  match previousEnd with
  | some e =>
    match Text.slice? source e stop with
    | some between =>
      let line := between.takeWhile (· != '\n')
      if line.length < between.length then min (e + Text.byteLength line + 1) stop else stop
    | none => stop
  | none => min (brace + 1) stop

/-- The documentation of a function at `functionLo` with its property at `propertyLo`. -/
def docOf (m : Module) (source : List Char) (previousEnd : Option Nat)
    (brace propertyLo functionLo : Nat) : ResolvedDoc :=
  let stop := max functionLo propertyLo
  let raw := Text.slice? source (rawStart source previousEnd brace stop) stop
  DocLookup.resolve [m.leadingAt propertyLo, m.leadingAt functionLo] (raw.getD [])

/-- What is found at a property. -/
inductive Finding where
  | candidate (c : Candidate)
  /-- A message function that is not to be translated. -/
  | exempt

/-- A message function, or nothing when the property is none. -/
def finding? (m : Module) (source : List Char) (brace : Nat) (previousEnd : Option Nat)
    (property : Node) : Option Finding := do
  let p ← functionProperty? property
  let text ← foldText p.returning.result
  let lo := min p.key.lo p.function.lo
  let resolved := docOf m source previousEnd brace lo p.function.lo
  if resolved.isExempt then some .exempt
  else
    let (line, col) := m.lineCol lo
    some <| .candidate
      { shape := p.returning.shape, property := propertyName p.key, text
        start := p.returning.result.lo, stop := p.returning.result.hi
        params := params source p.returning.params, doc := resolved.doc, line, col }

/-- Properties, each with the end of the one before it. -/
def withPrevious (previousEnd : Option Nat) : List Node → List (Option Nat × Node)
  | [] => []
  | p :: ps => (previousEnd, p) :: withPrevious (some p.hi) ps

def findingsIn (m : Module) (source : List Char) (object : Node) : List Finding :=
  (withPrevious none object.parts).filterMap fun (e, p) => finding? m source object.lo e p

def findings (m : Module) (source : List Char) : List Finding :=
  (objectsOf m.items).flatMap (findingsIn m source)

end Collect

/-- The message functions of a module: those to be translated, and the number of the others. -/
structure Collected where
  candidates : List Candidate
  exempted : Nat

def collect (m : Script.Module) (source : List Char) : Collected :=
  let fs := Collect.findings m source
  { candidates := fs.filterMap fun
      | .candidate c => some c
      | .exempt => none
    exempted := fs.countP fun
      | .candidate _ => false
      | .exempt => true }

end Phrasebook
