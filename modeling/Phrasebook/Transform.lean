import Phrasebook.Call
import Phrasebook.Candidate.Collect
import Phrasebook.Splice
import Phrasebook.Store

/-!
# Transforming a file

A file is prepared without a store: its message functions are found, and the place for an import
of the runtime if it has none. Applying a prepared file gives its messages their ids, records them
in a store and puts calls in the places of their texts. When a text cannot be parsed to its end,
only the longest beginning of whole lines that can be parsed is looked at.
-/

namespace Phrasebook

open Script (Node Form Module)

/-! ### The import of the runtime -/

inductive ImportPlace where
  /-- In front of the item that begins here. -/
  | before (place : Nat)
  /-- Behind the item that ends here, which is the last one. -/
  | after (place : Nat)
deriving DecidableEq, Repr

/-- A string that stands alone as a statement. -/
def isDirective : Node → Bool
  | .mk .expressionStatement _ _ [.mk (.string _) _ _ _] => true
  | _ => false

/-- The item imports a value under the name `name`. -/
def bindsValue (name : String) : Node → Bool
  | .mk (.importItem false) _ _ parts => parts.any (·.form == .importBinding false name)
  | _ => false

/-- In front of the first item that is no directive. -/
def importPlace (items : List Node) : ImportPlace :=
  match items.find? (!isDirective ·) with
  | some item => .before item.lo
  | none =>
    match items.getLast? with
    | some item => .after item.hi
    | none => .before 0

/-! ### Preparing -/

structure Prepared where
  filename : String
  candidates : List Candidate := []
  exempted : Nat := 0
  /-- Where the runtime is imported; `none` when the file does so itself. -/
  importAt : Option ImportPlace := none
deriving Repr

/-- The module that a text is, or that its beginning is. -/
def readModule (source filename : String) : Option Module :=
  let jsx := Script.allowsTags filename
  match Script.parse jsx source.toList with
  | .ok m => some m
  | .error e => Script.parsePrefix jsx source.toList e.offset

def prepare (source filename : String) (o : Options) : Prepared :=
  match readModule source filename with
  | none => { filename }
  | some m =>
    let found := collect m source.toList
    { filename, candidates := found.candidates, exempted := found.exempted
      importAt :=
        if m.items.any (bindsValue o.runtimeId) then none else some (importPlace m.items) }

/-! ### Applying -/

/-- No id is left for a text. -/
structure ExhaustedIds where
  text : String
deriving DecidableEq, Repr

def ExhaustedIds.message (e : ExhaustedIds) : String :=
  "no free message id left for " ++ Text.quoted e.text ++ " after reaching the maximum id length"

structure Output where
  filename : String
  code : String
  /-- Nothing when the code is the source. -/
  map : Option SourceMap := none
  messageCount : Nat := 0
  exempted : Nat := 0
deriving Repr

def Output.isChanged (o : Output) : Bool := o.map.isSome

/-- The message of a candidate in a file. -/
def messageOf (filename id : String) (c : Candidate) : Message where
  id := id
  text := c.text
  context := c.context
  parameters := c.params.map (·.name)
  locations := [⟨filename, c.line, c.col⟩]
  comments := c.comment.toList

/-- Gives a candidate its id and records its message. Its text stays in the pool even if no id is
left. -/
def record (filename : String) (idLength : Nat) (c : Candidate) (s : Store) :
    Except ExhaustedIds String × Store :=
  let s := s.intern c.text
  match s.assignId c.text c.context idLength with
  | none => (.error ⟨c.text⟩, s)
  | some (id, s) => (.ok id, s.add (messageOf filename id c))

/-- Records candidates up to the first one for which no id is left. -/
def recordAll (filename : String) (idLength : Nat) :
    List Candidate → Store → Except ExhaustedIds (List String) × Store
  | [], s => (.ok [], s)
  | c :: cs, s =>
    match record filename idLength c s with
    | (.error e, s) => (.error e, s)
    | (.ok id, s) =>
      match recordAll filename idLength cs s with
      | (.error e, s) => (.error e, s)
      | (.ok ids, s) => (.ok (id :: ids), s)

namespace Prepared

/-- The statement that imports the runtime. -/
def importLine (o : Options) : String :=
  "import " ++ o.runtimeId ++ " from " ++ stringLiteral o.runtimeModule ++ ";"

def importEdit (place : ImportPlace) (o : Options) : Edit :=
  match place with
  | .before place => ⟨place, place, importLine o ++ "\n"⟩
  | .after place => ⟨place, place, "\n" ++ importLine o⟩

/-- The edit that puts a call in the place of a text. -/
def callEdit (o : Options) (c : Candidate) (id : String) : Edit :=
  ⟨c.start, c.stop, callExpression id c.text c.params o⟩

def edits (p : Prepared) (o : Options) (ids : List String) : List Edit :=
  List.zipWith (callEdit o) p.candidates ids
    ++ (p.importAt.map fun place => importEdit place o).toList

def apply (p : Prepared) (source : String) (o : Options) (s : Store) :
    Except ExhaustedIds Output × Store :=
  if p.candidates = [] then
    (.ok { filename := p.filename, code := source, exempted := p.exempted }, s)
  else
    match recordAll p.filename o.idLength p.candidates s with
    | (.error e, s) => (.error e, s)
    | (.ok ids, s) =>
      let (code, map) := Splice.apply source (p.edits o ids) p.filename
      (.ok ⟨p.filename, code, some map, p.candidates.length, p.exempted⟩, s)

end Prepared

def transform (source filename : String) (o : Options) (s : Store) :
    Except ExhaustedIds Output × Store :=
  (prepare source filename o).apply source o s

end Phrasebook
