import Phrasebook.Message.Id
import Phrasebook.Text.Alphabet
import Phrasebook.Text.Quoted

/-!
# Options of a transformation
-/

namespace Phrasebook

/-- How a call hands over the values of parameters: by name or by position. -/
inductive ArgMode where
  | named
  | indexed
deriving DecidableEq, Repr

structure Options where
  argMode : ArgMode := .named
  /-- Whether calls carry the source text. -/
  setDefault : Bool := false
  /-- Whether calls are put between visible marks. -/
  debug : Bool := false
  /-- The number of digits of a new id. -/
  idLength : Nat := 10
  /-- The name under which the runtime is imported. -/
  runtimeId : String := "i18next"
  /-- The module from which it is imported. -/
  runtimeModule : String := "i18next"
deriving DecidableEq, Repr

inductive OptionsError where
  | idLength (length : Nat)
  | runtimeId (name : String)
deriving DecidableEq, Repr

namespace OptionsError

def message : OptionsError → String
  | idLength length =>
    "invalid transform options: hash length must be between " ++ toString minIdLength ++ " and "
      ++ toString maxIdLength ++ ", got " ++ toString length
  | runtimeId name =>
    "invalid transform options: runtime id " ++ Text.quoted name ++ " is not a valid identifier"

end OptionsError

/-- A letter, underscore or dollar sign, then such characters and digits. -/
def isIdentifier : List Char → Bool
  | [] => false
  | c :: cs =>
    (Text.isAlphabetic c || c == '_' || c == '$')
      && cs.all fun x => Text.isAlphanumeric x || x == '_' || x == '$'

def Options.validate (o : Options) : Except OptionsError Unit :=
  if o.idLength < minIdLength ∨ maxIdLength < o.idLength then .error (.idLength o.idLength)
  else if isIdentifier o.runtimeId.toList then .ok ()
  else .error (.runtimeId o.runtimeId)

end Phrasebook
