import Phrasebook.Config

/-!
# Overriding a configuration

What is asked for on the spot takes the place of what a configuration says. A switch can be turned
on in this way but not off.
-/

namespace Phrasebook

structure Overrides where
  outDir : Option String := none
  /-- Where the dictionary is written. -/
  dictionary : Option String := none
  /-- Where the template for translators is written. -/
  template : Option String := none
  argMode : Option ArgMode := none
  setDefault : Bool := false
  debug : Bool := false
  idLength : Option Nat := none
deriving DecidableEq, Repr

def Config.override (c : Config) (o : Overrides) : Config :=
  { c with
    outDir := o.outDir <|> c.outDir
    dictionary.output := o.dictionary.getD c.dictionary.output
    template := o.template <|> c.template
    options.argMode := o.argMode.getD c.options.argMode
    options.setDefault := c.options.setDefault || o.setDefault
    options.debug := c.options.debug || o.debug
    options.idLength := o.idLength.getD c.options.idLength }

end Phrasebook
