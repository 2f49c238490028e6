import Phrasebook.Proofs.Script.Grammar.Begin
import Phrasebook.Proofs.Script.Grammar.Item
import Phrasebook.Proofs.Script.Grammar.Start
import Phrasebook.Script.Grammar

/-!
# The grammar accounts for what it reads

The rules are sound at every depth, since those that they call are at the depth below.
-/

namespace Phrasebook.Script

open Grammar

variable {text : List Char}

theorem noText_block {r : Rules} : Yields (block r) (foldText · = none) :=
  .bind fun _ => .bind fun _ => .bind fun _ => .bind fun _ => others_node noText rfl _ _

theorem form_element {r : Rules} : Yields (element r) (·.form = .element) := by
  refine .bind fun lo => .bind fun _ => ?_
  extract_lets close
  have hclose (parts : List Node) : Yields (close parts) (·.form = .element) :=
    .bind fun _ => .pure rfl
  refine .bind fun _ => .ite (.bind fun _ => hclose _) <| .bind fun _ => .bind fun _ =>
    .bind fun _ => .bind fun _ => .ite ?_ (.bind fun _ => hclose _)
  exact .bind fun _ => .skipUnless (hclose _)

theorem sound_rules (n : Nat) : (rules n).Sound text := by
  induction n with
  | zero =>
    -- without depth every rule fails at once
    have hstop : Reads text (Parser.unexpected) := .unexpected
    exact {
      expression := hstop, assignment := hstop, unary := hstop, binary := hstop
      finishAssignment _ _ := .unexpected, operators _ _ := .unexpected
      construction := hstop, leftHandSide := hstop, type := hstop, pattern := hstop
      isPlain_pattern := .unexpected
      statement _ := hstop, block := hstop, item := hstop, element := hstop
      written_expression _ := .unexpected, written_assignment _ := .unexpected
      written_unary _ := .unexpected, written_binary _ := .unexpected
      written_finishAssignment _ _ _ := .unexpected, written_operators _ _ _ := .unexpected
      written_construction _ := .unexpected, written_leftHandSide _ := .unexpected
      begins_assignment _ := .unexpected, begins_unary _ := .unexpected
      begins_construction _ := .unexpected, begins_leftHandSide _ := .unexpected
      foldText_block := .unexpected, form_element := .unexpected }
  | succ n ih =>
    exact {
      expression := reads_expression ih, assignment := reads_assignment ih
      unary := reads_unary ih, binary := reads_binary ih
      finishAssignment := gives_finishAssignment ih, operators := gives_operators ih
      construction := reads_construction ih, leftHandSide := reads_leftHandSide ih
      type := reads_type ih, pattern := reads_pattern ih, isPlain_pattern := isPlain_pattern
      statement := reads_statement ih, block := reads_block ih, item := reads_moduleItem ih
      element := reads_element ih
      written_expression := written_expression ih, written_assignment := written_assignment ih
      written_unary := written_unary ih, written_binary := written_binary ih
      written_finishAssignment := written_finishAssignment ih
      written_operators := written_operators ih
      written_construction := written_construction ih
      written_leftHandSide := written_leftHandSide ih
      begins_assignment := begins_assignment ih, begins_unary := begins_unary ih
      begins_construction := begins_construction, begins_leftHandSide := begins_leftHandSide ih
      foldText_block := noText_block, form_element := form_element }

theorem spansFrom_rules (n lo : Nat) : SpansFrom lo (rules n).block ∧
    ∀ isDeclaration, SpansFrom lo ((rules n).statement isDeclaration) := by
  induction n with
  | zero => exact ⟨.unexpected, fun _ => .unexpected⟩
  | succ n ih => exact ⟨spansFrom_braced _, spansFrom_statement ih.1⟩

end Phrasebook.Script
