import Phrasebook.Proofs.Script.Marks
import Phrasebook.Proofs.Text.Utf16

/-!
# Chains of literals

The expressions with a known text are those that a grammar of two layers derives: operands, which
are single literals (`LiteralOperand`), and sums with an operand on the right (`LiteralChain`).
Their text is what every run of a script gives for them (`Machine.Evaluates`), whatever the script
does with other expressions.
-/

namespace Phrasebook.Script

open Text (Denotes HasLoneSurrogate utf16 unitsOf)

/-! ### The grammar -/

/-- A literal in any number of parentheses, with the text of the literal. A literal has none when a
surrogate stands alone in it. -/
inductive LiteralOperand : Node → Option String → Prop
  | string (value : Option String) (lo hi : Nat) (parts : List Node) :
      LiteralOperand (.mk (.string value) lo hi parts) value
  | template (value : Option String) (lo hi : Nat) :
      LiteralOperand (.mk (.template value) lo hi []) value
  | paren {e : Node} {value : Option String} (lo hi : Nat) (inner : LiteralOperand e value) :
      LiteralOperand (.mk .paren lo hi [e]) value

/-- A chain, with the texts of its literals from left to right. -/
inductive LiteralChain : Node → List (Option String) → Prop
  | operand {e : Node} {value : Option String} (single : LiteralOperand e value) :
      LiteralChain e [value]
  | sum {left right : Node} {values : List (Option String)} {value : Option String} (lo hi : Nat)
      (front : LiteralChain left values) (last : LiteralOperand right value) :
      LiteralChain (.mk (.binary true) lo hi [left, right]) (values ++ [value])
  | paren {e : Node} {values : List (Option String)} (lo hi : Nat) (inner : LiteralChain e values) :
      LiteralChain (.mk .paren lo hi [e]) values

/-- The two recursions agree on operands. -/
theorem LiteralOperand.literalText_and_foldText {e : Node} {value : Option String}
    (h : LiteralOperand e value) : literalText e = value ∧ foldText e = value := by
  induction h with
  | string => exact ⟨rfl, rfl⟩
  | template => exact ⟨rfl, rfl⟩
  | paren lo hi _ ih => exact ih

theorem literalOperand_of_literalText {e : Node} {text : String} (h : literalText e = some text) :
    LiteralOperand e (some text) := by
  fun_induction literalText e with
  | case1 value lo hi parts =>
    subst h
    exact .string (some text) lo hi parts
  | case2 value lo hi =>
    subst h
    exact .template (some text) lo hi
  | case3 lo hi e ih => exact .paren lo hi (ih h)
  | case4 => cases h

theorem LiteralChain.foldText {e : Node} {values : List (Option String)} (h : LiteralChain e values)
    {texts : List String} (htexts : values = texts.map some) :
    foldText e = some (String.join texts) := by
  induction h generalizing texts with
  | @operand e value single =>
    obtain ⟨text, rfl, rfl⟩ : ∃ text, texts = [text] ∧ value = some text := by
      obtain ⟨text, htext, hvalue⟩ := List.map_eq_singleton_iff.mp htexts.symm
      exact ⟨text, htext, hvalue.symm⟩
    rw [single.literalText_and_foldText.2, String.join_cons, String.join_nil, String.append_empty]
  | @sum left right values value lo hi front last ih =>
    obtain ⟨before, after, rfl, hbefore, hafter⟩ := List.map_eq_append_iff.mp htexts.symm
    obtain ⟨text, rfl, rfl⟩ := List.map_eq_singleton_iff.mp hafter
    have hleft := ih hbefore.symm
    have hright := last.literalText_and_foldText.1
    show (do let a ← Script.foldText left; let b ← literalText right; return a ++ b) = _
    rw [hleft, hright, String.join_append, String.join_cons, String.join_nil, String.append_empty]
    rfl
  | paren lo hi _ ih => exact ih htexts

theorem literalChain_of_foldText {e : Node} {text : String} (h : foldText e = some text) :
    ∃ texts, LiteralChain e (texts.map some) ∧ text = String.join texts := by
  fun_induction foldText e generalizing text with
  | case1 lo hi e ih =>
    obtain ⟨texts, hchain, rfl⟩ := ih h
    exact ⟨texts, .paren lo hi hchain, rfl⟩
  | case2 lo hi left right ih =>
    simp only [Option.bind_eq_bind, Option.bind_eq_some_iff] at h
    obtain ⟨a, hleft, b, hright, htext⟩ := h
    obtain ⟨texts, hchain, rfl⟩ := ih hleft
    refine ⟨texts ++ [b], ?_, ?_⟩
    · rw [List.map_append]
      exact .sum lo hi hchain (literalOperand_of_literalText hright)
    · obtain rfl := Option.some.inj htext
      simp
  | case3 e =>
    exact ⟨[text], .operand (literalOperand_of_literalText h), by simp⟩

/-! ### What a script computes -/

/-- What an expression gives: a string of 16-bit units, or something else. -/
inductive Value (Other : Type) where
  | string (units : List Nat)
  | other (value : Other)

/-- What strings and their sums leave open: how an expression of another form runs, and what a sum
gives that is not of two strings. -/
structure Machine where
  State : Type
  Other : Type
  runs : State → Node → Value Other → State → Prop
  adds : State → Value Other → Value Other → Value Other → State → Prop

namespace Machine

/-- A node of one of the forms that `Evaluates` has a rule for. -/
def hasRule : Node → Bool
  | .mk (.string _) _ _ _ => true
  | .mk (.template _) _ _ [] => true
  | .mk .paren _ _ [_] => true
  | .mk (.binary true) _ _ [_, _] => true
  | _ => false

/-- In a state an expression gives a value and leads to a state. A sum runs its left side first and
joins two strings. -/
inductive Evaluates (m : Machine) : m.State → Node → Value m.Other → m.State → Prop
  | string {value : Option String} {units : List Nat} (s : m.State) (lo hi : Nat)
      (parts : List Node) (units_eq : Denotes (value.map String.toList) units) :
      Evaluates m s (.mk (.string value) lo hi parts) (.string units) s
  | template {value : Option String} {units : List Nat} (s : m.State) (lo hi : Nat)
      (units_eq : Denotes (value.map String.toList) units) :
      Evaluates m s (.mk (.template value) lo hi []) (.string units) s
  | paren {s s' : m.State} {e : Node} {v : Value m.Other} (lo hi : Nat)
      (inner : Evaluates m s e v s') : Evaluates m s (.mk .paren lo hi [e]) v s'
  | join {s s' s'' : m.State} {left right : Node} {us vs : List Nat} (lo hi : Nat)
      (first : Evaluates m s left (.string us) s')
      (second : Evaluates m s' right (.string vs) s'') :
      Evaluates m s (.mk (.binary true) lo hi [left, right]) (.string (us ++ vs)) s''
  | add {s s' s'' t : m.State} {left right : Node} {a b v : Value m.Other} (lo hi : Nat)
      (first : Evaluates m s left a s') (second : Evaluates m s' right b s'')
      (no_join : ∀ us vs, ¬ (a = .string us ∧ b = .string vs)) (sum : m.adds s'' a b v t) :
      Evaluates m s (.mk (.binary true) lo hi [left, right]) v t
  | other {s s' : m.State} {e : Node} {v : Value m.Other} (no_rule : hasRule e = false)
      (run : m.runs s e v s') : Evaluates m s e v s'

variable {m : Machine}

theorem evaluates_paren_iff {e : Node} {lo hi : Nat} {s s' : m.State} {v : Value m.Other} :
    m.Evaluates s (.mk .paren lo hi [e]) v s' ↔ m.Evaluates s e v s' := by
  constructor
  · intro h
    cases h with
    | paren _ _ hinner => exact hinner
    | other hrule _ => cases hrule
  · exact .paren lo hi

theorem evaluates_literalText {e : Node} {text : String} (htext : literalText e = some text)
    {s s' : m.State} {v : Value m.Other} :
    m.Evaluates s e v s' ↔ v = .string (utf16 text.toList) ∧ s' = s := by
  fun_induction literalText e with
  | case1 value lo hi parts =>
    subst htext
    constructor
    · intro h
      cases h with
      | string _ _ _ _ hunits => exact ⟨congrArg Value.string hunits, rfl⟩
      | other hrule _ => cases hrule
    · rintro ⟨rfl, rfl⟩
      exact .string s' lo hi parts rfl
  | case2 value lo hi =>
    subst htext
    constructor
    · intro h
      cases h with
      | template _ _ _ hunits => exact ⟨congrArg Value.string hunits, rfl⟩
      | other hrule _ => cases hrule
    · rintro ⟨rfl, rfl⟩
      exact .template s' lo hi rfl
  | case3 lo hi e ih => rw [evaluates_paren_iff, ih htext]
  | case4 => cases htext

/-- The only thing that a script can do with an expression of known text is to give this text. -/
theorem evaluates_foldText {e : Node} {text : String} (htext : foldText e = some text)
    {s s' : m.State} {v : Value m.Other} :
    m.Evaluates s e v s' ↔ v = .string (utf16 text.toList) ∧ s' = s := by
  fun_induction foldText e generalizing text s s' v with
  | case1 lo hi e ih => rw [evaluates_paren_iff, ih htext]
  | case2 lo hi left right ih =>
    simp only [Option.bind_eq_bind, Option.bind_eq_some_iff] at htext
    obtain ⟨a, hleft, b, hright, hsum⟩ := htext
    obtain rfl : a ++ b = text := Option.some.inj hsum
    rw [String.toList_append, Text.utf16_append]
    constructor
    · intro h
      cases h with
      | join _ _ hfirst hsecond =>
        obtain ⟨hus, rfl⟩ := (ih hleft).mp hfirst
        obtain ⟨hvs, rfl⟩ := (evaluates_literalText hright).mp hsecond
        obtain rfl := Value.string.inj hus
        obtain rfl := Value.string.inj hvs
        exact ⟨rfl, rfl⟩
      | add _ _ hfirst hsecond hnojoin _ =>
        -- both sides are strings, so the rule that leaves the sum open does not apply
        obtain ⟨rfl, rfl⟩ := (ih hleft).mp hfirst
        obtain ⟨rfl, rfl⟩ := (evaluates_literalText hright).mp hsecond
        exact absurd ⟨rfl, rfl⟩ (hnojoin _ _)
      | other hrule _ => cases hrule
    · rintro ⟨rfl, rfl⟩
      have hfirst : m.Evaluates s' left (.string (utf16 a.toList)) s' := (ih hleft).mpr ⟨rfl, rfl⟩
      have hsecond : m.Evaluates s' right (.string (utf16 b.toList)) s' :=
        (evaluates_literalText hright).mpr ⟨rfl, rfl⟩
      exact .join lo hi hfirst hsecond
  | case3 e => exact evaluates_literalText htext

end Machine

theorem denotes_textOfUnits {units : List Nat} (hunits : ∀ u ∈ units, u < 0x110000) :
    Denotes ((textOfUnits units).map String.toList) (units.flatMap unitsOf) := by
  have htext : (textOfUnits units).map String.toList = Text.ofUnits units := by
    have hinverse : String.toList ∘ String.ofList = id := funext fun cs => String.toList_ofList
    rw [textOfUnits, Option.map_map, hinverse, Option.map_id_fun, id_eq]
  rw [htext]
  exact Text.denotes_ofUnits hunits

/-- An expression has a text exactly when it is a chain whose literals all have one, and its text is
theirs joined from left to right. Running it gives this text in every script and does nothing else.
A literal has no text exactly when a surrogate stands alone in it. -/
theorem foldText_eq_some_iff (e : Node) (text : String) :
    (foldText e = some text ↔
      ∃ texts, LiteralChain e (texts.map some) ∧ text = String.join texts) ∧
    (foldText e = some text → ∀ (m : Machine) (s : m.State) (v : Value m.Other) (s' : m.State),
      m.Evaluates s e v s' ↔ v = .string (utf16 text.toList) ∧ s' = s) ∧
    ∀ units, (∀ u ∈ units, u < 0x110000) →
      (textOfUnits units = none ↔ HasLoneSurrogate (units.flatMap unitsOf)) ∧
      ∀ known, textOfUnits units = some known → units.flatMap unitsOf = utf16 known.toList := by
  have hchain : foldText e = some text ↔
      ∃ texts, LiteralChain e (texts.map some) ∧ text = String.join texts := by
    refine ⟨literalChain_of_foldText, ?_⟩
    rintro ⟨texts, h, rfl⟩
    exact h.foldText rfl
  refine ⟨hchain, fun h m s v s' => Machine.evaluates_foldText h, fun units hunits => ?_⟩
  have hdenotes := denotes_textOfUnits hunits
  refine ⟨?_, fun known hknown => ?_⟩
  · rw [← hdenotes.eq_none_iff, Option.map_eq_none_iff]
  · rw [hknown] at hdenotes
    exact hdenotes

/-- The tree of `("Hi " + ('w')) + "😀"`, with a template in the inner parentheses. -/
def greeting : Node :=
  .mk (.binary true) 0 24 [
    .mk .paren 0 15 [.mk (.binary true) 1 14 [
      .mk (.string (some "Hi ")) 1 6 [], .mk .paren 9 14 [.mk (.template (some "w")) 10 13 []]]],
    .mk (.string (some "😀")) 18 24 []]

theorem foldText_eq_some_iff_greeting :
    foldText greeting = some "Hi w😀" ∧
    ∀ (m : Machine) (s : m.State),
      m.Evaluates s greeting (.string [0x48, 0x69, 0x20, 0x77, 0xd83d, 0xde00]) s := by
  have htexts : LiteralChain greeting (["Hi ", "w", "😀"].map some) :=
    .sum 0 24
      (.paren 0 15 (.sum 1 14 (.operand (.string _ 1 6 [])) (.paren 9 14 (.template _ 10 13))))
      (.string _ 18 24 [])
  have htext : foldText greeting = some "Hi w😀" :=
    (foldText_eq_some_iff greeting "Hi w😀").1.mpr ⟨_, htexts, rfl⟩
  refine ⟨htext, fun m s => ?_⟩
  exact ((foldText_eq_some_iff greeting "Hi w😀").2.1 htext m s _ s).mpr ⟨rfl, rfl⟩

-- Of a sum on the right no text is known, although each of its literals has one.
example (lo hi : Nat) :
    foldText (.mk (.binary true) lo hi [.mk (.string (some "a")) lo hi [],
      .mk .paren lo hi [.mk (.binary true) lo hi
        [.mk (.string (some "b")) lo hi [], .mk (.string (some "c")) lo hi []]]]) = none := rfl

end Phrasebook.Script
