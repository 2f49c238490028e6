import Phrasebook.Config
import Phrasebook.Proofs.Script.ImportedCall
import Phrasebook.Proofs.StringLiteral
import Phrasebook.Proofs.Text.Alphabet
import Phrasebook.Transform

/-!
# The name of the runtime

The name under which the runtime is imported is checked when options are validated. What the check
lets through is a name that can be bound unless it is a reserved word, has a stray character or
begins with a mark. Names that can be bound are imported and called as intended, and with a keyword
no import can be parsed (`runtimeId_of_isAccepted`).
-/

namespace Phrasebook

open Script (IsVariable IsWord Kind defaultImport? importFrom importOf importedCall textCall?)
open Text (isAlphabetic isAlphanumeric isIdentifierPart isIdentifierStart isMark isStray)

/-- The words that no name in a module may be, and the two names that may not be bound there. -/
def reservedWords : List String := [
  "await", "break", "case", "catch", "class", "const", "continue", "debugger", "default", "delete",
  "do", "else", "enum", "export", "extends", "false", "finally", "for", "function", "if", "import",
  "in", "instanceof", "new", "null", "return", "super", "switch", "this", "throw", "true", "try",
  "typeof", "var", "void", "while", "with", "yield",
  "let", "static", "implements", "interface", "package", "private", "protected", "public",
  "eval", "arguments"]

/-- An identifier of a script that an import may bind. -/
def IsBindable (name : String) : Prop := IsWord name.toList ∧ name ∉ reservedWords

instance (name : String) : Decidable (IsBindable name) := inferInstanceAs (Decidable (_ ∧ _))

/-- The options are valid on their own or as a part of a valid configuration. -/
def Options.IsAccepted (o : Options) : Prop :=
  o.validate = .ok () ∨ ∃ c : Config, c.validate = .ok () ∧ c.options = o

/-- The import of the runtime and a call of it with a text. -/
def runtimeLines (o : Options) (text : String) : String :=
  Prepared.importLine o ++ "\n" ++ o.runtimeId ++ ".t(" ++ stringLiteral text ++ ");"

/-! ### What is accepted -/

theorem Options.IsAccepted.validate {o : Options} (h : o.IsAccepted) : o.validate = .ok () := by
  rcases h with h | ⟨c, hc, rfl⟩
  · exact h
  · simp only [Config.validate, bind, Except.bind] at hc
    split at hc
    · cases hc
    split at hc
    · cases hc
    split at hc
    · cases hc
    cases hvalid : c.options.validate with
    | ok => rfl
    | error e =>
      rw [hvalid] at hc
      cases hc

theorem Options.IsAccepted.isIdentifier {o : Options} (h : o.IsAccepted) :
    isIdentifier o.runtimeId.toList = true := by
  have hvalid := h.validate
  unfold Options.validate at hvalid
  split at hvalid
  · cases hvalid
  · split at hvalid
    · assumption
    · cases hvalid

/-! ### Characters of names -/

section

variable {c : Char} {cs : List Char}

/-- The characters that are allowed besides letters and digits. -/
def isNameSign (c : Char) : Bool := c == '_' || c == '$'

theorem isIdentifierStart_of_isNameSign (h : isNameSign c = true) :
    isIdentifierStart c = true ∧ isIdentifierPart c = true ∧ isStray c = false ∧
      isMark c = false := by
  rcases Bool.or_eq_true_iff.mp h with h | h <;> obtain rfl := eq_of_beq h <;>
    exact ⟨by decide, by decide, Text.not_isStray_of_isAscii (by decide)⟩

theorem isIdentifierStart_eq_of_first (h : (isAlphabetic c || c == '_' || c == '$') = true) :
    isIdentifierStart c = !(isStray c || isMark c) := by
  rw [Bool.or_assoc] at h
  rcases Bool.or_eq_true_iff.mp h with h | h
  · exact Text.isIdentifierStart_eq h
  · obtain ⟨hstart, -, hstray, hmark⟩ := isIdentifierStart_of_isNameSign h
    rw [hstart, hstray, hmark]
    rfl

theorem isIdentifierPart_eq_of_other (h : (isAlphanumeric c || c == '_' || c == '$') = true) :
    isIdentifierPart c = !isStray c := by
  rw [Bool.or_assoc] at h
  rcases Bool.or_eq_true_iff.mp h with h | h
  · exact Text.isIdentifierPart_eq h
  · obtain ⟨-, hpart, hstray, -⟩ := isIdentifierStart_of_isNameSign h
    rw [hpart, hstray]
    rfl

theorem isWord_iff_of_isIdentifier (h : isIdentifier cs = true) :
    IsWord cs ↔ (∀ c ∈ cs, isStray c = false) ∧ ∀ c ∈ cs.head?, isMark c = false := by
  cases cs with
  | nil => cases h
  | cons c cs =>
    obtain ⟨hfirst, hothers⟩ := Bool.and_eq_true_iff.mp h
    have hothers : ∀ x ∈ cs, isIdentifierPart x = !isStray x := fun x hx =>
      isIdentifierPart_eq_of_other (List.all_eq_true.mp hothers x hx)
    have hcs : (∀ x ∈ cs, isIdentifierPart x = true) ↔ ∀ x ∈ cs, isStray x = false :=
      forall₂_congr fun x hx => by rw [hothers x hx, Bool.not_eq_true']
    rw [IsWord, isIdentifierStart_eq_of_first hfirst, hcs, List.forall_mem_cons]
    simp [and_comm, and_assoc]

end

/-! ### Reserved words -/

/-- Every word that is read as a keyword is reserved. -/
theorem isVariable_of_isBindable {name : String} (h : IsBindable name) :
    IsVariable name.toList := by
  have htable : ∀ e ∈ Kind.keywords ++ Kind.contextualWords, e.1 ∉ reservedWords →
      e.2.isReference = true ∧ e.2 ≠ .kwAwait := by decide
  refine ⟨h.1, ?_⟩
  rw [String.ofList_toList]
  rcases Script.ofWord_eq_name_or_mem name with hname | hmem
  · rw [hname]
    decide
  · exact htable _ hmem h.2

/-- Outside asynchronous functions `await` is read as a name; all other keywords are none. -/
theorem not_isReference_of_keyword {name : String} (h : name ∈ Kind.keywords.map Prod.fst)
    (hawait : name ≠ "await") :
    IsWord name.toList ∧ (Kind.ofWord name).isReference = false := by
  have htable : ∀ word ∈ Kind.keywords.map Prod.fst, word ≠ "await" →
      IsWord word.toList ∧ (Kind.ofWord word).isReference = false := by decide +kernel
  exact htable name h hawait

/-! ### Imports and calls -/

theorem toList_importLine (o : Options) (rest : List Char) :
    (Prepared.importLine o).toList ++ rest =
      importFrom o.runtimeId.toList (stringLiteral o.runtimeModule).toList rest := by
  simp [Prepared.importLine, importFrom, importOf, String.toList_append]

theorem toList_runtimeLines (o : Options) (text : String) :
    (runtimeLines o text).toList =
      importedCall o.runtimeId.toList (stringLiteral o.runtimeModule).toList
        (stringLiteral text).toList := by
  rw [importedCall, ← toList_importLine]
  simp [runtimeLines, String.toList_append]

/-- What is known of the name of the runtime when options are valid. It can be bound if and only if
it is no reserved word, has no stray character and does not begin with a mark. Then the import of
the runtime and a call of it with any text are parsed as what they are; with a keyword no text that
begins with the import is parsed. -/
theorem runtimeId_of_isAccepted {o : Options} (h : o.IsAccepted) :
    (IsBindable o.runtimeId ↔ o.runtimeId ∉ reservedWords ∧
      (∀ c ∈ o.runtimeId.toList, isStray c = false) ∧
      ∀ c ∈ o.runtimeId.toList.head?, isMark c = false) ∧
    (IsBindable o.runtimeId → ∀ jsx text, ∃ importNode callNode comments,
      Script.parse jsx (runtimeLines o text).toList =
        .ok ⟨(runtimeLines o text).toList, [importNode, callNode], comments⟩ ∧
      defaultImport? importNode = some o.runtimeId ∧
      textCall? callNode = some (o.runtimeId, "t", text)) ∧
    (o.runtimeId ∈ Kind.keywords.map Prod.fst → o.runtimeId ≠ "await" → ∀ jsx rest, ∃ failure,
      Script.parse jsx ((Prepared.importLine o).toList ++ rest) = .error failure) := by
  refine ⟨?_, fun hbindable jsx text => ?_, fun hkeyword hawait jsx rest => ?_⟩
  · rw [IsBindable, isWord_iff_of_isIdentifier h.isIdentifier]
    exact and_comm
  · obtain ⟨a, b, comments, hparse, himport, hcall⟩ := Script.exists_parse_importedCall jsx
      (isVariable_of_isBindable hbindable) (literalText_stringLiteral o.runtimeModule)
      (literalText_stringLiteral text)
    rw [String.ofList_toList] at himport hcall
    rw [toList_runtimeLines]
    exact ⟨a, b, comments, hparse, himport, hcall⟩
  · obtain ⟨hword, hno⟩ := not_isReference_of_keyword hkeyword hawait
    rw [toList_importLine]
    exact Script.exists_parse_eq_error jsx hword (by rwa [String.ofList_toList]) _

/-- The name of the runtime when nothing is set. -/
theorem runtimeId_of_isAccepted_default : IsBindable "i18next" ∧
    ∃ importNode callNode comments,
      Script.parse false (runtimeLines {} "Hi").toList =
        .ok ⟨(runtimeLines {} "Hi").toList, [importNode, callNode], comments⟩ ∧
      defaultImport? importNode = some "i18next" ∧
      textCall? callNode = some ("i18next", "t", "Hi") := by
  obtain ⟨hiff, hlines, -⟩ := @runtimeId_of_isAccepted {} (.inl (by decide +kernel))
  have hall : "i18next".toList.all Text.isAscii = true := by decide +kernel
  have hascii := List.all_eq_true.mp hall
  have hbindable : IsBindable "i18next" :=
    hiff.mpr ⟨by decide +kernel, fun c hc => (Text.not_isStray_of_isAscii (hascii c hc)).1,
      fun c hc => (Text.not_isStray_of_isAscii (hascii c (List.mem_of_mem_head? hc))).2⟩
  exact ⟨hbindable, hlines hbindable false "Hi"⟩

/-- A reserved word is accepted, and its import cannot be parsed; so is a name with a number in it
that is no digit. -/
theorem isAccepted_class : ({ runtimeId := "class" } : Options).validate = .ok () ∧
    ({ options := { runtimeId := "class" } } : Config).validate = .ok () ∧
    ¬ IsBindable "class" ∧
    (Script.parse false
      (Prepared.importLine { runtimeId := "class" }).toList).toOption.isNone = true ∧
    ({ runtimeId := "x²" } : Options).validate = .ok () ∧ ¬ IsBindable "x²" := by
  decide +kernel

end Phrasebook
