import Phrasebook.Proofs.Doc.Braces
import Phrasebook.Proofs.Doc.Layout
import Phrasebook.Proofs.Doc.Marks

/-!
# How the body of a parameter tag is read

The body of a parameter tag is a type in braces, or none, a name in one of three forms, and a
description or none. `WritesType`, `WritesName` and `WritesDescription` are these forms. Behind a
type the rest of the body is read as if there were none (`parse_eq`). So each combination of the
forms is read as what it writes (`parse_forms`), and a name is read exactly if the body is for it
(`exists_parse_iff`).
-/

namespace Phrasebook.ParamDoc

open Text (isBlank trim trimEnd trimStart)

/-! ### Names -/

/-- Names that can be read: words with dollar signs that begin with a letter of the alphabet, an
underscore or a dollar sign. -/
def IsPlain (name : List Char) : Prop :=
  ∃ c cs, name = c :: cs ∧ isNameStart c = true ∧ ∀ x ∈ cs, isNameChar x = true

instance : (name : List Char) → Decidable (IsPlain name)
  | [] => .isFalse nofun
  | c :: cs => decidable_of_iff (isNameStart c = true ∧ cs.all isNameChar = true)
    ⟨fun h => ⟨c, cs, rfl, h.1, List.all_eq_true.mp h.2⟩,
      by rintro ⟨_, _, ⟨⟩, hc, hcs⟩; exact ⟨hc, List.all_eq_true.mpr hcs⟩⟩

theorem isAscii_of_isAsciiLetter {c : Char} (h : Text.isAsciiLetter c = true) :
    Text.isAscii c = true := by
  simp only [Text.isAsciiLetter, Bool.or_eq_true, Bool.and_eq_true, decide_eq_true_eq,
    Char.le_def, UInt32.le_iff_toNat_le] at h
  have hz : 'z'.val.toNat = 122 := rfl
  have hZ : 'Z'.val.toNat = 90 := rfl
  rw [Text.isAscii, decide_eq_true_eq, Char.toNat]
  omega

theorem isNameChar_of_isNameStart {c : Char} (h : isNameStart c = true) : isNameChar c = true := by
  simp only [isNameStart, Bool.or_eq_true, beq_iff_eq] at h
  rcases h with (hletter | rfl) | rfl
  · rw [isNameChar, Text.isWordChar, if_pos (isAscii_of_isAsciiLetter hletter), hletter]
    rfl
  · decide
  · decide

theorem isBlank_of_isNameChar {c : Char} (h : isNameChar c = true) : isBlank c = false := by
  by_contra hblank
  rw [Bool.not_eq_false] at hblank
  rw [isNameChar, Text.isWordChar_of_isBlank hblank, Bool.false_or, beq_iff_eq] at h
  rw [h] at hblank
  exact absurd hblank (by decide)

/-- Identifiers of the alphabet can be read. -/
theorem isPlain_of_isAscii {c : Char} {cs : List Char}
    (hascii : ∀ x ∈ c :: cs, Text.isAscii x = true) (hc : Text.isIdentifierStart c = true)
    (hcs : ∀ x ∈ cs, Text.isIdentifierPart x = true) : IsPlain (c :: cs) := by
  obtain ⟨hasciiC, hasciiCs⟩ := List.forall_mem_cons.mp hascii
  rw [Text.isIdentifierStart, if_pos hasciiC] at hc
  refine ⟨c, cs, rfl, hc, fun x hx => ?_⟩
  have hpart := hcs x hx
  rw [Text.isIdentifierPart, if_pos (hasciiCs x hx)] at hpart
  rw [isNameChar, Text.isWordChar, if_pos (hasciiCs x hx)]
  exact hpart

theorem IsPlain.isNameChar {name : List Char} (h : IsPlain name) :
    ∀ x ∈ name, isNameChar x = true := by
  obtain ⟨c, cs, rfl, hc, hcs⟩ := h
  exact List.forall_mem_cons.mpr ⟨isNameChar_of_isNameStart hc, hcs⟩

/-- The name begins the text and does not go on. -/
def BeginsWith (name cs : List Char) : Prop :=
  ∃ rest, cs = name ++ rest ∧ ∀ x ∈ rest.head?, isNameChar x = false

section Name

variable {name cs rest : List Char}

theorem bareName?_eq_some_iff : bareName? cs = some name ↔ IsPlain name ∧ BeginsWith name cs := by
  constructor
  · intro h
    cases cs with
    | nil => cases h
    | cons c cs =>
      rw [bareName?] at h
      split at h
      · rename_i hc
        obtain rfl := Option.some.inj h
        refine ⟨⟨c, _, rfl, hc, fun x hx => List.mem_takeWhile_imp hx⟩, cs.dropWhile isNameChar, ?_,
          fun x hx => ?_⟩
        · rw [List.cons_append, List.takeWhile_append_dropWhile]
        · -- the name stops where a character is none of a name
          have hstop := List.head?_dropWhile_not isNameChar cs
          rw [Option.mem_def.mp hx] at hstop
          simpa using hstop
      · cases h
  · rintro ⟨⟨c, cs, rfl, hc, hcs⟩, rest, rfl, hrest⟩
    have htake : (cs ++ rest).takeWhile isNameChar = cs := by
      rw [List.takeWhile_append_of_pos hcs]
      cases rest with
      | nil => exact List.append_nil cs
      | cons x rest =>
        rw [List.takeWhile_cons_of_neg (by simpa using hrest x rfl), List.append_nil]
    rw [List.cons_append, bareName?, if_pos hc, htake]

theorem nameOf?_eq_some_iff : nameOf? cs = some name ↔
    IsPlain name ∧ (BeginsWith name cs ∨ ∃ rest, cs = '[' :: rest ∧ BeginsWith name rest) := by
  unfold nameOf?
  split
  · rename_i rest
    rw [bareName?_eq_some_iff]
    refine and_congr_right fun hplain => ⟨fun h => .inr ⟨rest, rfl, h⟩, ?_⟩
    rintro (⟨after, heq, -⟩ | ⟨rest', heq, h⟩)
    · -- no name begins with a bracket
      obtain ⟨c, cs, rfl, hc, -⟩ := hplain
      obtain ⟨rfl, -⟩ := List.cons.inj heq
      exact absurd hc (by decide)
    · rwa [(List.cons.inj heq).2]
  · rename_i hno
    rw [bareName?_eq_some_iff]
    refine and_congr_right fun _ => ⟨.inl, ?_⟩
    rintro (h | ⟨rest, rfl, -⟩)
    · exact h
    · exact absurd rfl (hno rest)

end Name

/-! ### Types -/

/-- A type in braces and blanks, or no type. -/
inductive WritesType : List Char → Option String → Prop
  | absent : WritesType [] none
  | braces {type blanks : List Char} (h : Balanced type)
    (hblanks : ∀ c ∈ blanks, isBlank c = true) :
    WritesType ('\x7b' :: (type ++ '\x7d' :: blanks)) (nonempty (trim type))

/-- Behind its type a body is read as if it had none. -/
theorem parse_eq {body written rest : List Char} {type : Option String}
    (hbody : trim body = written ++ rest) (h : WritesType written type)
    (hrest : ∀ c ∈ rest.head?, isBlank c = false ∧ c ≠ '\x7b') :
    parse body = ofRest? type rest := by
  cases h with
  | absent =>
    rw [List.nil_append] at hbody
    rw [parse, hbody]
    split
    · exact absurd rfl (hrest '\x7b' rfl).2
    · rfl
  | @braces type blanks hbalanced hblanks =>
    have hstart : trimStart (blanks ++ rest) = rest := by
      rw [trimStart, List.dropWhile_append_of_pos hblanks]
      cases rest with
      | nil => rfl
      | cons c cs => exact Text.trimStart_cons (hrest c rfl).1 cs
    have hclose := closingBrace_balanced hbalanced (blanks ++ rest)
    rw [parse, hbody]
    simp only [List.cons_append, List.append_assoc, hclose, Option.bind_some, hstart]

/-- A body that is read has a type, or none, and a name behind it. -/
theorem exists_of_parse {body : List Char} {d : ParamDoc} (h : parse body = some d) :
    ∃ written rest, trim body = written ++ rest ∧ WritesType written d.type ∧
      nameOf? rest = some d.name.toList := by
  have hrest {type : Option String} {cs : List Char} (h : ofRest? type cs = some d) :
      d.type = type ∧ nameOf? cs = some d.name.toList := by
    obtain ⟨name, hname, rfl⟩ := Option.map_eq_some_iff.mp h
    exact ⟨rfl, by rw [hname, String.toList_ofList]⟩
  unfold parse at h
  split at h
  · rename_i rest htrim
    obtain ⟨⟨type, after⟩, hclose, hafter⟩ := Option.bind_eq_some_iff.mp h
    obtain ⟨rfl, hcount, hopen⟩ := closingBrace_eq_some_iff.mp hclose
    obtain ⟨htype, hname⟩ := hrest hafter
    refine ⟨'\x7b' :: (type ++ '\x7d' :: after.takeWhile isBlank), trimStart after, ?_, ?_, hname⟩
    · rw [htrim, trimStart]
      simp [List.takeWhile_append_dropWhile]
    · rw [htype]
      exact .braces ⟨hcount, hopen⟩ fun c hc => List.mem_takeWhile_imp hc
  · obtain ⟨htype, hname⟩ := hrest h
    exact ⟨[], trim body, rfl, htype ▸ .absent, hname⟩

/-! ### The name of a body -/

/-- The body is for a name: behind its type the name stands, with or without an open bracket in
front of it, and does not go on. -/
def IsFor (name body : List Char) : Prop :=
  ∃ written type rest, trim body = written ++ rest ∧ WritesType written type ∧
    (BeginsWith name rest ∨ ∃ rest', rest = '[' :: rest' ∧ BeginsWith name rest')

theorem head?_of_beginsWith {name cs : List Char} (h : IsPlain name)
    (hcs : BeginsWith name cs ∨ ∃ rest, cs = '[' :: rest ∧ BeginsWith name rest) :
    ∀ c ∈ cs.head?, isBlank c = false ∧ c ≠ '\x7b' := by
  rcases hcs with ⟨rest, rfl, -⟩ | ⟨rest, rfl, -⟩
  · obtain ⟨c, cs, rfl, hc, -⟩ := h
    rintro _ ⟨⟩
    refine ⟨isBlank_of_isNameChar (isNameChar_of_isNameStart hc), ?_⟩
    rintro rfl
    exact absurd hc (by decide)
  · rintro _ ⟨⟩
    decide

/-- A name is read exactly if it can be and the body is for it. -/
theorem exists_parse_iff {name body : List Char} :
    (∃ d, parse body = some d ∧ d.name = String.ofList name) ↔ IsPlain name ∧ IsFor name body := by
  constructor
  · rintro ⟨d, hd, hname⟩
    obtain ⟨written, rest, hbody, htype, hrest⟩ := exists_of_parse hd
    rw [hname, String.toList_ofList] at hrest
    obtain ⟨hplain, hbegins⟩ := nameOf?_eq_some_iff.mp hrest
    exact ⟨hplain, written, d.type, rest, hbody, htype, hbegins⟩
  · rintro ⟨hplain, written, type, rest, hbody, htype, hbegins⟩
    have hname := nameOf?_eq_some_iff.mpr ⟨hplain, hbegins⟩
    rw [parse_eq hbody htype (head?_of_beginsWith hplain hbegins), ofRest?, hname]
    exact ⟨_, rfl, rfl⟩

/-! ### Forms -/

/-- A name alone, in brackets, or in brackets with a default value. -/
inductive WritesName (name : List Char) : List Char → Prop
  | bare : WritesName name name
  | optional : WritesName name ('[' :: (name ++ [']']))
  | withDefault {value : List Char} (h : ∀ c ∈ value, isBlank c = false) :
    WritesName name ('[' :: (name ++ '=' :: (value ++ [']'])))

/-- A text without blanks around it that does not begin with a hyphen. -/
structure IsDescription (cs : List Char) : Prop where
  ne_nil : cs ≠ []
  trim : Text.trim cs = cs
  head : cs.head? ≠ some '-'

instance (cs : List Char) : Decidable (IsDescription cs) :=
  decidable_of_iff (cs ≠ [] ∧ Text.trim cs = cs ∧ cs.head? ≠ some '-')
    ⟨fun h => ⟨h.1, h.2.1, h.2.2⟩, fun h => ⟨h.ne_nil, h.trim, h.head⟩⟩

/-- A description behind a blank, hyphens and spaces, and further blanks, or none. -/
inductive WritesDescription : List Char → Option String → Prop
  | absent : WritesDescription [] none
  | text {blank : Char} {dashes blanks cs : List Char} (hblank : isBlank blank = true)
    (hdashes : ∀ c ∈ dashes, c = '-' ∨ c = ' ') (hblanks : ∀ c ∈ blanks, isBlank c = true)
    (hcs : IsDescription cs) :
    WritesDescription (blank :: (dashes ++ (blanks ++ cs))) (some (String.ofList cs))

section Forms

variable {name written cs : List Char} {description : Option String}

theorem IsDescription.trimStart (h : IsDescription cs) : Text.trimStart cs = cs := by
  have hsuffix : Text.trimStart cs <:+ cs := List.dropWhile_suffix isBlank
  have hprefix : Text.trim cs <+: Text.trimStart cs := List.rdropWhile_prefix isBlank _
  refine hsuffix.eq_of_length_le ?_
  have := hprefix.length_le
  rwa [h.trim] at this

theorem IsDescription.trimEnd (h : IsDescription cs) : Text.trimEnd cs = cs := by
  have htrim := h.trim
  rwa [Text.trim, h.trimStart] at htrim

theorem IsDescription.isBlank_head (h : IsDescription cs) : ∀ c ∈ cs.head?, isBlank c = false := by
  have hstop := List.head?_dropWhile_not isBlank cs
  have hstart : cs.dropWhile isBlank = cs := h.trimStart
  rw [hstart] at hstop
  intro c hc
  rw [Option.mem_def.mp hc] at hstop
  simpa using hstop

theorem WritesName.isBlank (h : WritesName name written) (hplain : IsPlain name) :
    ∀ c ∈ written, Text.isBlank c = false := by
  have hname : ∀ c ∈ name, Text.isBlank c = false :=
    fun c hc => isBlank_of_isNameChar (hplain.isNameChar c hc)
  cases h with
  | bare => exact hname
  | optional =>
    simp only [List.forall_mem_cons, List.forall_mem_append]
    exact ⟨by decide, hname, by decide, by simp⟩
  | withDefault hvalue =>
    simp only [List.forall_mem_cons, List.forall_mem_append]
    exact ⟨by decide, hname, by decide, hvalue, by decide, by simp⟩

/-- No name goes on behind a description that is set apart from it. -/
theorem WritesDescription.head (h : WritesDescription written description) :
    ∀ c ∈ written.head?, isNameChar c = false := by
  cases h with
  | absent => simp
  | text hblank =>
    rintro _ ⟨⟩
    rw [← Bool.not_eq_true]
    intro hname
    rw [isBlank_of_isNameChar hname] at hblank
    cases hblank

theorem WritesName.nameOf? (h : WritesName name written) (hplain : IsPlain name) {rest : List Char}
    (hrest : ∀ c ∈ rest.head?, isNameChar c = false) :
    ParamDoc.nameOf? (written ++ rest) = some name := by
  rw [nameOf?_eq_some_iff]
  refine ⟨hplain, ?_⟩
  cases h with
  | bare => exact .inl ⟨rest, rfl, hrest⟩
  | optional => exact .inr ⟨_, by simp, ']' :: rest, rfl, by rintro _ ⟨⟩; decide⟩
  | @withDefault value =>
    refine .inr ⟨_, by simp, '=' :: (value ++ ']' :: rest), rfl, by rintro _ ⟨⟩; decide⟩

/-- Behind dashes and blanks a description stays whole: it begins with neither. -/
theorem IsDescription.dropWhile_append (h : IsDescription cs) (blanks : List Char) :
    (blanks ++ cs).dropWhile isDash = blanks.dropWhile isDash ++ cs := by
  have hstop : cs.dropWhile isDash = cs := by
    cases cs with
    | nil => rfl
    | cons c cs =>
      have hdash : c ≠ '-' := fun hc => h.head (congrArg some hc)
      have hspace : c ≠ ' ' := by
        rintro rfl
        exact absurd (h.isBlank_head ' ' rfl) (by decide)
      exact List.dropWhile_cons_of_neg (by simp [isDash, hdash, hspace])
  rw [List.dropWhile_append, hstop]
  split
  · rename_i hnil
    rw [List.isEmpty_iff.mp hnil]
    rfl
  · rfl

theorem WritesDescription.afterBlank (h : WritesDescription written description) {word : List Char}
    (hword : ∀ c ∈ word, isBlank c = false) :
    nonempty (trim ((ParamDoc.afterBlank (word ++ written)).dropWhile isDash)) = description := by
  cases h with
  | absent =>
    rw [List.append_nil, afterBlank_word hword]
    rfl
  | @text blank dashes blanks cs hblank hdashes hblanks hcs =>
    have hdashes : ∀ c ∈ dashes, isDash c = true := fun c hc => by simpa [isDash] using hdashes c hc
    -- dashes are dropped up to the first blank that is no space, trimming drops the rest
    have hkept : ∀ c ∈ blanks.dropWhile isDash, isBlank c = true :=
      fun c hc => hblanks c ((List.dropWhile_suffix _).subset hc)
    have htrim : trim (blanks.dropWhile isDash ++ cs) = cs := by
      rw [trim, trimStart, List.dropWhile_append_of_pos hkept, ← trimStart, hcs.trimStart,
        hcs.trimEnd]
    rw [afterBlank_append hword hblank, List.dropWhile_append_of_pos hdashes, hcs.dropWhile_append,
      htrim, nonempty, if_neg hcs.ne_nil]

/-- The name and the description have no blanks around them. -/
theorem WritesName.trimEnd_append {name' : List Char} (h : WritesName name name')
    (hplain : IsPlain name) (hd : WritesDescription written description) :
    Text.trimEnd (name' ++ written) = name' ++ written := by
  cases hd with
  | absent =>
    rw [List.append_nil]
    exact Text.trimEnd_eq_self_iff.mpr fun c hc =>
      h.isBlank hplain c (List.mem_of_getLast? hc)
  | @text blank dashes blanks cs hblank hdashes hblanks hcs =>
    have hne : Text.trimEnd cs ≠ [] := by
      rw [hcs.trimEnd]
      exact hcs.ne_nil
    have hassoc : name' ++ blank :: (dashes ++ (blanks ++ cs)) =
        (name' ++ blank :: (dashes ++ blanks)) ++ cs := by simp
    rw [hassoc, Text.trimEnd_append hne, hcs.trimEnd]

theorem WritesType.trim_append {type : Option String} (h : WritesType written type)
    (hne : cs ≠ []) (hhead : ∀ c ∈ cs.head?, isBlank c = false) (hcs : Text.trimEnd cs = cs) :
    trim (written ++ cs) = written ++ cs := by
  have hend : Text.trimEnd (written ++ cs) = written ++ cs := by
    rw [Text.trimEnd_append (by rwa [hcs]), hcs]
  rw [Text.trim_of_trimEnd hend]
  cases h with
  | absent =>
    obtain ⟨c, cs, rfl⟩ := List.exists_cons_of_ne_nil hne
    exact Text.trimStart_cons (hhead c rfl) cs
  | braces => exact Text.trimStart_cons (by decide) _

theorem parse_append {writtenName : List Char} {type : Option String}
    {writtenDescription : List Char} (hplain : IsPlain name) (htype : WritesType written type)
    (hname : WritesName name writtenName)
    (hd : WritesDescription writtenDescription description) :
    parse (written ++ (writtenName ++ writtenDescription)) =
      some ⟨String.ofList name, type, description⟩ := by
  have hread : ParamDoc.nameOf? (writtenName ++ writtenDescription) = some name :=
    hname.nameOf? hplain hd.head
  have hhead := head?_of_beginsWith hplain (nameOf?_eq_some_iff.mp hread).2
  have hne : writtenName ++ writtenDescription ≠ [] := by
    intro hnil
    rw [hnil] at hread
    cases hread
  have htrim := htype.trim_append hne (fun c hc => (hhead c hc).1) (hname.trimEnd_append hplain hd)
  have hrest := hd.afterBlank (hname.isBlank hplain)
  rw [parse_eq htrim htype hhead, ofRest?, hread, Option.map_some, hrest]

theorem parse_of_staysOpen {body rest : List Char} (hbody : trim body = '\x7b' :: rest)
    (h : StaysOpen 0 rest) : parse body = none := by
  rw [parse, hbody]
  simp only [closingBrace_eq_none_iff.mpr h, Option.bind_none]

/-- Names that are identifiers of the alphabet can be read, and a body is read as what it says,
however its parts are written. A body with a brace that is never closed says nothing. -/
theorem parse_forms :
    (∀ {c : Char} {cs : List Char}, (∀ x ∈ c :: cs, Text.isAscii x = true) →
      Text.isIdentifierStart c = true → (∀ x ∈ cs, Text.isIdentifierPart x = true) →
      IsPlain (c :: cs)) ∧
    (∀ {name writtenType writtenName writtenDescription : List Char}
        {type description : Option String}, IsPlain name → WritesType writtenType type →
      WritesName name writtenName → WritesDescription writtenDescription description →
      parse (writtenType ++ (writtenName ++ writtenDescription)) =
        some ⟨String.ofList name, type, description⟩) ∧
    ∀ {body rest : List Char}, trim body = '\x7b' :: rest → StaysOpen 0 rest → parse body = none :=
  ⟨isPlain_of_isAscii, parse_append, parse_of_staysOpen⟩

theorem parse_forms_guest :
    parse "\x7b\x7b id: number \x7d\x7d [user=guest] - The user".toList =
        some ⟨"user", some "\x7b id: number \x7d", some "The user"⟩ ∧
      parse "\x7bstring name".toList = none := by
  have htype : WritesType "\x7b\x7b id: number \x7d\x7d ".toList (some "\x7b id: number \x7d") :=
    @WritesType.braces "\x7b id: number \x7d".toList [' '] (by decide) (by simp [isBlank])
  have hname : WritesName "user".toList "[user=guest]".toList :=
    @WritesName.withDefault "user".toList "guest".toList (by simp [isBlank])
  have hdescription : WritesDescription " - The user".toList (some "The user") :=
    @WritesDescription.text ' ' ['-', ' '] [] "The user".toList (by decide) (by simp) (by simp)
      (by decide)
  have hascii : "user".toList.all Text.isAscii = true := by decide
  have hparts : "ser".toList.all Text.isIdentifierPart = true := by decide
  have hplain : IsPlain "user".toList :=
    parse_forms.1 (List.all_eq_true.mp hascii) (by decide) (List.all_eq_true.mp hparts)
  have hbody : trim "\x7bstring name".toList = '\x7b' :: "string name".toList := by decide
  have hopen : StaysOpen 0 "string name".toList := by decide
  exact ⟨parse_forms.2.1 hplain htype hname hdescription, parse_forms.2.2 hbody hopen⟩

end Forms

end Phrasebook.ParamDoc
