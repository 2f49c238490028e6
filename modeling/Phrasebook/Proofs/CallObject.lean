import Phrasebook.Proofs.MessageFunction
import Phrasebook.Proofs.Script.Object
import Phrasebook.Proofs.StringLiteral
import Phrasebook.Proofs.Json.Written

/-!
# The values in a call

A call carries an object with what its message needs: the values of the parameters that are names,
under their names or under their positions, and the text of the message under a key of its own
(`Intends`). The object that is written has these values under these keys, with one exception
(`valueAt_callObject_iff`): a parameter that is called as the key of the text takes its place,
since it is written behind it.
-/

namespace Phrasebook

open Collect (isThis param? params)
open Script (IsVariable KeyText LiteralText MemberText Module Node Bound BoundText foldText
  membersAlone membersAlone_eq prototypeKey valueAt)

/-! ### What is intended -/

/-- The key of the text. -/
def defaultKey : String := "defaultValue"

/-- What the object in a call is meant to have under its keys, for a function with the parameters
`ns`. A position counts all parameters but `this`. -/
inductive Intends (o : Options) (text : String) (ns : List Node) : String → Bound → Prop
  | text (h : o.setDefault = true) : Intends o text ns defaultKey (.text text)
  | name {n : Node} {x : String} (h : o.argMode = .named) (hn : n ∈ ns) (hthis : isThis n = false)
      (hx : n.form = .name x) : Intends o text ns x (.var x)
  | position {i : Nat} {n : Node} {x : String} (h : o.argMode = .indexed)
      (hn : (ns.filter (!isThis ·))[i]? = some n) (hx : n.form = .name x) :
      Intends o text ns (toString i) (.var x)

/-- A parameter is written under the key of the text. -/
def TakesDefaultKey (o : Options) (ns : List Node) : Prop :=
  o.argMode = .named ∧ ∃ n ∈ ns, n.form = .name defaultKey

/-! ### Objects -/

/-- The object in a call, if there is one. -/
def callObject? (text : String) (ps : List Param) (o : Options) : Option String :=
  match callMembers text ps o with
  | [] => none
  | members =>
    some ("\x7b " ++ String.ofList (Text.join [',', ' '] (members.map String.toList)) ++ " \x7d")

theorem plainCall_eq_object (id text : String) (ps : List Param) (o : Options) :
    plainCall id text ps o =
      o.runtimeId ++ ".t(\"" ++ id ++ "\""
        ++ (callObject? text ps o).elim "" (", " ++ ·) ++ ")" := by
  unfold plainCall callObject?
  have hclose : "\")" = "\"" ++ ")" := rfl
  have hopen : "\", \x7b " = "\"" ++ (", " ++ "\x7b ") := rfl
  have hend : " \x7d)" = " \x7d" ++ ")" := rfl
  cases callMembers text ps o with
  | nil => simp [hclose, String.append_assoc]
  | cons member members =>
    dsimp only [Option.elim_some]
    rw [hopen, hend]
    simp only [String.append_assoc]

/-- The key under which the value of a parameter is written. -/
def keyOf (mode : ArgMode) (p : Param) : String :=
  match mode with
  | .named => p.name
  | .indexed => toString p.index

/-- The members for parameters, with their values. -/
def paramValues (ps : List Param) (mode : ArgMode) : List (String × Bound) :=
  ps.map fun p => (keyOf mode p, .var p.name)

/-- The members of the object in a call, with their values. -/
def callValues (text : String) (ps : List Param) (o : Options) : List (String × Bound) :=
  (if o.setDefault then [(defaultKey, .text text)] else []) ++ paramValues ps o.argMode

theorem literalChar_of_isDigit {c : Char} (h : c.isDigit = true) : literalChar c = [c] := by
  have hcodes : ∀ k < 10, literalChar (Char.ofNat (48 + k)) = [Char.ofNat (48 + k)] := by decide
  simp only [Char.isDigit, Bool.and_eq_true, decide_eq_true_eq, ge_iff_le,
    UInt32.le_iff_toNat_le] at h
  have hlow : 48 ≤ c.toNat := h.1
  have hhigh : c.toNat ≤ 57 := h.2
  have := hcodes (c.toNat - 48) (by omega)
  rwa [Nat.add_sub_cancel' hlow, Char.ofNat_toNat] at this

theorem isDigit_of_mem_toString {i : Nat} {c : Char} (h : c ∈ (toString i).toList) :
    c.isDigit = true := by
  rw [Nat.toString_eq_ofList_toDigits, String.toList_ofList] at h
  exact Nat.isDigit_of_mem_toDigits (by decide) (by decide) h

/-- Decimal digits between quotes are their literal. -/
theorem toList_stringLiteral_toString (i : Nat) :
    (stringLiteral (toString i)).toList = '"' :: (toString i).toList ++ ['"'] := by
  have hdigits : (toString i).toList.flatMap literalChar = (toString i).toList := by
    rw [List.flatMap_congr (g := fun c => [c]) fun c hc =>
      literalChar_of_isDigit (isDigit_of_mem_toString hc), List.flatMap_singleton']
  rw [toList_stringLiteral, hdigits]
  rfl

theorem eq_of_toString {i j : Nat} (h : toString i = toString j) : i = j := by
  have hdigits := congrArg (fun s : String => Nat.ofDigitChars 10 s.toList 0) h
  simpa only [Nat.toString_eq_ofList_toDigits, String.toList_ofList,
    Nat.ofDigitChars_toDigits (show 1 < 10 by decide) (Nat.le_refl 10)] using hdigits

theorem toString_ne {i : Nat} {key : String} {c : Char} (hc : c ∈ key.toList)
    (hdigit : c.isDigit = false) : toString i ≠ key := by
  rintro rfl
  rw [isDigit_of_mem_toString hc] at hdigit
  cases hdigit

theorem isVariable_defaultKey : IsVariable defaultKey.toList := by
  decide +kernel

/-- What writes the members of the object in a call. -/
theorem forall₂_callMembers (text : String) {ps : List Param}
    (hnames : ∀ p ∈ ps, IsVariable p.name.toList) (o : Options) :
    List.Forall₂ MemberText ((callMembers text ps o).map String.toList) (callValues text ps o) := by
  have hparam : ∀ p ∈ ps, MemberText (valueOf o.argMode p).toList
      (keyOf o.argMode p, .var p.name) := by
    intro p hp
    have hname := hnames p hp
    cases o.argMode with
    | named =>
      have h := MemberText.shorthand hname
      rwa [String.ofList_toList] at h
    | indexed =>
      have hkey : KeyText (stringLiteral (toString p.index)).toList (toString p.index) :=
        .literal (literalText_stringLiteral _)
      -- a position is written in digits, so its key is not the one that would set the prototype
      have hproto : toString p.index ≠ prototypeKey := toString_ne (c := '_') (by decide) rfl
      have h := MemberText.pair hkey hproto (.word hname)
      rw [String.ofList_toList, toList_stringLiteral_toString] at h
      simpa [valueOf, keyOf] using h
  have htext : MemberText ("defaultValue: " ++ stringLiteral text).toList
      (defaultKey, .text text) := by
    have hkey : KeyText defaultKey.toList (String.ofList defaultKey.toList) :=
      .word isVariable_defaultKey.1 (Script.Kind.isWord_of_isReference isVariable_defaultKey.2.1)
    rw [String.ofList_toList] at hkey
    have h := MemberText.pair hkey (by decide) (.literal (literalText_stringLiteral text))
    rwa [String.toList_append]
  rw [callMembers, callValues, List.map_append, List.map_map]
  refine List.rel_append ?_ ?_
  · split
    · exact .cons htext .nil
    · exact .nil
  · rw [paramValues, List.forall₂_map_left_iff, List.forall₂_map_right_iff, List.forall₂_same]
    exact hparam

/-! ### Values under keys -/

theorem exists_param?_iff (source : List Char) {n : Node} {i j : Nat} {x : String} :
    (∃ p, param? source i n = some p ∧ p.index = j ∧ p.name = x) ↔ n.form = .name x ∧ i = j := by
  obtain ⟨form, lo, hi, parts⟩ := n
  cases form <;> simp [param?, Node.form, and_comm]

theorem exists_mem_params_iff (source : List Char) {ns : List Node} {i : Nat} {x : String} :
    (∃ p ∈ params source ns, p.index = i ∧ p.name = x) ↔
      ∃ n, (ns.filter (!isThis ·))[i]? = some n ∧ n.form = .name x := by
  simp only [params, List.mem_filterMap]
  constructor
  · rintro ⟨p, ⟨⟨n, k⟩, hmem, hp⟩, hindex, hname⟩
    obtain ⟨hform, rfl⟩ := (exists_param?_iff source).mp ⟨p, hp, hindex, hname⟩
    exact ⟨n, List.mem_zipIdx_iff_getElem?.mp hmem, hform⟩
  · rintro ⟨n, hn, hform⟩
    obtain ⟨p, hp, hpi, hpx⟩ := (exists_param?_iff source).mpr ⟨hform, rfl⟩
    exact ⟨p, ⟨(n, i), List.mem_zipIdx_iff_getElem?.mpr hn, hp⟩, hpi, hpx⟩

section

variable {o : Options} {text key x : String} {ns : List Node} {v : Bound} (source : List Char)

theorem intends_var_iff : Intends o text ns key (.var x) ↔
    ∃ p ∈ params source ns, keyOf o.argMode p = key ∧ p.name = x := by
  constructor
  · intro h
    cases h with
    -- `exists_mem_params_iff` speaks of positions, so a name is given one first
    | name h hn hthis hx =>
      have hmem := List.mem_filter (p := (!isThis ·)).mpr ⟨hn, by rw [hthis]; rfl⟩
      obtain ⟨i, hi⟩ := List.getElem?_of_mem hmem
      obtain ⟨p, hp, -, rfl⟩ := (exists_mem_params_iff source).mpr ⟨_, hi, hx⟩
      exact ⟨p, hp, by rw [h]; rfl, rfl⟩
    | position h hn hx =>
      obtain ⟨p, hp, rfl, rfl⟩ := (exists_mem_params_iff source).mpr ⟨_, hn, hx⟩
      exact ⟨p, hp, by rw [h]; rfl, rfl⟩
  · rintro ⟨p, hp, rfl, rfl⟩
    obtain ⟨n, hn, hx⟩ := (exists_mem_params_iff source).mp ⟨p, hp, rfl, rfl⟩
    cases hmode : o.argMode with
    | named =>
      obtain ⟨hmem, hthis⟩ := List.mem_filter.mp (List.mem_of_getElem? hn)
      exact .name hmode hmem (by simpa using hthis) hx
    | indexed => exact .position hmode hn hx

/-- A key has one variable at most. -/
theorem eq_of_intends {x y : String} (hx : Intends o text ns key (.var x))
    (hy : Intends o text ns key (.var y)) : x = y := by
  obtain ⟨p, hp, hkey, rfl⟩ := (intends_var_iff []).mp hx
  obtain ⟨q, hq, hkey', rfl⟩ := (intends_var_iff []).mp hy
  rw [← hkey'] at hkey
  cases hmode : o.argMode with
  | named =>
    rw [hmode] at hkey
    exact hkey
  | indexed =>
    rw [hmode] at hkey
    have hindex : p.index = q.index := eq_of_toString hkey
    obtain ⟨n, hn, hform⟩ := (exists_mem_params_iff []).mp ⟨p, hp, hindex, rfl⟩
    obtain ⟨n', hn', hform'⟩ := (exists_mem_params_iff []).mp ⟨q, hq, rfl, rfl⟩
    rw [hn] at hn'
    obtain rfl := Option.some.inj hn'
    rw [hform] at hform'
    exact Script.Form.name.inj hform'

theorem valueAt_paramValues_iff (text : String) :
    valueAt (paramValues (params source ns) o.argMode) key = some v ↔
      ∃ x, v = .var x ∧ Intends o text ns key (.var x) := by
  have hmem : ∀ w, (key, w) ∈ paramValues (params source ns) o.argMode ↔
      ∃ x, w = .var x ∧ Intends o text ns key (.var x) := by
    intro w
    simp only [paramValues, List.mem_map, Prod.mk.injEq, intends_var_iff source]
    constructor
    · rintro ⟨p, hp, hkey, rfl⟩
      exact ⟨p.name, rfl, p, hp, hkey, rfl⟩
    · rintro ⟨x, rfl, p, hp, hkey, rfl⟩
      exact ⟨p, hp, hkey, rfl⟩
  rw [Script.valueAt_eq_some_iff, hmem]
  intro w hv hw
  obtain ⟨x, rfl, hx⟩ := (hmem v).mp hv
  obtain ⟨y, rfl, hy⟩ := (hmem w).mp hw
  rw [eq_of_intends hx hy]

theorem intends_text_iff {t : String} :
    Intends o text ns key (.text t) ↔ o.setDefault = true ∧ key = defaultKey ∧ t = text := by
  constructor
  · intro h
    cases h with
    | text h => exact ⟨h, rfl, rfl⟩
  · rintro ⟨h, rfl, rfl⟩
    exact .text h

/-- Only a parameter that is called so has the key of the text. -/
theorem takesDefaultKey_iff (text : String) :
    TakesDefaultKey o ns ↔ ∃ x, Intends o text ns defaultKey (.var x) := by
  constructor
  · rintro ⟨hmode, n, hn, hform⟩
    have hthis : isThis n = false := by
      rw [isThis, hform]
      decide
    exact ⟨_, .name hmode hn hthis hform⟩
  · rintro ⟨x, h⟩
    generalize hkey : defaultKey = key at h
    cases h with
    | name hmode hn hthis hx => exact ⟨hmode, _, hn, hkey ▸ hx⟩
    | position => exact absurd hkey.symm (toString_ne (c := 'd') (by decide) rfl)

/-- The members of the object in a call have the intended values, up to a text that a parameter
hides. -/
theorem valueAt_callValues_iff :
    valueAt (callValues text (params source ns) o) key = some v ↔
      Intends o text ns key v ∧ (TakesDefaultKey o ns → v ≠ .text text) := by
  -- the last member of a name counts, so a parameter is asked before the text
  rw [callValues, Script.valueAt_append, Option.or_eq_some_iff, valueAt_paramValues_iff source text]
  have hdefault : valueAt (if o.setDefault then [(defaultKey, .text text)] else []) key = some v ↔
      o.setDefault = true ∧ key = defaultKey ∧ v = .text text := by
    cases o.setDefault with
    | false => simp [valueAt]
    | true =>
      by_cases hkey : key = defaultKey
      · simp [valueAt, hkey, eq_comm]
      · have hne : (key == defaultKey) = false := beq_false_of_ne hkey
        simp [valueAt, hkey, List.lookup_cons, hne]
  rw [hdefault]
  cases v with
  | var y => simp
  | text t =>
    have hnone : valueAt (paramValues (params source ns) o.argMode) key = none ↔
        ∀ x, ¬ Intends o text ns key (.var x) := by
      rw [Option.eq_none_iff_forall_ne_some]
      constructor
      · exact fun h x hx => h _ ((valueAt_paramValues_iff source text).mpr ⟨x, rfl, hx⟩)
      · rintro h w hw
        obtain ⟨x, -, hx⟩ := (valueAt_paramValues_iff source text).mp hw
        exact h x hx
    rw [hnone, intends_text_iff, takesDefaultKey_iff text]
    simp only [reduceCtorEq, false_and, exists_false, false_or, Bound.text.injEq, ne_eq]
    constructor
    · rintro ⟨hno, hset, rfl, rfl⟩
      exact ⟨⟨hset, rfl, rfl⟩, fun htakes => htakes.elim fun x hx => absurd hx (hno x)⟩
    · rintro ⟨⟨hset, rfl, rfl⟩, htakes⟩
      exact ⟨fun x hx => htakes ⟨x, hx⟩ rfl, hset, rfl, rfl⟩

theorem callValues_eq_nil_iff : callValues text (params source ns) o = [] ↔
    ∀ key v, ¬ Intends o text ns key v := by
  rw [List.eq_nil_iff_forall_not_mem]
  constructor
  · intro h key v hv
    cases v with
    | text t =>
      obtain ⟨hset, -, -⟩ := intends_text_iff.mp hv
      refine h (defaultKey, .text text) (List.mem_append_left _ ?_)
      rw [if_pos hset]
      exact .head _
    | var x =>
      refine h (key, .var x) (Script.mem_of_valueAt ((valueAt_callValues_iff source).mpr ⟨hv, ?_⟩))
      exact fun _ => by simp
  · rintro h ⟨key, v⟩ hmem
    obtain ⟨w, hw⟩ := Option.isSome_iff_exists.mp (Script.valueAt_isSome hmem)
    exact h key w ((valueAt_callValues_iff source).mp hw).1

end

/-! ### The functions of candidates -/

/-- The nodes of the parameters of a function. -/
def parametersOf : Node → List Node
  | .mk _ _ _ (ps :: _) => ps.parts
  | _ => []

/-- The candidate is made for the function `f` of the module, which is the value of a property of an
object literal. -/
def Candidate.MadeFrom (c : Candidate) (m : Module) (f : Node) : Prop :=
  ∃ object ∈ objectsOf m.items, ∃ property ∈ object.parts, ∃ kind key e,
    Holds property kind key f ∧ Returns kind f c.shape e ∧ e.lo = c.start ∧ e.hi = c.stop ∧
      foldText e = some c.text

theorem Collect.params_eq_of_returning {kind : Shape} {f : Node} {rf : Collect.ReturningFunction}
    (h : Collect.returning? kind f = some rf) : rf.params = parametersOf f := by
  obtain ⟨shape, ps, e⟩ := rf
  have hreturning : returning? kind f = some ⟨shape, parametersOf f, e⟩ := by
    cases returns_of_returning? h with
    | arrowExpression hblock => rw [returning?, if_neg hblock, parametersOf]
    | arrowBlock => rfl
    | function => rfl
  rw [h] at hreturning
  exact congrArg ReturningFunction.params (Option.some.inj hreturning)

theorem exists_madeFrom {source filename : String} {o : Options} {c : Candidate}
    (hc : c ∈ (prepare source filename o).candidates) :
    ∃ m f, readModule source filename = some m ∧ c.MadeFrom m f ∧
      c.params = params source.toList (parametersOf f) := by
  obtain ⟨m, hm⟩ := exists_readModule_of_candidates (List.ne_nil_of_mem hc)
  rw [candidates_prepare hm] at hc
  obtain ⟨finding, hfinding, hcandidate⟩ := List.mem_filterMap.mp hc
  obtain ⟨object, hobject, hfinding⟩ := List.mem_flatMap.mp hfinding
  obtain ⟨⟨previousEnd, property⟩, hproperty, hfinding⟩ := List.mem_filterMap.mp hfinding
  simp only [Collect.finding?, Option.bind_eq_bind, Option.bind_eq_some_iff] at hfinding
  obtain ⟨p, hp, text, htext, hfinding⟩ := hfinding
  obtain ⟨kind, hholds, hreturning⟩ := Collect.exists_holds_of_functionProperty? hp
  have hreturns := Collect.returns_of_returning? hreturning
  -- an exempt function is a finding without a candidate
  split at hfinding
  · cases hfinding
    cases hcandidate
  · cases hfinding
    cases hcandidate
    exact ⟨m, p.function, hm, ⟨object, hobject, property, Collect.mem_of_mem_withPrevious hproperty,
      kind, p.key, p.returning.result, hholds, hreturns, rfl, rfl, htext⟩,
      congrArg (params source.toList) (Collect.params_eq_of_returning hreturning)⟩

/-! ### Calls -/

theorem callExpression_eq_object (id text : String) (ps : List Param) (o : Options) :
    callExpression id text ps o =
      (if o.debug then "\x60" ++ debugMarks.1 ++ "$\x7b" else "")
        ++ (o.runtimeId ++ ".t(\"" ++ id ++ "\""
          ++ (callObject? text ps o).elim "" (", " ++ ·) ++ ")")
        ++ (if o.debug then "\x7d" ++ debugMarks.2 ++ "\x60" else "") := by
  unfold callExpression
  rw [plainCall_eq_object]
  split
  · simp only [String.append_assoc]
  · rw [String.empty_append, String.append_empty]

theorem callObject?_eq_none_iff {text : String} {ps : List Param} {o : Options} :
    callObject? text ps o = none ↔ callMembers text ps o = [] := by
  unfold callObject?
  cases callMembers text ps o <;> simp

theorem membersAlone_callObject {text written : String} {ps : List Param} {o : Options}
    (hnames : ∀ p ∈ ps, IsVariable p.name.toList) (h : callObject? text ps o = some written)
    (jsx : Bool) : membersAlone jsx written.toList = some (callValues text ps o) := by
  have hne : callMembers text ps o ≠ [] := fun hnil => by
    rw [callObject?_eq_none_iff.mpr hnil] at h
    cases h
  have hwritten : written.toList = '\x7b' :: ' ' ::
      (Text.join [',', ' '] ((callMembers text ps o).map String.toList) ++ [' ', '\x7d']) := by
    unfold callObject? at h
    split at h
    · cases h
    · cases h
      simp only [String.toList_append, String.toList_ofList]
      simp
  rw [hwritten]
  exact membersAlone_eq jsx (forall₂_callMembers text hnames o) (by simpa using hne)

/-- What the call for a message function hands over: besides the id an object, if and only if
something is to be handed over. It is read as an object literal that has the intended values under
their keys and no others, except that its text is hidden when a parameter takes its key. -/
theorem valueAt_callObject_iff {source filename : String} {o : Options} {c : Candidate}
    (hc : c ∈ (prepare source filename o).candidates)
    (hnames : ∀ p ∈ c.params, IsVariable p.name.toList) (id : String) :
    ∃ m f, readModule source filename = some m ∧ c.MadeFrom m f ∧
      ∃ object : Option String,
        callExpression id c.text c.params o =
          (if o.debug then "\x60" ++ debugMarks.1 ++ "$\x7b" else "")
            ++ (o.runtimeId ++ ".t(\"" ++ id ++ "\"" ++ object.elim "" (", " ++ ·) ++ ")")
            ++ (if o.debug then "\x7d" ++ debugMarks.2 ++ "\x60" else "") ∧
        (object = none ↔ ∀ key v, ¬ Intends o c.text (parametersOf f) key v) ∧
        ∀ written ∈ object, ∀ jsx, ∃ members, membersAlone jsx written.toList = some members ∧
          ∀ key v, valueAt members key = some v ↔
            Intends o c.text (parametersOf f) key v ∧
              (TakesDefaultKey o (parametersOf f) → v ≠ .text c.text) := by
  obtain ⟨m, f, hm, hmade, hparams⟩ := exists_madeFrom hc
  refine ⟨m, f, hm, hmade, callObject? c.text c.params o,
    callExpression_eq_object id c.text c.params o, ?_, ?_⟩
  · have hlength := (forall₂_callMembers c.text hnames o).length_eq
    rw [List.length_map] at hlength
    rw [← callValues_eq_nil_iff source.toList, ← hparams, callObject?_eq_none_iff,
      ← List.length_eq_zero_iff, hlength, List.length_eq_zero_iff]
  · intro written hwritten jsx
    refine ⟨callValues c.text c.params o, membersAlone_callObject hnames hwritten jsx, ?_⟩
    intro key v
    rw [hparams, valueAt_callValues_iff]

/-- A function with all kinds of parameters. -/
def mixedParameters : String :=
  "const m = \x7b a(this: T, name, \x7b x \x7d, n) \x7b return \"Hi\"; \x7d \x7d;"

def indexedWithText : Options := { argMode := .indexed, setDefault := true }

set_option maxRecDepth 100000 in
theorem prepare_mixedParameters : (prepare mixedParameters "a.ts" indexedWithText).candidates =
    [⟨.method, "a", "Hi", 48, 52, [⟨0, "name", none⟩, ⟨2, "n", none⟩], none, 1, 13⟩] := by
  decide +kernel

theorem valueAt_callObject_iff_mixedParameters : ∃ written members,
    callExpression "0" "Hi" [⟨0, "name", none⟩, ⟨2, "n", none⟩] indexedWithText =
      "i18next.t(\"0\", " ++ written ++ ")" ∧
    membersAlone false written.toList = some members ∧
    valueAt members "defaultValue" = some (.text "Hi") := by
  have hmem : ⟨.method, "a", "Hi", 48, 52, [⟨0, "name", none⟩, ⟨2, "n", none⟩], none, 1, 13⟩ ∈
      (prepare mixedParameters "a.ts" indexedWithText).candidates := by
    rw [prepare_mixedParameters]
    exact List.mem_singleton.mpr rfl
  have hnames : ∀ p ∈ [(⟨0, "name", none⟩ : Param), ⟨2, "n", none⟩], IsVariable p.name.toList := by
    decide +kernel
  obtain ⟨m, f, -, -, object, hcall, hnone, hsome⟩ := valueAt_callObject_iff hmem hnames "0"
  cases object with
  | none => exact absurd (Intends.text rfl) (hnone.mp rfl defaultKey (.text "Hi"))
  | some written =>
    obtain ⟨members, hmembers, hvalues⟩ := hsome written rfl false
    have hstart : "i18next.t(\"0\", " = "i18next" ++ ".t(\"" ++ "0" ++ "\"" ++ ", " := by decide
    refine ⟨written, members, ?_, hmembers, (hvalues _ _).mpr ⟨.text rfl, fun h => ?_⟩⟩
    · rw [hcall, hstart]
      simp only [Option.elim_some, String.append_assoc]
      rfl
    · exact absurd h.1 (by decide)

/-- A parameter with the key of the text. -/
def takenKey : String := "const m = \x7b a: (defaultValue) => \"Hello\" \x7d;"

/-- The text is written in front of the parameter, which wins. -/
theorem valueAt_takenKey :
    let object := "\x7b defaultValue: \"Hello\", defaultValue \x7d"
    ((prepare takenKey "a.ts" { setDefault := true }).candidates.map fun c =>
      callExpression "185f8db322" c.text c.params { setDefault := true }) =
        ["i18next.t(\"185f8db322\", " ++ object ++ ")"] ∧
    ((membersAlone false object.toList).bind fun members => valueAt members "defaultValue") =
      some (.var "defaultValue") := by
  decide +kernel

end Phrasebook
