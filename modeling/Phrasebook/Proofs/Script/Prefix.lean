import Phrasebook.Script.Module
import Mathlib.Data.List.Infix

/-!
# The longest beginning that can be parsed

A text can be cut behind each of its line feeds. `longestPrefix` tries the cuts in front of an
offset, the last one first. So what it gives is the value of the last cut that has one, and it gives
nothing only if no cut has one (`longestPrefix_iff`).
-/

namespace Phrasebook.Script

open Text (byteLength)

/-! ### Searching -/

section Search

variable {α : Type} {parse : List Char → Option α} {reversed back : List Char} {a : α}

/-- What is found is the value of the first line feed that has one. -/
theorem exists_of_searchLines (h : searchLines parse reversed = some a) :
    ∃ back, '\n' :: back <:+ reversed ∧ parse ('\n' :: back).reverse = some a ∧
      ∀ back' a', '\n' :: back' <:+ reversed → parse ('\n' :: back').reverse = some a' →
        back' <:+ back := by
  fun_induction searchLines parse reversed with
  | case1 => cases h
  | case2 rest a' ha =>
    refine ⟨rest, List.suffix_rfl, ha.trans h, fun back' _ hback' _ => ?_⟩
    rcases List.suffix_cons_iff.mp hback' with heq | hsuffix
    · rw [(List.cons.inj heq).2]
    · exact (List.suffix_cons _ _).trans hsuffix
  | case3 rest hnone ih =>
    obtain ⟨back, hback, hparse, hlast⟩ := ih h
    refine ⟨back, hback.trans (List.suffix_cons _ _), hparse, fun back' a' hback' hparse' => ?_⟩
    rcases List.suffix_cons_iff.mp hback' with heq | hsuffix
    · rw [heq, hnone] at hparse'
      cases hparse'
    · exact hlast back' a' hsuffix hparse'
  | case4 c rest hc ih =>
    obtain ⟨back, hback, hparse, hlast⟩ := ih h
    refine ⟨back, hback.trans (List.suffix_cons _ _), hparse, fun back' a' hback' hparse' => ?_⟩
    rcases List.suffix_cons_iff.mp hback' with heq | hsuffix
    · exact absurd (List.cons.inj heq).1.symm hc
    · exact hlast back' a' hsuffix hparse'

theorem parse_of_searchLines (h : searchLines parse reversed = none)
    (hback : '\n' :: back <:+ reversed) : parse ('\n' :: back).reverse = none := by
  fun_induction searchLines parse reversed with
  | case1 => simp at hback
  | case2 rest a' ha => cases h
  | case3 rest hnone ih =>
    rcases List.suffix_cons_iff.mp hback with heq | hsuffix
    · rw [heq, hnone]
    · exact ih h hsuffix
  | case4 c rest hc ih =>
    rcases List.suffix_cons_iff.mp hback with heq | hsuffix
    · exact absurd (List.cons.inj heq).1.symm hc
    · exact ih h hsuffix

end Search

/-! ### Cuts -/

/-- Behind the line feed at the byte `byteLength head`, which stands in front of the byte `limit`,
the text is cut into `head`, the line feed and `rest`, and `parse` has the value `a` for what is in
front of the cut. -/
structure IsCut {α : Type} (parse : List Char → Option α) (text : List Char) (limit : Nat)
    (head rest : List Char) (a : α) : Prop where
  eq : text = head ++ '\n' :: rest
  lt : byteLength head < limit
  value : parse (head ++ ['\n']) = some a

/-- The last of the cuts. -/
structure IsLastCut {α : Type} (parse : List Char → Option α) (text : List Char) (limit : Nat)
    (head rest : List Char) (a : α) : Prop extends IsCut parse text limit head rest a where
  last : ∀ {head' rest' a'}, IsCut parse text limit head' rest' a' →
    byteLength head' ≤ byteLength head

/-- The place that an offset says; one that is no place of the text says its end. -/
def limitOf (text : List Char) (offset : Nat) : Nat :=
  if offset ∈ text.inits.map byteLength then offset else byteLength text

section Cut

variable {α : Type} {parse : List Char → Option α} {text head rest : List Char} {limit offset : Nat}
  {a : α}

theorem IsLastCut.unique {head' rest' : List Char} {a' : α}
    (h : IsLastCut parse text limit head rest a) (h' : IsLastCut parse text limit head' rest' a') :
    head = head' ∧ rest = rest' ∧ a = a' := by
  have hhead : head <+: text := ⟨_, h.eq.symm⟩
  have hhead' : head' <+: text := ⟨_, h'.eq.symm⟩
  have hle := Text.prefix_of_byteLength_le hhead hhead' (h'.last h.toIsCut)
  have hge := Text.prefix_of_byteLength_le hhead' hhead (h.last h'.toIsCut)
  obtain rfl : head = head' := hle.eq_of_length_le hge.length_le
  have hrest := List.append_cancel_left (h.eq.symm.trans h'.eq)
  exact ⟨rfl, (List.cons.inj hrest).2, Option.some.inj (h.value.symm.trans h'.value)⟩

/-- The beginning of the text up to the place that an offset says. -/
theorem exists_takeBytes? (text : List Char) (offset : Nat) :
    ∃ more, text = (Text.takeBytes? offset text).getD text ++ more ∧
      byteLength ((Text.takeBytes? offset text).getD text) = limitOf text offset := by
  cases htake : Text.takeBytes? offset text with
  | none =>
    refine ⟨[], (List.append_nil text).symm, ?_⟩
    rw [limitOf, if_neg]
    · rfl
    · rintro hmem
      obtain ⟨taken, htaken, rfl⟩ := List.mem_map.mp hmem
      obtain ⟨more, rfl⟩ := (List.mem_inits _ _).mp htaken
      rw [Text.takeBytes?_byteLength] at htake
      cases htake
  | some taken =>
    obtain ⟨more, rfl, rfl⟩ := Text.exists_of_takeBytes? htake
    refine ⟨more, rfl, ?_⟩
    rw [limitOf, if_pos]
    · rfl
    · exact List.mem_map_of_mem ((List.mem_inits _ _).mpr (List.prefix_append _ _))

/-- The cuts of a text in front of a limit are behind the line feeds of the beginning up to it. -/
theorem suffix_reverse_iff {taken : List Char} (more : List Char) :
    '\n' :: head.reverse <:+ taken.reverse ↔
      ∃ rest, taken ++ more = head ++ '\n' :: rest ∧ byteLength head < byteLength taken := by
  have hreverse : '\n' :: head.reverse = (head ++ ['\n']).reverse := by simp
  rw [hreverse, List.reverse_suffix]
  constructor
  · rintro ⟨rest, rfl⟩
    refine ⟨rest ++ more, by simp, ?_⟩
    have := Char.utf8Size_pos '\n'
    simp only [Text.byteLength_append, byteLength]
    omega
  · rintro ⟨rest, heq, hlt⟩
    have hprefix : head ++ ['\n'] <+: taken ++ more := ⟨rest, by simp [heq]⟩
    refine Text.prefix_of_byteLength_le hprefix (List.prefix_append _ _) ?_
    have hone : byteLength ['\n'] = 1 := rfl
    rw [Text.byteLength_append, hone]
    exact hlt

theorem reverse_cons_reverse (head : List Char) :
    ('\n' :: head.reverse).reverse = head ++ ['\n'] := by
  simp

/-- The search finds the last of the cuts in front of the end of `taken`. -/
theorem exists_isLastCut_of_searchLines {taken : List Char} (more : List Char)
    (h : searchLines parse taken.reverse = some a) :
    ∃ head rest, IsLastCut parse (taken ++ more) (byteLength taken) head rest a := by
  obtain ⟨back, hback, hparse, hlast⟩ := exists_of_searchLines h
  obtain ⟨head, rfl⟩ : ∃ head, back = head.reverse := ⟨back.reverse, by simp⟩
  obtain ⟨rest, heq, hlt⟩ := (suffix_reverse_iff more).mp hback
  rw [reverse_cons_reverse] at hparse
  refine ⟨head, rest, ⟨heq, hlt, hparse⟩, fun {head' rest' a'} h' => ?_⟩
  have hparse' := (congrArg parse (reverse_cons_reverse head')).trans h'.value
  have hsuffix := hlast head'.reverse a'
    ((suffix_reverse_iff more).mpr ⟨rest', h'.eq, h'.lt⟩) hparse'
  obtain ⟨d, rfl⟩ := List.reverse_suffix.mp hsuffix
  rw [Text.byteLength_append]
  omega

theorem not_isCut_of_searchLines {taken : List Char} (more : List Char)
    (h : searchLines parse taken.reverse = none) (head rest : List Char) (a : α) :
    ¬IsCut parse (taken ++ more) (byteLength taken) head rest a := by
  intro hcut
  have hparse := parse_of_searchLines h
    ((suffix_reverse_iff more).mpr ⟨rest, hcut.eq, hcut.lt⟩)
  rw [reverse_cons_reverse, hcut.value] at hparse
  cases hparse

/-- What is found for a text and an offset is the value of the last cut, and nothing is found only
if there is no cut. -/
theorem longestPrefix_iff (parse : List Char → Option α) (text : List Char) (offset : Nat) :
    (∀ a, longestPrefix parse text offset = some a ↔
      ∃ head rest, IsLastCut parse text (limitOf text offset) head rest a) ∧
    (longestPrefix parse text offset = none ↔
      ∀ head rest a, ¬IsCut parse text (limitOf text offset) head rest a) := by
  obtain ⟨more, htext, hlimit⟩ := exists_takeBytes? text offset
  rw [longestPrefix, ← hlimit]
  -- what is searched is the text in front of the offset, and the rest plays no part
  generalize (Text.takeBytes? offset text).getD text = taken at htext
  subst htext
  cases hsearch : searchLines parse taken.reverse with
  | none =>
    have hnone := not_isCut_of_searchLines more hsearch
    refine ⟨fun a => ⟨nofun, ?_⟩, iff_of_true rfl hnone⟩
    rintro ⟨head, rest, hcut⟩
    exact absurd hcut.toIsCut (hnone head rest a)
  | some found =>
    obtain ⟨head, rest, hcut⟩ := exists_isLastCut_of_searchLines more hsearch
    refine ⟨fun a => ⟨?_, ?_⟩, iff_of_false nofun fun hno => hno head rest found hcut.toIsCut⟩
    · rintro ⟨⟩
      exact ⟨head, rest, hcut⟩
    · rintro ⟨head', rest', hcut'⟩
      rw [(hcut.unique hcut').2.2]

end Cut

/-! ### Parsing a beginning -/

theorem withItems_eq_some_iff {ε : Type} {read : List Char → Except ε Module} {text : List Char}
    {m : Module} : withItems read text = some m ↔ read text = .ok m ∧ m.items ≠ [] := by
  rw [withItems, Option.filter_eq_some_iff]
  cases read text <;> simp [Except.toOption]

theorem exists_of_parsePrefix {jsx : Bool} {text : List Char} {offset : Nat} {m : Module}
    (h : parsePrefix jsx text offset = some m) : ∃ cs, cs <+: text ∧ parse jsx cs = .ok m := by
  obtain ⟨head, rest, hcut⟩ := ((longestPrefix_iff _ _ _).1 m).mp h
  refine ⟨head ++ ['\n'], ⟨rest, ?_⟩, (withItems_eq_some_iff.mp hcut.value).1⟩
  rw [hcut.eq, List.append_assoc]
  rfl

end Phrasebook.Script
