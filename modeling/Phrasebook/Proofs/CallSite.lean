import Phrasebook.Proofs.Placed
import Phrasebook.Proofs.StoreCalls
import Mathlib.Data.List.Infix

/-!
# Calls and what stands in front of them

An expression that is returned stands behind the word `return` or behind an arrow, with blanks and
comments in between. A call that takes its place without a gap begins with a letter and runs into
the word, so that nothing is returned any more; marks in front of the call keep them apart.
`kindAt_lead_iff` says exactly when what stands in front is still read as what it was.
-/

namespace Phrasebook

open Splice (Applicable covers insertedAt keptAt outputFrom replacementAt)
open Script (StopsWord isSpace kindAt)
open Text (byteLength)

/-! ### What a call begins with -/

theorem isIdentifierPart_of_isIdentifier {cs : List Char} (h : isIdentifier cs = true)
    (hascii : ∀ x ∈ cs, Text.isAscii x = true) : ∀ x ∈ cs, Text.isIdentifierPart x = true := by
  intro x hx
  have hx' := hascii x hx
  cases cs with
  | nil => simp at hx
  | cons c cs =>
    simp only [isIdentifier, Bool.and_eq_true, List.all_eq_true] at h
    rcases List.mem_cons.mp hx with rfl | hx
    · have h1 := h.1
      simp only [Text.isAlphabetic, hx', if_true, Bool.or_eq_true] at h1
      simp only [Text.isIdentifierPart, hx', if_true, Bool.or_eq_true]
      tauto
    · have h2 := h.2 x hx
      simp only [Text.isAlphanumeric, hx', if_true, Bool.or_eq_true] at h2
      simp only [Text.isIdentifierPart, hx', if_true, Bool.or_eq_true]
      tauto

theorem callExpression_of_debug {o : Options} (h : o.debug = true) (id text : String)
    (params : List Param) : ∃ rest, (callExpression id text params o).toList = '\x60' :: rest := by
  simp only [callExpression, if_pos h, String.toList_append, List.append_assoc]
  exact ⟨_, rfl⟩

theorem callExpression_of_not_debug {o : Options} (h : ¬ o.debug = true) (id text : String)
    (params : List Param) :
    ∃ rest, (callExpression id text params o).toList = o.runtimeId.toList ++ '.' :: rest := by
  obtain ⟨after, hcall⟩ := plainCall_eq id text params o
  simp only [callExpression, if_neg h, hcall, String.toList_append, List.append_assoc]
  exact ⟨_, rfl⟩

/-! ### Reading what stands in front -/

namespace Script.Lead

/-- A lead is read as such in front of a gap and a call, unless the call runs into the word. -/
theorem kindAt_iff {o : Options} (hid : isIdentifier o.runtimeId.toList = true)
    (hascii : ∀ x ∈ o.runtimeId.toList, Text.isAscii x = true) (lead : Lead) {gap : List Char}
    (hgap : ∀ x ∈ gap.head?, isSpace x = true ∨ x = '/') (front back : List Char)
    (id text : String) (params : List Param) :
    kindAt front (lead.spelling ++ (gap ++ ((callExpression id text params o).toList ++ back))) =
      lead.kind ↔ lead = .arrow ∨ o.debug = true ∨ gap ≠ [] := by
  cases lead with
  | arrow => exact iff_of_true (Script.kindAt_arrow front _) (.inl rfl)
  | returnWord =>
    simp only [reduceCtorEq, false_or]
    -- without a gap the first character of the call decides: a backquote ends the word, a name
    -- prolongs it
    by_cases hne : gap = []
    · subst hne
      by_cases hdebug : o.debug = true
      · obtain ⟨rest, hcall⟩ := callExpression_of_debug hdebug id text params
        refine iff_of_true (Script.kindAt_return front ?_) (.inl hdebug)
        rw [hcall]
        intro x hx
        obtain rfl : '\x60' = x := by simpa using hx
        decide
      · obtain ⟨rest, hcall⟩ := callExpression_of_not_debug hdebug id text params
        have hstops : StopsWord ('.' :: (rest ++ back)) := by
          intro x hx
          obtain rfl : '.' = x := by simpa using hx
          decide
        have hnil : o.runtimeId.toList ≠ [] := by
          intro h
          rw [h] at hid
          simp [isIdentifier] at hid
        have hread := Script.kindAt_return_append_ne front hnil
          (isIdentifierPart_of_isIdentifier hid hascii) hstops
        refine iff_of_false ?_ (by simp [hdebug])
        rw [hcall, List.nil_append, List.append_assoc, List.cons_append, ← List.append_assoc]
        exact hread
    · exact iff_of_true (Script.kindAt_return front (Script.stopsWord_gap hne hgap)) (.inr hne)

end Script.Lead

/-! ### The place of a call -/

/-- The text of an edit in the new text, when no other edit reaches into what stands in front of
it: behind that, which is kept. -/
theorem exists_outputFrom_eq {edits : List Edit} {cs : List Char} (h : Applicable edits cs)
    {e : Edit} (he : e ∈ edits) {before lead old after : List Char}
    (hcs : cs = before ++ (lead ++ (old ++ after))) (hlead : lead ≠ []) (hold : old ≠ [])
    (hstart : e.start = byteLength before + byteLength lead)
    (hstop : e.stop = e.start + byteLength old)
    (hapart : ∀ x ∈ edits, x.stop ≤ byteLength before ∨ (e.start ≤ x.start ∧ e.start < x.stop)) :
    ∃ front back, outputFrom edits 0 cs = front ++ (lead ++ (e.text.toList ++ back)) := by
  obtain ⟨c, ds, rfl⟩ := List.exists_cons_of_ne_nil hlead
  obtain ⟨d, ds', rfl⟩ := List.exists_cons_of_ne_nil hold
  have hc := c.utf8Size_pos
  have hd := d.utf8Size_pos
  simp only [byteLength] at hstart hstop
  have hfirst : ∀ x ∈ edits, x.stop ≤ byteLength before ∨ byteLength before < x.start :=
    fun x hx => by have := hapart x hx; omega
  have hbetween : ∀ x ∈ edits, x.stop ≤ byteLength before ∨ e.start ≤ x.start :=
    fun x hx => by have := hapart x hx; omega
  have hinsert : ∀ x ∈ edits, x.start ≠ e.start ∨ x.stop ≠ e.start :=
    fun x hx => by have := hapart x hx; omega
  have hcovers : covers edits e.start = true := by
    refine List.any_eq_true.mpr ⟨e, he, ?_⟩
    simp only [Bool.and_eq_true, decide_eq_true_eq]
    omega
  -- what is in front of the lead and behind the old text is whatever the other edits make of it
  refine ⟨outputFrom edits 0 before, outputFrom edits (e.start + d.utf8Size) (ds' ++ after), ?_⟩
  rw [hcs, List.cons_append, Splice.outputFrom_append_cons, Nat.zero_add,
    Splice.replacementAt_eq_nil hfirst, keptAt, Splice.covers_eq_false hfirst,
    Splice.outputFrom_append_of_apart hbetween (by omega) (by omega), List.cons_append,
    outputFrom, Splice.insertedAt_eq_nil hinsert, Splice.replacementAt_of_mem h he (by omega),
    keptAt, hcovers]
  simp

/-- Every member of the first of two lists has one of the second at its side. -/
theorem exists_of_forall₂ {α β : Type} {R : α → β → Prop} {as : List α} {bs : List β}
    (h : List.Forall₂ R as bs) {a : α} (ha : a ∈ as) : ∃ b, R a b := by
  induction h with
  | nil => simp at ha
  | @cons x y xs ys hxy hrest ih =>
    rcases List.mem_cons.mp ha with rfl | ha
    · exact ⟨y, hxy⟩
    · exact ih ha

/-- A method that returns a text directly behind the word. -/
def tightReturn : String := "const m = \x7b d() \x7b return\"Yo\"; \x7d \x7d;"

set_option maxRecDepth 100000 in
theorem prepare_tightReturn : (prepare tightReturn "a.ts" {}).candidates =
    [⟨.method, "d", "Yo", 24, 28, [], none, 1, 13⟩] := by
  decide +kernel

/-- The word stands in front of its text only once, and directly so. -/
theorem gap_tightReturn {before gap rest : List Char}
    (hsource : tightReturn.toList = before ++ ("return".toList ++ gap ++ rest))
    (hstart : 24 = byteLength before + byteLength ("return".toList ++ gap)) : gap = [] := by
  have hends : ((Splice.splitBytes 24 tightReturn.toList).1.tails.all fun t =>
      !"return".toList.isPrefixOf t || t == "return".toList) = true := by
    decide +kernel
  have hsplit := Splice.splitBytes_byteLength (before ++ ("return".toList ++ gap)) rest
  rw [List.append_assoc, ← hsource, Text.byteLength_append, ← hstart] at hsplit
  rw [hsplit] at hends
  have hend := List.all_eq_true.mp hends ("return".toList ++ gap)
    ((List.mem_tails _ _).mpr (List.suffix_append _ _))
  have hbegins : "return".toList.isPrefixOf ("return".toList ++ gap) = true :=
    List.isPrefixOf_iff_prefix.mpr (List.prefix_append _ _)
  rw [hbegins, Bool.not_true, Bool.false_or, beq_iff_eq] at hend
  exact List.append_right_eq_self.mp hend

/-- The functions in object literals of a text that do nothing but return something. -/
def returningFunctions (text : String) : Option Nat :=
  (Script.parse false text.toList).toOption.map fun m =>
    ((objectsOf m.items).flatMap (·.parts)).countP fun n => (Collect.functionProperty? n).isSome

end Phrasebook
