import Phrasebook.Doc.Param
import Mathlib.Data.List.Infix
import Mathlib.Tactic.Common

/-!
# Braces that close

An open brace stays open in a text as long as no beginning of the text closes more braces than it
opens. `closingBrace` counts the open ones on the way. It finds the first brace in front of which
all others have been closed again (`closingBrace_eq_some_iff`), and nothing exactly if the open
brace stays open to the end (`closingBrace_eq_none_iff`).
-/

namespace Phrasebook.ParamDoc

/-- No beginning of the text closes more than `depth` braces that it has not opened. -/
def StaysOpen (depth : Nat) (cs : List Char) : Prop :=
  ∀ p, p <+: cs → p.count '\x7d' ≤ p.count '\x7b' + depth

/-- Every brace of the text has its partner in it. -/
structure Balanced (cs : List Char) : Prop where
  count : cs.count '\x7d' = cs.count '\x7b'
  staysOpen : StaysOpen 0 cs

instance (depth : Nat) (cs : List Char) : Decidable (StaysOpen depth cs) :=
  decidable_of_iff (∀ p ∈ cs.inits, p.count '\x7d' ≤ p.count '\x7b' + depth)
    (by simp only [StaysOpen, List.mem_inits])

instance (cs : List Char) : Decidable (Balanced cs) :=
  decidable_of_iff (cs.count '\x7d' = cs.count '\x7b' ∧ StaysOpen 0 cs)
    ⟨fun h => ⟨h.1, h.2⟩, fun h => ⟨h.count, h.staysOpen⟩⟩

/-! ### One character -/

section Step

variable {depth : Nat} {c : Char} {cs : List Char}

theorem staysOpen_nil : StaysOpen depth [] := by
  intro p hp
  rw [List.prefix_nil.mp hp]
  exact Nat.zero_le _

theorem staysOpen_cons : StaysOpen depth (c :: cs) ↔
    ∀ p, p <+: cs → (c :: p).count '\x7d' ≤ (c :: p).count '\x7b' + depth := by
  constructor
  · exact fun h p hp => h (c :: p) (List.cons_prefix_cons.mpr ⟨rfl, hp⟩)
  · intro h p hp
    rcases List.prefix_cons_iff.mp hp with rfl | ⟨p', rfl, hp'⟩
    · exact Nat.zero_le _
    · exact h p' hp'

theorem staysOpen_open : StaysOpen depth ('\x7b' :: cs) ↔ StaysOpen (depth + 1) cs := by
  rw [staysOpen_cons, StaysOpen]
  refine forall_congr' fun p => imp_congr_right fun _ => ?_
  have hopen : ('\x7b' :: p).count '\x7b' = p.count '\x7b' + 1 := List.count_cons_self
  have hclose : ('\x7b' :: p).count '\x7d' = p.count '\x7d' := List.count_cons_of_ne (by decide)
  omega

theorem staysOpen_close : StaysOpen (depth + 1) ('\x7d' :: cs) ↔ StaysOpen depth cs := by
  rw [staysOpen_cons, StaysOpen]
  refine forall_congr' fun p => imp_congr_right fun _ => ?_
  have hopen : ('\x7d' :: p).count '\x7b' = p.count '\x7b' := List.count_cons_of_ne (by decide)
  have hclose : ('\x7d' :: p).count '\x7d' = p.count '\x7d' + 1 := List.count_cons_self
  omega

theorem not_staysOpen_close : ¬StaysOpen 0 ('\x7d' :: cs) := by
  intro h
  have := h ['\x7d'] (List.cons_prefix_cons.mpr ⟨rfl, List.nil_prefix⟩)
  simp at this

theorem staysOpen_other (ho : c ≠ '\x7b') (hc : c ≠ '\x7d') :
    StaysOpen depth (c :: cs) ↔ StaysOpen depth cs := by
  rw [staysOpen_cons, StaysOpen]
  refine forall_congr' fun p => imp_congr_right fun _ => ?_
  rw [List.count_cons_of_ne ho, List.count_cons_of_ne hc]

end Step

/-! ### Finding the closing brace -/

section Closing

variable {depth : Nat} {cs a b : List Char}

/-- The count never falls below zero: there is a closing brace of an open one only if there is an
open one. -/
theorem closingBrace_eq_none_iff : closingBrace depth cs = none ↔ StaysOpen depth cs := by
  fun_induction closingBrace depth cs with
  | case1 => exact iff_of_true rfl staysOpen_nil
  | case2 depth cs ih => rw [Option.map_eq_none_iff, ih, staysOpen_open]
  | case3 cs => exact iff_of_false nofun not_staysOpen_close
  | case4 cs hne depth ih => rw [Option.map_eq_none_iff, ih, staysOpen_close]
  | case5 depth c cs ho hc ih => rw [Option.map_eq_none_iff, ih, staysOpen_other ho hc]

/-- In front of the brace that is found all braces are balanced, but for `depth` closing ones that
come without an open one. -/
theorem exists_of_closingBrace (h : closingBrace depth cs = some (a, b)) :
    cs = a ++ '\x7d' :: b ∧ a.count '\x7d' = a.count '\x7b' + depth ∧ StaysOpen depth a := by
  fun_induction closingBrace depth cs generalizing a b with
  | case1 => cases h
  -- a brace that opens: the one that closes it is read on the way
  | case2 depth cs ih =>
    obtain ⟨⟨a, b⟩, hrest, heq⟩ := Option.map_eq_some_iff.mp h
    obtain ⟨rfl, rfl⟩ := Prod.mk.inj heq
    obtain ⟨rfl, hcount, hopen⟩ := ih hrest
    refine ⟨rfl, ?_, staysOpen_open.mpr hopen⟩
    rw [List.count_cons_of_ne (by decide), List.count_cons_self]
    omega
  -- the brace that is looked for
  | case3 cs =>
    obtain ⟨rfl, rfl⟩ := Prod.mk.inj (Option.some.inj h)
    exact ⟨rfl, rfl, staysOpen_nil⟩
  | case4 cs hne depth ih =>
    obtain ⟨⟨a, b⟩, hrest, heq⟩ := Option.map_eq_some_iff.mp h
    obtain ⟨rfl, rfl⟩ := Prod.mk.inj heq
    obtain ⟨rfl, hcount, hopen⟩ := ih hrest
    refine ⟨rfl, ?_, staysOpen_close.mpr hopen⟩
    rw [List.count_cons_of_ne (by decide : '\x7d' ≠ '\x7b'), List.count_cons_self]
    omega
  | case5 depth c cs ho hc ih =>
    obtain ⟨⟨a, b⟩, hrest, heq⟩ := Option.map_eq_some_iff.mp h
    obtain ⟨rfl, rfl⟩ := Prod.mk.inj heq
    obtain ⟨rfl, hcount, hopen⟩ := ih hrest
    refine ⟨rfl, ?_, (staysOpen_other ho hc).mpr hopen⟩
    rw [List.count_cons_of_ne hc, List.count_cons_of_ne ho]
    exact hcount

/-- In front of a brace that closes what is open, no text goes on in which it stays open. -/
theorem prefix_of_staysOpen {a' b' : List Char} (heq : a ++ '\x7d' :: b = a' ++ '\x7d' :: b')
    (hcount : a.count '\x7d' = a.count '\x7b' + depth) (hopen : StaysOpen depth a') : a' <+: a := by
  rcases List.append_eq_append_iff.mp heq with ⟨d, rfl, hd⟩ | ⟨d, rfl, -⟩
  · cases d with
    | nil => rw [List.append_nil]
    | cons c d =>
      obtain ⟨rfl, -⟩ := List.cons.inj hd
      have := hopen (a ++ ['\x7d']) ⟨d, by simp⟩
      simp [List.count_append] at this
      omega
  · exact List.prefix_append _ _

theorem closingBrace_eq_some_iff : closingBrace depth cs = some (a, b) ↔
    cs = a ++ '\x7d' :: b ∧ a.count '\x7d' = a.count '\x7b' + depth ∧ StaysOpen depth a := by
  refine ⟨exists_of_closingBrace, ?_⟩
  rintro ⟨rfl, hcount, hopen⟩
  cases hfind : closingBrace depth (a ++ '\x7d' :: b) with
  | none =>
    have hall := closingBrace_eq_none_iff.mp hfind
    have := hall (a ++ ['\x7d']) ⟨b, by simp⟩
    simp [List.count_append] at this
    omega
  | some found =>
    obtain ⟨a', b'⟩ := found
    obtain ⟨heq, hcount', hopen'⟩ := exists_of_closingBrace hfind
    have hprefix := prefix_of_staysOpen heq hcount hopen'
    obtain rfl := hprefix.eq_of_length_le (prefix_of_staysOpen heq.symm hcount' hopen).length_le
    rw [(List.cons.inj (List.append_cancel_left heq)).2]

theorem closingBrace_balanced (h : Balanced a) (b : List Char) :
    closingBrace 0 (a ++ '\x7d' :: b) = some (a, b) :=
  closingBrace_eq_some_iff.mpr ⟨rfl, h.count, h.staysOpen⟩

end Closing

end Phrasebook.ParamDoc
