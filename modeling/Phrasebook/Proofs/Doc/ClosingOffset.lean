import Phrasebook.Proofs.Doc.Braces
import Phrasebook.Text.Utf8
import Mathlib.Order.Bounds.Defs

/-!
# The place of a closing brace

`closingOffset` walks through a text, counts the open braces and the bytes that it has passed, and
ends at the brace that brings the count down to none. A closing brace while none is open would be a
fault. The count is always one more than the depth of `closingBrace`, so there is no fault, and the
place that is found is the end of the text that `closingBrace` cuts off (`closingOffset_eq`). So it
is the one place where a closing brace stands behind balanced braces (`closesAt_iff`), and the text
can be cut in front of it and behind it (`slice?_closing`).
-/

namespace Phrasebook.ParamDoc

open Text (byteLength byteLength_append slice? slice?_append)

/-- A closing brace while no brace is open. -/
structure NoneOpen
deriving DecidableEq, Repr

/-- The offset of the brace that closes the last of `count` open ones, where the text begins at the
byte `offset`. -/
def closingOffset (offset count : Nat) : List Char → Except NoneOpen (Option Nat)
  | [] => .ok none
  | c :: cs =>
    if c = '\x7b' then closingOffset (offset + c.utf8Size) (count + 1) cs
    else if c = '\x7d' then
      if count = 0 then .error {}
      else if count - 1 = 0 then .ok (some offset)
      else closingOffset (offset + c.utf8Size) (count - 1) cs
    else closingOffset (offset + c.utf8Size) count cs

/-- At the byte `i` stands a closing brace, and the braces in front of it are balanced. -/
def ClosesAt (cs : List Char) (i : Nat) : Prop :=
  ∃ front behind, cs = front ++ '\x7d' :: behind ∧ byteLength front = i ∧ Balanced front

variable {cs front behind : List Char} {i : Nat}

theorem closingOffset_succ (offset depth : Nat) (cs : List Char) :
    closingOffset offset (depth + 1) cs =
      .ok ((closingBrace depth cs).map fun found => offset + byteLength found.1) := by
  -- the same characters are passed, each of which moves the offset by its bytes
  fun_induction closingBrace depth cs generalizing offset with
  | case1 => rfl
  | case2 depth cs ih =>
    rw [closingOffset, if_pos rfl, ih]
    simp [Function.comp_def, byteLength, Nat.add_assoc]
  | case3 cs => simp [closingOffset, byteLength]
  | case4 cs depth hne ih =>
    rw [closingOffset, if_neg hne, if_pos rfl, if_neg (Nat.succ_ne_zero _),
      Nat.add_sub_cancel, if_neg (Nat.succ_ne_zero _), ih]
    simp [Function.comp_def, byteLength, Nat.add_assoc]
  | case5 depth c cs ho hc ih =>
    rw [closingOffset, if_neg ho, if_neg hc, ih]
    simp [Function.comp_def, byteLength, Nat.add_assoc]

/-- Nothing that is open is closed twice: the count does not fall below zero. -/
theorem closingOffset_eq (cs : List Char) :
    closingOffset 0 1 cs = .ok ((closingBrace 0 cs).map fun found => byteLength found.1) := by
  rw [closingOffset_succ]
  simp only [Nat.zero_add]

theorem balanced_iff :
    Balanced front ↔ front.count '\x7d' = front.count '\x7b' + 0 ∧ StaysOpen 0 front :=
  ⟨fun h => ⟨h.count, h.staysOpen⟩, fun h => ⟨h.1, h.2⟩⟩

/-- There is at most one such place, and it is the one that is found. -/
theorem closesAt_iff : ClosesAt cs i ↔
    (closingBrace 0 cs).map (fun found => byteLength found.1) = some i := by
  rw [Option.map_eq_some_iff]
  constructor
  · rintro ⟨front, behind, heq, hlength, hbalanced⟩
    exact ⟨(front, behind), closingBrace_eq_some_iff.mpr ⟨heq, balanced_iff.mp hbalanced⟩, hlength⟩
  · rintro ⟨⟨front, behind⟩, hfound, hlength⟩
    obtain ⟨heq, hbalanced⟩ := closingBrace_eq_some_iff.mp hfound
    exact ⟨front, behind, heq, hlength, balanced_iff.mpr hbalanced⟩

theorem isLeast_closesAt_iff : IsLeast {j | ClosesAt cs j} i ↔ ClosesAt cs i := by
  constructor
  · intro h
    exact h.1
  · intro h
    refine ⟨h, fun j hj => ?_⟩
    have hsome := (closesAt_iff.mp h).symm.trans (closesAt_iff.mp hj)
    exact (Option.some.inj hsome).le

/-- The brace has one byte, so that the text can be cut on both sides of it. -/
theorem slice?_closing (front behind : List Char) :
    slice? (front ++ '\x7d' :: behind) 0 (byteLength front) = some front ∧
      slice? (front ++ '\x7d' :: behind) (byteLength front + 1)
        (byteLength (front ++ '\x7d' :: behind)) = some behind := by
  constructor
  · have hfront := slice?_append [] front ('\x7d' :: behind)
    simpa [byteLength] using hfront
  · have hbrace : byteLength (front ++ ['\x7d']) = byteLength front + 1 := by
      rw [byteLength_append]
      rfl
    have hbehind := slice?_append (front ++ ['\x7d']) behind []
    rw [← byteLength_append, hbrace] at hbehind
    simpa using hbehind

/-- Where the body of a parameter begins with a brace, its type ends at the least offset of a brace
that closes it, and what follows begins behind that brace. -/
theorem closingOffset_isLeast (cs : List Char) :
    closingOffset 0 1 cs = .ok ((closingBrace 0 cs).map fun found => byteLength found.1) ∧
    (∀ i, closingOffset 0 1 cs = .ok (some i) ↔ IsLeast {j | ClosesAt cs j} i) ∧
    (closingOffset 0 1 cs = .ok none ↔ ∀ i, ¬ClosesAt cs i) ∧
    ∀ body, Text.trim body = '\x7b' :: cs →
      (∀ i, closingOffset 0 1 cs = .ok (some i) → ∃ type after,
        slice? cs 0 i = some type ∧ slice? cs (i + 1) (byteLength cs) = some after ∧
          parse body = ofRest? (nonempty (Text.trim type)) (Text.trimStart after)) ∧
      (closingOffset 0 1 cs = .ok none → parse body = none) := by
  have hsearch := closingOffset_eq cs
  refine ⟨hsearch, fun i => ?_, ?_, fun body hbody => ⟨fun i hi => ?_, fun hnone => ?_⟩⟩
  · rw [hsearch, Except.ok.injEq, isLeast_closesAt_iff, closesAt_iff]
  · simp only [hsearch, Except.ok.injEq, closesAt_iff]
    exact Option.eq_none_iff_forall_ne_some
  · rw [hsearch, Except.ok.injEq] at hi
    obtain ⟨⟨type, after⟩, hfound, rfl⟩ := Option.map_eq_some_iff.mp hi
    obtain ⟨rfl, -⟩ := closingBrace_eq_some_iff.mp hfound
    obtain ⟨hfront, hbehind⟩ := slice?_closing type after
    refine ⟨type, after, hfront, hbehind, ?_⟩
    rw [parse, hbody]
    simp only [hfound, Option.bind_some]
  · rw [hsearch, Except.ok.injEq, Option.map_eq_none_iff] at hnone
    rw [parse, hbody]
    simp only [hnone, Option.bind_none]

/-- A type with braces of its own and a character of two bytes. -/
theorem closingOffset_isLeast_nested :
    let cs := " \x7bé\x7d \x7d name".toList
    IsLeast {j | ClosesAt cs j} 6 ∧
      ∃ type after, slice? cs 0 6 = some type ∧ slice? cs 7 (byteLength cs) = some after ∧
        parse " \x7b \x7bé\x7d \x7d name".toList =
          ofRest? (nonempty (Text.trim type)) (Text.trimStart after) := by
  intro cs
  have hbody : Text.trim " \x7b \x7bé\x7d \x7d name".toList = '\x7b' :: cs := by decide
  have hfound : closingOffset 0 1 cs = .ok (some 6) := by rfl
  obtain ⟨-, hleast, -, hparse⟩ := closingOffset_isLeast cs
  exact ⟨(hleast 6).mp hfound, (hparse _ hbody).1 6 hfound⟩

end Phrasebook.ParamDoc
