import Phrasebook.Proofs.Slice
import Phrasebook.Proofs.Splice.Kept

/-!
# The text in front of a function

The comments that belong to a function are searched for in the text between it and what stands in
front of its property: the brace, or the property before, of which the line is left out. `docOf_eq`
says so without places. So what the search finds after some edits depends on this text with the
edits in it (`front_outputFrom`), and on nothing else of the new text.
-/

namespace Phrasebook

open Splice (insertedAt outputFrom)
open Text (byteLength slice? slice?_append)

/-! ### Slices -/

theorem slice?_of_lt {cs : List Char} {lo hi : Nat} (h : hi < lo) : slice? cs lo hi = none :=
  if_neg (Nat.not_le.mpr h)

/-- A slice without bytes. -/
theorem slice?_self (cs : List Char) (n : Nat) : (slice? cs n n).getD [] = [] := by
  rw [slice?, if_pos (Nat.le_refl n), Nat.sub_self]
  cases Text.dropBytes? n cs with
  | none => rfl
  | some rest => cases rest <;> rfl

namespace Collect

/-! ### What is searched -/

/-- The text up to byte `stop` from the end of the property before, or from behind the brace. -/
def front (source : List Char) (previousEnd : Option Nat) (brace stop : Nat) : List Char :=
  (slice? source (previousEnd.getD (brace + 1)) stop).getD []

/-- The part of the text in front of a function in which its comments are searched for. -/
def searched (hasPrevious : Bool) (front : List Char) : List Char :=
  if hasPrevious then (front.dropWhile (· != '\n')).drop 1 else front

theorem searched_eq (source : List Char) (previousEnd : Option Nat) (brace stop : Nat) :
    (slice? source (rawStart source previousEnd brace stop) stop).getD [] =
      searched previousEnd.isSome (front source previousEnd brace stop) := by
  cases previousEnd with
  | none =>
    rcases Nat.lt_or_ge stop (brace + 1) with hlt | hle
    · rw [rawStart, Nat.min_eq_right (Nat.le_of_lt hlt), slice?_self, searched, front,
        Option.getD_none, slice?_of_lt hlt]
      rfl
    · rw [rawStart, Nat.min_eq_left hle]
      rfl
  | some e =>
    cases hbetween : slice? source e stop with
    | none =>
      simp only [rawStart, searched, front, Option.getD_some, hbetween, slice?_self]
      rfl
    | some between =>
      obtain ⟨before, after, rfl, rfl, rfl⟩ := Text.exists_of_slice? hbetween
      simp only [rawStart, searched, front, Option.getD_some, hbetween, Option.isSome_some, if_true]
      rcases Text.line_cases between with ⟨htake, hdrop⟩ | ⟨line, rest, rfl, htake, hdrop⟩
      · rw [htake, hdrop, if_neg (Nat.lt_irrefl _), slice?_self]
        rfl
      · -- what is searched begins behind the line feed
        have hsource : before ++ ((line ++ '\n' :: rest) ++ after) =
            (before ++ (line ++ ['\n'])) ++ (rest ++ after) := by simp
        have hstart : byteLength (before ++ (line ++ ['\n'])) =
            byteLength before + byteLength line + 1 := by
          rw [Text.byteLength_append, Text.byteLength_append, Nat.add_assoc]
          rfl
        have hbytes : byteLength (line ++ '\n' :: rest) =
            byteLength line + (1 + byteLength rest) := Text.byteLength_append line _
        have hlt : line.length < (line ++ '\n' :: rest).length := by simp
        rw [htake, hdrop, if_pos hlt, Nat.min_eq_left (by omega), hsource, ← hstart,
          show byteLength before + byteLength (line ++ '\n' :: rest) =
            byteLength (before ++ (line ++ ['\n'])) + byteLength rest by omega, slice?_append]
        rfl

theorem docOf_eq (m : Script.Module) (source : List Char) (previousEnd : Option Nat)
    (brace propertyLo functionLo : Nat) :
    docOf m source previousEnd brace propertyLo functionLo =
      DocLookup.resolve [m.leadingAt propertyLo, m.leadingAt functionLo]
        (searched previousEnd.isSome
          (front source previousEnd brace (max functionLo propertyLo))) := by
  rw [docOf, searched_eq]

end Collect

/-! ### After edits -/

/-- A place of a text and where it has got to by edits, none of which inserts anything there. -/
def Moves (edits : List Edit) (source : List Char) (place place' : Nat) : Prop :=
  insertedAt edits place = [] ∧ ∃ before, before <+: source ∧ byteLength before = place ∧
    byteLength (outputFrom edits 0 before) = place'

theorem Splice.outputFrom_nil (k : Nat) (cs : List Char) : outputFrom [] k cs = cs := by
  induction cs generalizing k with
  | nil => rfl
  | cons c cs ih =>
    rw [outputFrom, ih]
    rfl

/-- A text stays when no edit reaches into it and nothing is inserted at its ends. -/
theorem outputFrom_of_apart {edits : List Edit} {k : Nat} {cs : List Char}
    (hlo : insertedAt edits k = []) (hhi : insertedAt edits (k + byteLength cs) = [])
    (h : ∀ e ∈ edits, e.stop ≤ k ∨ k + byteLength cs ≤ e.start) :
    outputFrom edits k cs = cs := by
  cases cs with
  | nil => exact hlo
  | cons c cs =>
    have hpos := c.utf8Size_pos
    rw [byteLength, ← Nat.add_assoc] at hhi
    simp only [byteLength, ← Nat.add_assoc] at h
    have hpast : ∀ e ∈ edits, e.stop ≤ k ∨ k < e.start := fun e he => by have := h e he; omega
    have hrest : outputFrom edits (k + c.utf8Size) (cs ++ []) =
        cs ++ outputFrom edits (k + c.utf8Size + byteLength cs) [] :=
      Splice.outputFrom_append_of_apart h (Nat.lt_add_of_pos_right hpos) rfl
    rw [List.append_nil, outputFrom, hhi, List.append_nil] at hrest
    rw [outputFrom, hlo, Splice.replacementAt_eq_nil hpast, Splice.keptAt,
      Splice.covers_eq_false hpast, hrest]
    rfl

theorem outputFrom_append_of_insertedAt {edits : List Edit} {k : Nat} {before : List Char}
    (h : insertedAt edits (k + byteLength before) = []) (rest : List Char) :
    outputFrom edits k (before ++ rest) =
      outputFrom edits k before ++ outputFrom edits (k + byteLength before) rest := by
  induction before generalizing k with
  | nil =>
    rw [byteLength, Nat.add_zero] at h
    rw [outputFrom, h]
    rfl
  | cons c cs ih =>
    rw [byteLength, ← Nat.add_assoc] at h
    simp only [List.cons_append, outputFrom, ih h, byteLength, List.append_assoc, Nat.add_assoc]

theorem Moves.le {edits : List Edit} {source : List Char} {a a' b b' : Nat}
    (ha : Moves edits source a a') (hb : Moves edits source b b') (h : a ≤ b) : a' ≤ b' := by
  obtain ⟨hinserted, before, hbefore, rfl, rfl⟩ := ha
  obtain ⟨-, longer, hlonger, rfl, rfl⟩ := hb
  obtain ⟨rest, rfl⟩ := Text.prefix_of_byteLength_le hbefore hlonger h
  rw [outputFrom_append_of_insertedAt (by rwa [Nat.zero_add]), Text.byteLength_append]
  exact Nat.le_add_right _ _

/-- The new text between two places is the old one with the edits in it. -/
theorem front_outputFrom {edits : List Edit} {source : List Char} {a a' b b' : Nat}
    (ha : Moves edits source a a') (hb : Moves edits source b b') :
    (slice? (outputFrom edits 0 source) a' b').getD [] =
      outputFrom edits a ((slice? source a b).getD []) := by
  rcases Nat.lt_or_ge b a with hlt | hle
  · rw [slice?_of_lt hlt, Option.getD_none, outputFrom, ha.1]
    -- places in the wrong order have nothing between them, and they stay so or meet
    rcases Nat.lt_or_ge b' a' with hlt' | hle'
    · rw [slice?_of_lt hlt']
      rfl
    · rw [Nat.le_antisymm hle' (hb.le ha (Nat.le_of_lt hlt)), slice?_self]
  · obtain ⟨hinserted, before, hbefore, rfl, rfl⟩ := ha
    obtain ⟨hinserted', longer, hlonger, rfl, rfl⟩ := hb
    obtain ⟨middle, rfl⟩ := Text.prefix_of_byteLength_le hbefore hlonger hle
    obtain ⟨after, rfl⟩ := hlonger
    rw [Text.byteLength_append] at hinserted' ⊢
    have hsplit (rest : List Char) : outputFrom edits 0 (before ++ rest) =
        outputFrom edits 0 before ++ outputFrom edits (byteLength before) rest := by
      rw [outputFrom_append_of_insertedAt (by rwa [Nat.zero_add]), Nat.zero_add]
    rw [List.append_assoc, slice?_append, Option.getD_some, hsplit, hsplit,
      outputFrom_append_of_insertedAt hinserted', Text.byteLength_append, slice?_append]
    rfl

end Phrasebook
