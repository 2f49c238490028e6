import Phrasebook.Glob
import Mathlib.Data.List.Infix

/-!
# What patterns accept

A pattern whose only wildcards are two stars and a star in front accepts the texts with one end
(`matchesFrom_anywhere_ending`), and one with a name between two stars on either side accepts the
texts in which something lies below that name (`matchesFrom_anywhere_below`).
-/

namespace Phrasebook.Glob

/-! ### Parts of patterns -/

theorem anyEnd_iff {p : List Char → Bool} {cs : List Char} :
    anyEnd p cs = true ↔ ∃ rest, rest <:+ cs ∧ p rest = true := by
  induction cs with
  | nil => simp [anyEnd]
  | cons c cs ih =>
    simp only [anyEnd, Bool.or_eq_true, ih, List.suffix_cons_iff, or_and_right, exists_or,
      exists_eq_left]

theorem anyAfterSlash_iff {p : List Char → Bool} {cs : List Char} :
    anyAfterSlash p cs = true ↔ ∃ rest, '/' :: rest <:+ cs ∧ p rest = true := by
  induction cs with
  | nil => simp [anyAfterSlash]
  | cons c cs ih =>
    simp only [anyAfterSlash, Bool.or_eq_true, Bool.and_eq_true, beq_iff_eq, ih,
      List.suffix_cons_iff, List.cons.injEq, or_and_right, exists_or]
    refine or_congr ⟨fun ⟨hc, hp⟩ => ⟨cs, ⟨hc.symm, rfl⟩, hp⟩, ?_⟩ Iff.rfl
    rintro ⟨rest, ⟨hc, rfl⟩, hp⟩
    exact ⟨hc.symm, hp⟩

theorem matchesFrom_chars {text : List Char} {ts : List Token} {cs : List Char} :
    matchesFrom (text.map .char ++ ts) cs = true ↔
      ∃ rest, cs = text ++ rest ∧ matchesFrom ts rest = true := by
  induction text generalizing cs with
  | nil => simp
  | cons x text ih =>
    rw [List.map_cons, List.cons_append]
    cases cs with
    | nil => simp [matchesFrom]
    | cons c cs =>
      have hstep : matchesFrom (.char x :: (text.map .char ++ ts)) (c :: cs) = true ↔
          x = c ∧ matchesFrom (text.map .char ++ ts) cs = true := by
        change (x == c && matchesFrom (text.map .char ++ ts) cs) = true ↔ _
        rw [Bool.and_eq_true, beq_iff_eq]
      rw [hstep, ih]
      constructor
      · rintro ⟨rfl, rest, rfl, hrest⟩
        exact ⟨rest, rfl, hrest⟩
      · rintro ⟨rest, hcs, hrest⟩
        obtain ⟨rfl, rfl⟩ := List.cons.inj hcs
        exact ⟨rfl, rest, rfl, hrest⟩

theorem matchesFrom_anyText {ts : List Token} {cs : List Char} :
    matchesFrom (.anyText :: ts) cs = true ↔ ∃ rest, rest <:+ cs ∧ matchesFrom ts rest = true := by
  rw [matchesFrom, anyEnd_iff]

theorem matchesFrom_anyComponents {ts : List Token} {cs : List Char} :
    matchesFrom (.anyComponents :: ts) cs = true ↔ matchesFrom ts cs = true ∨
      (∃ rest, '/' :: rest <:+ cs ∧ matchesFrom ts rest = true) ∨ matchesFrom ts [] = true := by
  rw [matchesFrom, Bool.or_eq_true, Bool.or_eq_true, anyAfterSlash_iff, or_assoc]

/-! ### Whole patterns -/

theorem matchesFrom_ending {ending cs : List Char} :
    matchesFrom (.anyText :: ending.map .char) cs = true ↔ ending <:+ cs := by
  have hchars {rest : List Char} :
      matchesFrom (ending.map .char) rest = true ↔ rest = ending := by
    have h := @matchesFrom_chars ending [] rest
    simpa [matchesFrom] using h
  simp only [matchesFrom_anyText, hchars, exists_eq_right]

/-- A text accepted behind a slash has the same end as a whole. -/
theorem matchesFrom_anywhere_ending {ending cs : List Char} (hne : ending ≠ []) :
    matchesFrom (.anyComponents :: .anyText :: ending.map .char) cs = true ↔ ending <:+ cs := by
  rw [matchesFrom_anyComponents]
  simp only [matchesFrom_ending, List.suffix_nil, hne, or_false, or_iff_left_iff_imp]
  rintro ⟨rest, hrest, hending⟩
  exact hending.trans ((List.suffix_cons _ _).trans hrest)

/-- Something in the text lies below a component of this name. -/
def IsBelow (name cs : List Char) : Prop :=
  name ++ ['/'] <+: cs ∨ '/' :: name ++ ['/'] <:+: cs

theorem matchesFrom_anywhere_below {name cs : List Char} :
    matchesFrom (.anyComponents :: ((name ++ ['/']).map .char ++ [.anyComponents])) cs = true ↔
      IsBelow name cs := by
  have hbelow {rest : List Char} :
      matchesFrom ((name ++ ['/']).map .char ++ [.anyComponents]) rest = true ↔
        name ++ ['/'] <+: rest := by
    rw [matchesFrom_chars]
    simp [matchesFrom, List.IsPrefix, eq_comm]
  rw [matchesFrom_anyComponents, hbelow]
  simp only [hbelow, List.prefix_nil, List.append_eq_nil_iff, List.cons_ne_nil, and_false,
    or_false]
  refine or_congr Iff.rfl ⟨?_, ?_⟩
  · rintro ⟨rest, ⟨front, rfl⟩, after, rfl⟩
    exact ⟨front, after, by simp⟩
  · rintro ⟨front, after, rfl⟩
    exact ⟨name ++ ['/'] ++ after, ⟨front, by simp⟩, after, rfl⟩

end Phrasebook.Glob
