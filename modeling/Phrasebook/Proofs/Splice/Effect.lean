import Phrasebook.Splice
import Phrasebook.Proofs.Mapping.Position
import Mathlib.Order.Basic
import Mathlib.Order.Nat

/-!
# What edits do, place by place

The effect of edits is said for each byte of a text on its own, whatever the order in which they
were asked for: what is inserted there, what replaces the range that begins there, whether the
character there goes. `outputFrom` puts this together to the new text and `expectedLinks` to the
links of all characters, each by the new text and the old text in front of it.

`linksFrom` finds the same links with two positions that move on from character to character
(`linksFrom_eq`). The rest are the laws by which both are taken apart: characters in front of all
edits are kept, an insertion comes first, a range turns into its new text.
-/

namespace Phrasebook.Splice

open Text (byteLength)
open Position (advance_nil advance_cons advance_append)

/-! ### Effects at a place -/

/-- What is inserted at a place, in the order in which it was asked for. -/
def insertedAt (edits : List Edit) (k : Nat) : List Char :=
  (edits.filter fun e => e.start == k && e.stop == k).flatMap (·.text.toList)

/-- What stands for the range that begins at a place. -/
def replacementAt (edits : List Edit) (k : Nat) : List Char :=
  (edits.filter fun e => e.start == k && decide (k < e.stop)).flatMap (·.text.toList)

/-- A range to be replaced begins at a place. -/
def begins (edits : List Edit) (k : Nat) : Bool :=
  edits.any fun e => e.start == k && decide (k < e.stop)

/-- A place lies in a range to be replaced. -/
def covers (edits : List Edit) (k : Nat) : Bool :=
  edits.any fun e => decide (e.start ≤ k) && decide (k < e.stop)

/-- What is left of the character at a place. -/
def keptAt (edits : List Edit) (k : Nat) (c : Char) : List Char :=
  if covers edits k then [] else [c]

/-- The character at a place has a link: it is kept and no line feed, or it is the first one of a
range. -/
def isLinked (edits : List Edit) (k : Nat) (c : Char) : Bool :=
  begins edits k || (!covers edits k && c != '\n')

/-- The new text for `cs`, which begin at byte `k`, with what is inserted behind them. -/
def outputFrom (edits : List Edit) (k : Nat) : List Char → List Char
  | [] => insertedAt edits k
  | c :: cs =>
    insertedAt edits k ++ replacementAt edits k ++ keptAt edits k c
      ++ outputFrom edits (k + c.utf8Size) cs

/-- The link of a character behind `before`: to where that ends from where its new text does. -/
def linkBehind (edits : List Edit) (before : List Char) : Mapping.Link :=
  ⟨Position.advance {} (outputFrom edits 0 before), Position.advance {} before⟩

/-- The links of all characters that follow `before`. -/
def expectedLinks (edits : List Edit) (before : List Char) : List Char → List Mapping.Link
  | [] => []
  | c :: cs =>
    (if isLinked edits (byteLength before) c then [linkBehind edits before] else [])
      ++ expectedLinks edits (before ++ [c]) cs

/-- The links of `cs` from two positions that move on. -/
def linksFrom (edits : List Edit) (generated source : Position) (k : Nat) :
    List Char → List Mapping.Link
  | [] => []
  | c :: cs =>
    let here := generated.advance (insertedAt edits k)
    (if isLinked edits k c then [⟨here, source⟩] else [])
      ++ linksFrom edits (here.advance (replacementAt edits k ++ keptAt edits k c))
        (source.advanceChar c) (k + c.utf8Size) cs

/-! ### Characters one by one -/

section Characters

variable {edits : List Edit}

theorem outputFrom_append_cons (k : Nat) (before : List Char) (c : Char) (rest : List Char) :
    outputFrom edits k (before ++ c :: rest) = outputFrom edits k before
      ++ replacementAt edits (k + byteLength before) ++ keptAt edits (k + byteLength before) c
      ++ outputFrom edits (k + byteLength before + c.utf8Size) rest := by
  induction before generalizing k with
  | nil => rfl
  | cons d ds ih =>
    rw [List.cons_append, outputFrom, ih, outputFrom]
    simp [byteLength, Nat.add_assoc]

/-- The moving positions are those behind the texts in front of each character. -/
theorem linksFrom_eq (before : List Char) {generated source : Position}
    (hg : generated.advance (insertedAt edits (byteLength before)) =
      Position.advance {} (outputFrom edits 0 before))
    (hs : source = Position.advance {} before) (cs : List Char) :
    linksFrom edits generated source (byteLength before) cs = expectedLinks edits before cs := by
  induction cs generalizing before generated source with
  | nil => rfl
  | cons c cs ih =>
    have hbytes : byteLength before + c.utf8Size = byteLength (before ++ [c]) := by
      simp [byteLength]
    rw [linksFrom, expectedLinks, hg, hs, hbytes, ih (before ++ [c])]
    · rfl
    · rw [outputFrom_append_cons, ← advance_append, ← hbytes, Nat.zero_add, outputFrom]
      simp only [List.append_assoc, advance_append]
    · rw [advance_append]
      rfl

theorem linksFrom_zero (edits : List Edit) (cs : List Char) :
    linksFrom edits {} {} 0 cs = expectedLinks edits [] cs :=
  linksFrom_eq [] rfl rfl cs

theorem le_of_mem_linksFrom {generated source : Position} {k : Nat} {cs : List Char}
    {l : Mapping.Link} (hl : l ∈ linksFrom edits generated source k cs) :
    generated.Le l.generated := by
  induction cs generalizing generated source k with
  | nil => simp [linksFrom] at hl
  | cons c cs ih =>
    have hhere := generated.le_advance (insertedAt edits k)
    rw [linksFrom] at hl
    rcases List.mem_append.mp hl with hl | hl
    · obtain ⟨-, rfl⟩ : isLinked edits k c = true ∧ l = _ := by simpa using hl
      exact hhere
    · exact (hhere.trans (Position.le_advance _ _)).trans (ih hl)

/-- Links stand in the order of the new text. -/
theorem pairwise_linksFrom (generated source : Position) (k : Nat) (cs : List Char) :
    (linksFrom edits generated source k cs).Pairwise (·.generated.Le ·.generated) := by
  induction cs generalizing generated source k with
  | nil => exact .nil
  | cons c cs ih =>
    rw [linksFrom]
    refine List.pairwise_append.mpr ⟨?_, ih _ _ _, fun a ha b hb => ?_⟩
    · split
      · exact List.pairwise_singleton _ _
      · exact .nil
    · obtain ⟨-, rfl⟩ : isLinked edits k c = true ∧ a = _ := by simpa using ha
      exact (Position.le_advance _ _).trans (le_of_mem_linksFrom hb)

end Characters

/-! ### Places that no edit touches -/

section Untouched

variable {edits : List Edit} {k : Nat}

theorem insertedAt_eq_nil (h : ∀ e ∈ edits, e.start ≠ k ∨ e.stop ≠ k) :
    insertedAt edits k = [] := by
  rw [insertedAt, List.filter_eq_nil_iff.mpr fun e he => by simpa [imp_iff_not_or] using h e he]
  rfl

variable (h : ∀ e ∈ edits, e.stop ≤ k ∨ k < e.start)
include h

theorem replacementAt_eq_nil : replacementAt edits k = [] := by
  have hnone : ∀ e ∈ edits, ¬ (e.start == k && decide (k < e.stop)) = true := by
    intro e he hpick
    simp only [Bool.and_eq_true, beq_iff_eq, decide_eq_true_eq] at hpick
    have := h e he
    omega
  rw [replacementAt, List.filter_eq_nil_iff.mpr hnone]
  rfl

theorem begins_eq_false : begins edits k = false := by
  refine List.any_eq_false.mpr fun e he hpick => ?_
  simp only [Bool.and_eq_true, beq_iff_eq, decide_eq_true_eq] at hpick
  have := h e he
  omega

theorem covers_eq_false : covers edits k = false := by
  refine List.any_eq_false.mpr fun e he hpick => ?_
  simp only [Bool.and_eq_true, decide_eq_true_eq] at hpick
  have := h e he
  omega

end Untouched

section Kept

variable {edits : List Edit}

/-- Characters in front of all edits stay. -/
theorem outputFrom_append_of_le {k : Nat} {before rest : List Char}
    (h : ∀ e ∈ edits, k + byteLength before ≤ e.start) :
    outputFrom edits k (before ++ rest) =
      before ++ outputFrom edits (k + byteLength before) rest := by
  induction before generalizing k with
  | nil => rfl
  | cons c cs ih =>
    have hpos := c.utf8Size_pos
    simp only [byteLength, ← Nat.add_assoc] at h
    have hlt : ∀ e ∈ edits, e.stop ≤ k ∨ k < e.start := fun e he => by have := h e he; omega
    have hne : ∀ e ∈ edits, e.start ≠ k ∨ e.stop ≠ k := fun e he => by have := h e he; omega
    rw [List.cons_append, outputFrom, insertedAt_eq_nil hne, replacementAt_eq_nil hlt, keptAt,
      covers_eq_false hlt, ih h]
    simp [byteLength, Nat.add_assoc]

theorem linksFrom_append_of_le {k : Nat} {before rest : List Char} (generated source : Position)
    (h : ∀ e ∈ edits, k + byteLength before ≤ e.start) :
    linksFrom edits generated source k (before ++ rest) = keptLinks generated source before
      ++ linksFrom edits (generated.advance before) (source.advance before)
        (k + byteLength before) rest := by
  induction before generalizing k generated source with
  | nil => rfl
  | cons c cs ih =>
    have hpos := c.utf8Size_pos
    simp only [byteLength, ← Nat.add_assoc] at h
    have hlt : ∀ e ∈ edits, e.stop ≤ k ∨ k < e.start := fun e he => by have := h e he; omega
    have hne : ∀ e ∈ edits, e.start ≠ k ∨ e.stop ≠ k := fun e he => by have := h e he; omega
    rw [List.cons_append, linksFrom, insertedAt_eq_nil hne, replacementAt_eq_nil hlt, keptAt,
      isLinked, begins_eq_false hlt, covers_eq_false hlt]
    simp only [Bool.false_or, Bool.not_false, Bool.true_and, Bool.false_eq_true, if_false,
      List.nil_append, advance_cons, advance_nil, ih _ _ h, keptLinks, byteLength, Nat.add_assoc]
    by_cases hc : c = '\n'
    · simp [hc]
    · simp [hc]

/-- Characters between two places stay when no edit reaches in between. -/
theorem outputFrom_append_of_apart {lo hi k : Nat} {cs rest : List Char}
    (h : ∀ e ∈ edits, e.stop ≤ lo ∨ hi ≤ e.start) (hlo : lo < k) (hhi : k + byteLength cs = hi) :
    outputFrom edits k (cs ++ rest) = cs ++ outputFrom edits hi rest := by
  induction cs generalizing k with
  | nil =>
    obtain rfl : k = hi := hhi
    rfl
  | cons c cs ih =>
    have hpos := c.utf8Size_pos
    simp only [byteLength, ← Nat.add_assoc] at hhi
    have hlt : ∀ e ∈ edits, e.stop ≤ k ∨ k < e.start := fun e he => by have := h e he; omega
    have hne : ∀ e ∈ edits, e.start ≠ k ∨ e.stop ≠ k := fun e he => by have := h e he; omega
    rw [List.cons_append, outputFrom, insertedAt_eq_nil hne, replacementAt_eq_nil hlt, keptAt,
      covers_eq_false hlt, ih (by omega) hhi]
    rfl

end Kept

/-! ### An edit is over behind its end -/

section Past

variable {edits : List Edit} {e : Edit} {k : Nat}

theorem insertedAt_cons_of_ne (h : e.start ≠ k ∨ e.stop ≠ k) :
    insertedAt (e :: edits) k = insertedAt edits k := by
  rw [insertedAt, List.filter_cons_of_neg (by simpa [imp_iff_not_or] using h)]
  rfl

variable (hstop : e.stop ≤ k)
include hstop

theorem replacementAt_cons_of_past : replacementAt (e :: edits) k = replacementAt edits k := by
  rw [replacementAt, List.filter_cons_of_neg (by simp [hstop])]
  rfl

theorem begins_cons_of_past : begins (e :: edits) k = begins edits k := by
  simp [begins, Nat.not_lt.mpr hstop]

theorem covers_cons_of_past : covers (e :: edits) k = covers edits k := by
  simp [covers, Nat.not_lt.mpr hstop]

variable (hstart : e.start < k)
include hstart

theorem outputFrom_cons_of_past (cs : List Char) :
    outputFrom (e :: edits) k cs = outputFrom edits k cs := by
  induction cs generalizing k with
  | nil => exact insertedAt_cons_of_ne (.inl hstart.ne)
  | cons c cs ih =>
    rw [outputFrom, outputFrom, insertedAt_cons_of_ne (.inl hstart.ne),
      replacementAt_cons_of_past hstop, keptAt, covers_cons_of_past hstop, ih (by omega) (by omega)]
    rfl

theorem linksFrom_cons_of_past (generated source : Position) (cs : List Char) :
    linksFrom (e :: edits) generated source k cs = linksFrom edits generated source k cs := by
  induction cs generalizing k generated source with
  | nil => rfl
  | cons c cs ih =>
    rw [linksFrom, linksFrom, insertedAt_cons_of_ne (.inl hstart.ne),
      replacementAt_cons_of_past hstop, isLinked, begins_cons_of_past hstop, keptAt,
      covers_cons_of_past hstop, ih (by omega) (by omega)]
    rfl

end Past

/-! ### An insertion comes first -/

section Insertion

variable {edits : List Edit} {e : Edit} {k : Nat} (hstart : e.start = k) (hstop : e.stop = k)
include hstart hstop

theorem insertedAt_cons_insertion :
    insertedAt (e :: edits) k = e.text.toList ++ insertedAt edits k := by
  rw [insertedAt, List.filter_cons_of_pos (by simp [hstart, hstop]), List.flatMap_cons]
  rfl

theorem outputFrom_cons_insertion (cs : List Char) :
    outputFrom (e :: edits) k cs = e.text.toList ++ outputFrom edits k cs := by
  cases cs with
  | nil => exact insertedAt_cons_insertion hstart hstop
  | cons c cs =>
    have hpos := c.utf8Size_pos
    rw [outputFrom, outputFrom, insertedAt_cons_insertion hstart hstop,
      replacementAt_cons_of_past hstop.le, keptAt, covers_cons_of_past hstop.le,
      outputFrom_cons_of_past (by omega) (by omega)]
    simp only [List.append_assoc, keptAt]

theorem linksFrom_cons_insertion (generated source : Position) (cs : List Char) :
    linksFrom (e :: edits) generated source k cs =
      linksFrom edits (generated.advance e.text.toList) source k cs := by
  cases cs with
  | nil => rfl
  | cons c cs =>
    have hpos := c.utf8Size_pos
    rw [linksFrom, linksFrom, insertedAt_cons_insertion hstart hstop,
      replacementAt_cons_of_past hstop.le, isLinked, begins_cons_of_past hstop.le,
      keptAt, covers_cons_of_past hstop.le, linksFrom_cons_of_past (by omega) (by omega),
      advance_append]
    rfl

end Insertion

/-! ### A range turns into its new text -/

section Range

variable {edits : List Edit} {e : Edit} {k : Nat}

theorem covers_cons_of_mem (hstart : e.start ≤ k) (hstop : k < e.stop) :
    covers (e :: edits) k = true := by
  simp [covers, hstart, hstop]

theorem begins_cons_of_eq (hstart : e.start = k) (hstop : k < e.stop) :
    begins (e :: edits) k = true := by
  simp [begins, hstart, hstop]

theorem replacementAt_cons_of_eq (hstart : e.start = k) (hstop : k < e.stop) :
    replacementAt (e :: edits) k = e.text.toList ++ replacementAt edits k := by
  rw [replacementAt, List.filter_cons_of_pos (by simp [hstart, hstop]), List.flatMap_cons]
  rfl

theorem replacementAt_cons_of_ne (hstart : e.start ≠ k) :
    replacementAt (e :: edits) k = replacementAt edits k := by
  rw [replacementAt, List.filter_cons_of_neg (by simp [hstart])]
  rfl

theorem begins_cons_of_ne (hstart : e.start ≠ k) : begins (e :: edits) k = begins edits k := by
  simp [begins, hstart]

variable (hlater : ∀ e' ∈ edits, e.stop ≤ e'.start)
include hlater

/-- Behind the first character of a range nothing comes out any more until its end. -/
theorem outputFrom_cons_inside {old rest : List Char} (hstart : e.start < k)
    (hstop : k + byteLength old = e.stop) :
    outputFrom (e :: edits) k (old ++ rest) = outputFrom edits e.stop rest := by
  induction old generalizing k with
  | nil =>
    obtain rfl : k = e.stop := hstop
    exact outputFrom_cons_of_past le_rfl hstart rest
  | cons c cs ih =>
    have hpos := c.utf8Size_pos
    simp only [byteLength, ← Nat.add_assoc] at hstop
    have hlt : ∀ e' ∈ edits, e'.stop ≤ k ∨ k < e'.start :=
      fun e' he => by have := hlater e' he; omega
    have hne : ∀ e' ∈ edits, e'.start ≠ k ∨ e'.stop ≠ k :=
      fun e' he => by have := hlater e' he; omega
    rw [List.cons_append, outputFrom, insertedAt_cons_of_ne (.inl hstart.ne), insertedAt_eq_nil hne,
      replacementAt_cons_of_ne hstart.ne, replacementAt_eq_nil hlt, keptAt,
      covers_cons_of_mem hstart.le (by omega), ih (by omega) hstop]
    rfl

theorem linksFrom_cons_inside {old rest : List Char} (generated source : Position)
    (hstart : e.start < k) (hstop : k + byteLength old = e.stop) :
    linksFrom (e :: edits) generated source k (old ++ rest) =
      linksFrom edits generated (source.advance old) e.stop rest := by
  induction old generalizing k source with
  | nil =>
    obtain rfl : k = e.stop := hstop
    exact linksFrom_cons_of_past le_rfl hstart generated source rest
  | cons c cs ih =>
    have hpos := c.utf8Size_pos
    simp only [byteLength, ← Nat.add_assoc] at hstop
    have hlt : ∀ e' ∈ edits, e'.stop ≤ k ∨ k < e'.start :=
      fun e' he => by have := hlater e' he; omega
    have hne : ∀ e' ∈ edits, e'.start ≠ k ∨ e'.stop ≠ k :=
      fun e' he => by have := hlater e' he; omega
    rw [List.cons_append, linksFrom, insertedAt_cons_of_ne (.inl hstart.ne), insertedAt_eq_nil hne,
      replacementAt_cons_of_ne hstart.ne, replacementAt_eq_nil hlt, keptAt, isLinked,
      begins_cons_of_ne hstart.ne, begins_eq_false hlt, covers_cons_of_mem hstart.le (by omega)]
    exact ih _ (by omega) hstop

theorem outputFrom_cons_range {old rest : List Char} (hne : old ≠ []) (hstart : e.start = k)
    (hstop : k + byteLength old = e.stop) :
    outputFrom (e :: edits) k (old ++ rest) = e.text.toList ++ outputFrom edits e.stop rest := by
  obtain ⟨c, cs, rfl⟩ := List.exists_cons_of_ne_nil hne
  have hpos := c.utf8Size_pos
  simp only [byteLength, ← Nat.add_assoc] at hstop
  have hk : k < e.stop := by omega
  have hlt : ∀ e' ∈ edits, e'.stop ≤ k ∨ k < e'.start :=
    fun e' he => by have := hlater e' he; omega
  have hne' : ∀ e' ∈ edits, e'.start ≠ k ∨ e'.stop ≠ k :=
    fun e' he => by have := hlater e' he; omega
  rw [List.cons_append, outputFrom, insertedAt_cons_of_ne (.inr hk.ne'), insertedAt_eq_nil hne',
    replacementAt_cons_of_eq hstart hk, replacementAt_eq_nil hlt, keptAt,
    covers_cons_of_mem hstart.le hk, outputFrom_cons_inside hlater (by omega) hstop]
  simp

/-- A range is linked once, where its new text begins. -/
theorem linksFrom_cons_range {old rest : List Char} (generated source : Position) (hne : old ≠ [])
    (hstart : e.start = k) (hstop : k + byteLength old = e.stop) :
    linksFrom (e :: edits) generated source k (old ++ rest) = ⟨generated, source⟩ ::
      linksFrom edits (generated.advance e.text.toList) (source.advance old) e.stop rest := by
  obtain ⟨c, cs, rfl⟩ := List.exists_cons_of_ne_nil hne
  have hpos := c.utf8Size_pos
  simp only [byteLength, ← Nat.add_assoc] at hstop
  have hk : k < e.stop := by omega
  have hlt : ∀ e' ∈ edits, e'.stop ≤ k ∨ k < e'.start :=
    fun e' he => by have := hlater e' he; omega
  have hne' : ∀ e' ∈ edits, e'.start ≠ k ∨ e'.stop ≠ k :=
    fun e' he => by have := hlater e' he; omega
  rw [List.cons_append, linksFrom, insertedAt_cons_of_ne (.inr hk.ne'), insertedAt_eq_nil hne',
    replacementAt_cons_of_eq hstart hk, replacementAt_eq_nil hlt, keptAt, isLinked,
    begins_cons_of_eq hstart hk, covers_cons_of_mem hstart.le hk,
    linksFrom_cons_inside hlater _ _ (by omega) hstop]
  simp [advance_cons, advance_nil]

end Range

end Phrasebook.Splice
