import Phrasebook.Proofs.Splice.Pieces

/-!
# What edits make of a text

`Spliced` walks over a text once. At each place it puts down what is inserted there, in the order in
which it was asked for; then the range that begins there gives way to its text as a whole, or the
next character stays. A walk stands only where no range goes on (`Ahead`), and there it has one
outcome (`Spliced.eq_outputFrom`, `spliced_outputFrom`), which is the text that `apply` gives. So
the order of the edits says nothing but how insertions at one place follow each other
(`spliced_iff_apply`).
-/

namespace Phrasebook.Splice

open Text (byteLength)

/-- What edits make of `cs`, which begin at byte `k`. -/
inductive Spliced (edits : List Edit) : Nat → List Char → List Char → Prop where
  | done (k : Nat) : Spliced edits k [] (insertedAt edits k)
  | kept {k : Nat} {c : Char} {cs out : List Char} (hnone : begins edits k = false)
    (h : Spliced edits (k + c.utf8Size) cs out) :
    Spliced edits k (c :: cs) (insertedAt edits k ++ c :: out)
  | replaced {e : Edit} {old rest out : List Char} (he : e ∈ edits) (hold : old ≠ [])
    (hstop : e.start + byteLength old = e.stop) (h : Spliced edits e.stop rest out) :
    Spliced edits e.start (old ++ rest) (insertedAt edits e.start ++ (e.text.toList ++ out))

/-! ### Places where a walk stands -/

/-- Every edit is over at byte `k`, or lies on boundaries of `cs`, which begin there. -/
def Ahead (edits : List Edit) (k : Nat) (cs : List Char) : Prop :=
  ∀ e ∈ edits, e.stop ≤ k ∨ k ≤ e.start ∧ IsBoundary k cs e.start ∧ IsBoundary k cs e.stop

theorem IsBoundary.of_cons {k n : Nat} {c : Char} {cs : List Char}
    (h : IsBoundary k (c :: cs) n) (hlt : k < n) :
    k + c.utf8Size ≤ n ∧ IsBoundary (k + c.utf8Size) cs n := by
  obtain ⟨before, hbefore, rfl⟩ := h
  cases before with
  | nil => simp [byteLength] at hlt
  | cons d ds =>
    obtain ⟨rfl, hds⟩ := List.cons_prefix_cons.mp hbefore
    exact ⟨by simp [byteLength], ds, hds, by rw [byteLength, Nat.add_assoc]⟩

theorem stop_le_of_begins_eq_false {edits : List Edit} {k : Nat} (h : begins edits k = false)
    {e : Edit} (he : e ∈ edits) (hstart : e.start = k) : e.stop ≤ k := by
  have hnone := List.any_eq_false.mp h e he
  simpa [hstart] using hnone

theorem exists_of_begins {edits : List Edit} {k : Nat} (h : begins edits k = true) :
    ∃ e ∈ edits, e.start = k ∧ k < e.stop := by
  simpa [begins] using h

theorem Ahead.kept {edits : List Edit} {k : Nat} {c : Char} {cs : List Char}
    (h : Ahead edits k (c :: cs)) (hnone : begins edits k = false) :
    Ahead edits (k + c.utf8Size) cs := by
  intro e he
  rcases h e he with hover | ⟨hle, hstart, hstop⟩
  · exact .inl (by omega)
  · by_cases heq : e.start = k
    · have := stop_le_of_begins_eq_false hnone he heq
      exact .inl (by omega)
    · obtain ⟨hnext, hstart⟩ := hstart.of_cons (by omega)
      rcases Nat.lt_or_ge k e.stop with hlt | hge
      · exact .inr ⟨hnext, hstart, (hstop.of_cons hlt).2⟩
      · exact .inl (by omega)

section Walk

variable {edits : List Edit} {text : List Char} (h : Applicable edits text)
include h

theorem Applicable.ahead : Ahead edits 0 text :=
  fun e he => .inr ⟨Nat.zero_le _, h.start e he, h.stop e he⟩

theorem Applicable.apart_of_ne {e e' : Edit} (he : e ∈ edits) (he' : e' ∈ edits) (hne : e ≠ e') :
    e.stop ≤ e'.start ∨ e'.stop ≤ e.start := by
  have : Std.Symm fun a b : Edit => a.stop ≤ b.start ∨ b.stop ≤ a.start := ⟨fun _ _ h => h.symm⟩
  exact h.apart.forall he he' hne

variable {e : Edit} (he : e ∈ edits)
include he

theorem Ahead.replaced {old rest : List Char} (hahead : Ahead edits e.start (old ++ rest))
    (hstop : e.start + byteLength old = e.stop) : Ahead edits e.stop rest := by
  intro e' he'
  by_cases heq : e = e'
  · exact .inl (heq ▸ Nat.le_refl _)
  · rcases h.apart_of_ne he he' heq with hbehind | hbefore
    · rcases hahead e' he' with hover | ⟨-, hb, hb'⟩
      · exact .inl (by omega)
      · have hle := h.le e' he'
        rw [← hstop] at hbehind ⊢
        exact .inr ⟨hbehind, hb.of_append hbehind, hb'.of_append (hbehind.trans hle)⟩
    · exact .inl (by have := h.le e he; omega)

/-- Behind the first character of a range nothing comes out any more until its end. -/
theorem outputFrom_inside {k : Nat} {old rest : List Char} (hstart : e.start < k)
    (hstop : k + byteLength old = e.stop) :
    outputFrom edits k (old ++ rest) = outputFrom edits e.stop rest := by
  induction old generalizing k with
  | nil =>
    obtain rfl : k = e.stop := hstop
    rfl
  | cons c cs ih =>
    have hpos := c.utf8Size_pos
    simp only [byteLength, ← Nat.add_assoc] at hstop
    -- another edit that begins here would overlap with this one
    have hother : ∀ e' ∈ edits, e'.start ≠ k := by
      rintro e' he' rfl
      by_cases heq : e = e'
      · exact absurd (heq ▸ hstart) (Nat.lt_irrefl _)
      · have := h.apart_of_ne he he' heq
        have := h.le e' he'
        omega
    have hnone : replacementAt edits k = [] := by
      rw [replacementAt, List.filter_eq_nil_iff.mpr fun e' he' => by simp [hother e' he']]
      rfl
    have hcovers : covers edits k = true :=
      List.any_eq_true.mpr ⟨e, he, by simp; omega⟩
    rw [List.cons_append, outputFrom, insertedAt_eq_nil fun e' he' => .inl (hother e' he'), hnone,
      keptAt, hcovers, ih (by omega) hstop]
    rfl

/-- A range turns into its new text. -/
theorem outputFrom_replaced {old rest : List Char} (hold : old ≠ [])
    (hstop : e.start + byteLength old = e.stop) :
    outputFrom edits e.start (old ++ rest) =
      insertedAt edits e.start ++ (e.text.toList ++ outputFrom edits e.stop rest) := by
  obtain ⟨c, cs, rfl⟩ := List.exists_cons_of_ne_nil hold
  have hpos := c.utf8Size_pos
  simp only [byteLength, ← Nat.add_assoc] at hstop
  have hlt : e.start < e.stop := by omega
  have hcovers : covers edits e.start = true :=
    List.any_eq_true.mpr ⟨e, he, by simpa using hlt⟩
  rw [List.cons_append, outputFrom, replacementAt_of_mem h he hlt, keptAt, hcovers,
    outputFrom_inside h he (by omega) hstop]
  simp

end Walk

/-- A character stays where no range begins. -/
theorem outputFrom_kept {edits : List Edit} {k : Nat} {c : Char} {cs : List Char}
    (hahead : Ahead edits k (c :: cs)) (hnone : begins edits k = false) :
    outputFrom edits k (c :: cs) =
      insertedAt edits k ++ c :: outputFrom edits (k + c.utf8Size) cs := by
  have hlt : ∀ e ∈ edits, e.stop ≤ k ∨ k < e.start := by
    intro e he
    rcases hahead e he with hover | ⟨hle, -⟩
    · exact .inl hover
    · rcases Nat.lt_or_eq_of_le hle with hlt | heq
      · exact .inr hlt
      · exact .inl (stop_le_of_begins_eq_false hnone he heq.symm)
  rw [outputFrom, replacementAt_eq_nil hlt, keptAt, covers_eq_false hlt]
  simp

/-! ### The outcome of a walk -/

section Outcome

variable {edits : List Edit} {text : List Char} (h : Applicable edits text)
include h

theorem Spliced.eq_outputFrom {k : Nat} {cs out : List Char} (hspliced : Spliced edits k cs out)
    (hahead : Ahead edits k cs) : out = outputFrom edits k cs := by
  induction hspliced with
  | done k => rfl
  | kept hnone _ ih => rw [outputFrom_kept hahead hnone, ← ih (hahead.kept hnone)]
  | replaced he hold hstop _ ih =>
    rw [outputFrom_replaced h he hold hstop, ← ih (hahead.replaced h he hstop)]

theorem spliced_outputFrom {k : Nat} {cs : List Char} (hahead : Ahead edits k cs) :
    Spliced edits k cs (outputFrom edits k cs) := by
  -- a range takes more than one character away, so the induction is on the length
  induction hn : cs.length using Nat.strongRecOn generalizing k cs with
  | ind n ih =>
    cases hbegins : begins edits k with
    | true =>
      obtain ⟨e, he, rfl, hlt⟩ := exists_of_begins hbegins
      obtain ⟨-, -, old, ⟨rest, rfl⟩, hstop⟩ := (hahead e he).resolve_left (by omega)
      have hold : old ≠ [] := by
        rintro rfl
        simp [byteLength] at hstop
        omega
      have hpos := List.length_pos_iff.mpr hold
      rw [outputFrom_replaced h he hold hstop]
      exact .replaced he hold hstop
        (ih _ (by simp at hn; omega) (hahead.replaced h he hstop) rfl)
    | false =>
      cases cs with
      | nil => exact .done k
      | cons c cs =>
        rw [outputFrom_kept hahead hbegins]
        exact .kept hbegins (ih _ (by simp at hn; omega) (hahead.kept hbegins) rfl)

end Outcome

theorem Applicable.perm {edits edits' : List Edit} {cs : List Char} (h : Applicable edits cs)
    (hperm : edits'.Perm edits) : Applicable edits' cs where
  le e he := h.le e (hperm.mem_iff.mp he)
  start e he := h.start e (hperm.mem_iff.mp he)
  stop e he := h.stop e (hperm.mem_iff.mp he)
  apart := hperm.symm.pairwise h.apart fun h => h.symm

/-- Applying edits that do not overlap gives what they make of the text and nothing else. Text and
map stay the same in any order of the edits in which insertions at one place follow each other as
before. -/
theorem spliced_iff_apply (source : String) {edits : List Edit}
    (h : Applicable edits source.toList) (file : String) :
    (∀ out, Spliced edits 0 source.toList out ↔ out = (apply source edits file).1.toList) ∧
    ∀ edits' : List Edit, edits'.Perm edits →
      (∀ k, edits'.filter (fun e => e.start == k && e.stop == k) =
        edits.filter fun e => e.start == k && e.stop == k) →
      apply source edits' file = apply source edits file := by
  refine ⟨fun out => ?_, fun edits' hperm horder => ?_⟩
  · rw [toList_apply h]
    exact ⟨fun hspliced => hspliced.eq_outputFrom h h.ahead,
      fun hout => hout ▸ spliced_outputFrom h h.ahead⟩
  · have hsame : SameEffects edits' edits :=
      sameEffects_of_perm hperm h.apart fun k => by rw [insertedAt, horder, insertedAt]
    rw [apply_eq h, apply_eq (h.perm hperm), hsame.outputFrom, hsame.expectedLinks]

/-- Two insertions in front of a range, another range behind it, and an insertion at the end. -/
theorem spliced_iff_apply_ties :
    let edits : List Edit :=
      [⟨1, 2, "B"⟩, ⟨1, 1, "x"⟩, ⟨2, 6, ""⟩, ⟨1, 1, "y"⟩, ⟨6, 6, "!"⟩]
    let edits' : List Edit :=
      [⟨6, 6, "!"⟩, ⟨1, 1, "x"⟩, ⟨1, 1, "y"⟩, ⟨2, 6, ""⟩, ⟨1, 2, "B"⟩]
    Spliced edits 0 "ab😀".toList "axyB!".toList ∧
      apply "ab😀" edits' "a.ts" = apply "ab😀" edits "a.ts" := by
  intro edits edits'
  have happlicable : Applicable edits "ab😀".toList :=
    { le := by decide
      start := by
        simp only [edits, List.forall_mem_cons]
        exact ⟨⟨['a'], by decide, rfl⟩, ⟨['a'], by decide, rfl⟩, ⟨['a', 'b'], by decide, rfl⟩,
          ⟨['a'], by decide, rfl⟩, ⟨['a', 'b', '😀'], by decide, rfl⟩, by simp⟩
      stop := by
        simp only [edits, List.forall_mem_cons]
        exact ⟨⟨['a', 'b'], by decide, rfl⟩, ⟨['a'], by decide, rfl⟩,
          ⟨['a', 'b', '😀'], by decide, rfl⟩, ⟨['a'], by decide, rfl⟩,
          ⟨['a', 'b', '😀'], by decide, rfl⟩, by simp⟩
      apart := by decide }
  obtain ⟨hspliced, hsame⟩ := spliced_iff_apply "ab😀" happlicable "a.ts"
  refine ⟨(hspliced _).mpr (by decide +kernel), hsame edits' (by decide) fun k => ?_⟩
  simp only [edits, edits', List.filter_cons, List.filter_nil]
  grind

end Phrasebook.Splice
