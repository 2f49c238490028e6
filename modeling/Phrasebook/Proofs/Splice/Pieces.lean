import Phrasebook.Proofs.Mapping.Segments
import Phrasebook.Proofs.Sorted
import Phrasebook.Proofs.Splice.Effect

/-!
# Pieces against effects

Edits that do not overlap follow each other once they are sorted, so that `pieces` cuts the text
where they begin and end. By induction on the edits that are left, the pieces say the same text and
the same links as the effects of the edits do (`code_pieces`, `links_pieces`). Effects do not
depend on the order of the edits beyond that of insertions at one place, which sorting keeps.
-/

namespace Phrasebook.Splice

open Text (byteLength)

/-! ### Boundaries -/

/-- A character of `cs`, the first of which begins at byte `k`, begins at byte `n`, or `cs` end
there. -/
def IsBoundary (k : Nat) (cs : List Char) (n : Nat) : Prop :=
  ∃ before, before <+: cs ∧ k + byteLength before = n

theorem IsBoundary.le {k n : Nat} {cs : List Char} (h : IsBoundary k cs n) :
    n ≤ k + byteLength cs := by
  obtain ⟨before, ⟨rest, rfl⟩, rfl⟩ := h
  rw [Text.byteLength_append]
  omega

/-- Boundaries behind `before` are boundaries of what follows it. -/
theorem IsBoundary.of_append {k n : Nat} {before rest : List Char}
    (h : IsBoundary k (before ++ rest) n) (hn : k + byteLength before ≤ n) :
    IsBoundary (k + byteLength before) rest n := by
  obtain ⟨a, ha, rfl⟩ := h
  rcases List.prefix_or_prefix_of_prefix ha (List.prefix_append before rest) with h | h
  · obtain ⟨d, rfl⟩ := h
    rw [Text.byteLength_append] at hn ⊢
    have hd : byteLength d = 0 := by omega
    exact ⟨[], List.nil_prefix, by rw [hd]; rfl⟩
  · obtain ⟨d, rfl⟩ := h
    refine ⟨d, (List.prefix_append_right_inj before).mp ha, ?_⟩
    rw [Text.byteLength_append, Nat.add_assoc]

theorem splitBytes_byteLength (a b : List Char) : splitBytes (byteLength a) (a ++ b) = (a, b) := by
  induction a with
  | nil => cases b <;> rfl
  | cons c cs ih =>
    have hpos := c.utf8Size_pos
    obtain ⟨n, hn⟩ : ∃ n, byteLength (c :: cs) = n + 1 :=
      ⟨c.utf8Size + byteLength cs - 1, by simp only [byteLength]; omega⟩
    have hrest : n + 1 - c.utf8Size = byteLength cs := by
      rw [← hn, byteLength]
      omega
    rw [hn, List.cons_append, splitBytes, hrest, ih]

/-! ### Edits that can be applied -/

/-- Edits that lie on boundaries of the text and do not overlap. -/
structure Applicable (edits : List Edit) (cs : List Char) : Prop where
  le : ∀ e ∈ edits, e.start ≤ e.stop
  start : ∀ e ∈ edits, IsBoundary 0 cs e.start
  stop : ∀ e ∈ edits, IsBoundary 0 cs e.stop
  apart : edits.Pairwise fun a b => a.stop ≤ b.start ∨ b.stop ≤ a.start

/-- Edits one behind the other from byte `k` on, where `cs` begin. -/
structure Chain (edits : List Edit) (k : Nat) (cs : List Char) : Prop where
  le : ∀ e ∈ edits, k ≤ e.start ∧ e.start ≤ e.stop
  start : ∀ e ∈ edits, IsBoundary k cs e.start
  stop : ∀ e ∈ edits, IsBoundary k cs e.stop
  apart : edits.Pairwise (·.stop ≤ ·.start)

section Cut

variable {e : Edit} {edits : List Edit} {k : Nat} {cs : List Char}

/-- The text that the first edit cuts out, between what is kept in front of it and the rest. -/
theorem Chain.cut (h : Chain (e :: edits) k cs) :
    ∃ before old rest, cs = before ++ (old ++ rest) ∧ k + byteLength before = e.start ∧
      e.start + byteLength old = e.stop ∧ Chain edits e.stop rest := by
  obtain ⟨hle, hles⟩ := List.forall_mem_cons.mp h.le
  obtain ⟨hstart, hstarts⟩ := List.forall_mem_cons.mp h.start
  obtain ⟨hstop, hstops⟩ := List.forall_mem_cons.mp h.stop
  obtain ⟨hlater, hapart⟩ := List.pairwise_cons.mp h.apart
  obtain ⟨before, ⟨after, rfl⟩, hbefore⟩ := hstart
  obtain ⟨old, ⟨rest, rfl⟩, hold⟩ := hstop.of_append (by omega)
  rw [hbefore] at hold
  have hshift : ∀ {n}, e.stop ≤ n → IsBoundary k (before ++ (old ++ rest)) n →
      IsBoundary e.stop rest n := by
    intro n hn hb
    have := (hb.of_append (by omega)).of_append (by omega)
    rwa [hbefore, hold] at this
  refine ⟨before, old, rest, rfl, hbefore, hold, ?_, ?_, ?_, hapart⟩
  · exact fun e' he' => ⟨hlater e' he', (hles e' he').2⟩
  · exact fun e' he' => hshift (hlater e' he') (hstarts e' he')
  · exact fun e' he' => hshift ((hlater e' he').trans (hles e' he').2) (hstops e' he')

theorem Chain.stop_le (h : Chain (e :: edits) k cs) : ∀ e' ∈ edits, e.stop ≤ e'.start :=
  (List.pairwise_cons.mp h.apart).1

theorem Chain.start_le (h : Chain (e :: edits) k cs) : ∀ e' ∈ e :: edits, e.start ≤ e'.start := by
  intro e' he'
  rcases List.mem_cons.mp he' with rfl | he'
  · exact le_rfl
  · exact (h.le e (by simp)).2.trans (h.stop_le e' he')

theorem pieces_cons {before old rest : List Char} (hstart : k + byteLength before = e.start)
    (hstop : e.start + byteLength old = e.stop) :
    pieces k (before ++ (old ++ rest)) (e :: edits) =
      .kept before :: .replaced old e.text.toList :: pieces e.stop rest edits := by
  have hfirst : e.start - k = byteLength before := by omega
  have hsecond : e.stop - (k + byteLength before) = byteLength old := by omega
  have hthird : k + byteLength before + byteLength old = e.stop := by omega
  simp only [pieces, hfirst, splitBytes_byteLength, hsecond, hthird]

end Cut

/-! ### Pieces -/

theorem code_pieces {edits : List Edit} {k : Nat} {cs : List Char} (h : Chain edits k cs) :
    code (pieces k cs edits) = outputFrom edits k cs := by
  induction edits generalizing k cs with
  | nil =>
    have hkept : outputFrom [] k (cs ++ []) = cs ++ outputFrom [] (k + byteLength cs) [] :=
      outputFrom_append_of_le (by simp)
    rw [List.append_nil] at hkept
    simp [pieces, code, Piece.new, hkept, outputFrom, insertedAt]
  | cons e edits ih =>
    obtain ⟨before, old, rest, rfl, hstart, hstop, hrest⟩ := h.cut
    have hcode : code (pieces k (before ++ (old ++ rest)) (e :: edits)) =
        before ++ (e.text.toList ++ outputFrom edits e.stop rest) := by
      rw [pieces_cons hstart hstop, ← ih hrest]
      simp [code, Piece.new]
    rw [hcode, outputFrom_append_of_le (hstart ▸ h.start_le), hstart]
    -- an edit without an old text is an insertion, and comes out in front of the next character
    by_cases hold : old = []
    · subst hold
      have hsame : e.stop = e.start := hstop.symm
      rw [List.nil_append, outputFrom_cons_insertion rfl hsame, hsame]
    · rw [outputFrom_cons_range h.stop_le hold rfl hstop]

theorem links_pieces {edits : List Edit} {k : Nat} {cs : List Char} (h : Chain edits k cs)
    (generated source : Position) :
    links generated source (pieces k cs edits) = linksFrom edits generated source k cs := by
  induction edits generalizing k cs generated source with
  | nil =>
    have hkept : linksFrom [] generated source k (cs ++ []) =
        keptLinks generated source cs ++ [] :=
      linksFrom_append_of_le generated source (by simp)
    rw [List.append_nil, List.append_nil] at hkept
    simp [pieces, links, hkept]
  | cons e edits ih =>
    obtain ⟨before, old, rest, rfl, hstart, hstop, hrest⟩ := h.cut
    rw [pieces_cons hstart hstop, linksFrom_append_of_le generated source (hstart ▸ h.start_le),
      hstart]
    simp only [links, ih hrest, Piece.new, Piece.old]
    by_cases hold : old = []
    · subst hold
      have hsame : e.stop = e.start := hstop.symm
      rw [List.nil_append, linksFrom_cons_insertion rfl hsame, hsame]
      rfl
    · rw [linksFrom_cons_range h.stop_le _ _ hold rfl hstop]
      obtain ⟨c, cs, rfl⟩ := List.exists_cons_of_ne_nil hold
      rfl

/-! ### The order of the edits -/

theorem le_total (a b : Edit) (h : Edit.le a b = false) : Edit.le b a = true := by
  simp only [Edit.le, Bool.or_eq_false_iff, Bool.and_eq_false_iff, decide_eq_false_iff_not,
    beq_eq_false_iff_ne, Bool.or_eq_true, Bool.and_eq_true, decide_eq_true_eq, beq_iff_eq] at h ⊢
  omega

theorem le_trans (a b c : Edit) (h : Edit.le a b = true) (h' : Edit.le b c = true) :
    Edit.le a c = true := by
  simp only [Edit.le, Bool.or_eq_true, Bool.and_eq_true, decide_eq_true_eq, beq_iff_eq] at h h' ⊢
  omega

theorem sortEdits_perm (edits : List Edit) : (sortEdits edits).Perm edits := Sorted.sort_perm edits

/-- Lists of edits with the same effects at each place. -/
structure SameEffects (edits edits' : List Edit) : Prop where
  insertedAt : ∀ k, insertedAt edits k = insertedAt edits' k
  replacementAt : ∀ k, replacementAt edits k = replacementAt edits' k
  begins : ∀ k, begins edits k = begins edits' k
  covers : ∀ k, covers edits k = covers edits' k

namespace SameEffects

variable {edits edits' : List Edit} (h : SameEffects edits edits')
include h

theorem outputFrom (k : Nat) (cs : List Char) :
    outputFrom edits k cs = Splice.outputFrom edits' k cs := by
  induction cs generalizing k with
  | nil => exact h.insertedAt k
  | cons c cs ih =>
    simp only [Splice.outputFrom, keptAt, h.insertedAt, h.replacementAt, h.covers, ih]

theorem expectedLinks (before cs : List Char) :
    expectedLinks edits before cs = Splice.expectedLinks edits' before cs := by
  induction cs generalizing before with
  | nil => rfl
  | cons c cs ih =>
    have hlinked : isLinked edits (byteLength before) c =
        isLinked edits' (byteLength before) c := by
      rw [isLinked, isLinked, h.begins, h.covers]
    rw [Splice.expectedLinks, Splice.expectedLinks, hlinked, linkBehind, linkBehind,
      h.outputFrom, ih]

end SameEffects

/-- Of edits that do not overlap only one can replace a range from a place on, so that their order
says nothing but how insertions at one place follow each other. -/
theorem sameEffects_of_perm {edits edits' : List Edit} (hperm : edits'.Perm edits)
    (hapart : edits.Pairwise fun a b => a.stop ≤ b.start ∨ b.stop ≤ a.start)
    (hinserted : ∀ k, insertedAt edits' k = insertedAt edits k) : SameEffects edits' edits where
  insertedAt := hinserted
  replacementAt k := by
    have hperm := hperm.filter fun e => e.start == k && decide (k < e.stop)
    have hapart := hapart.filter fun e => e.start == k && decide (k < e.stop)
    unfold replacementAt
    rcases hl : edits.filter (fun e => e.start == k && decide (k < e.stop)) with
      - | ⟨a, - | ⟨b, l⟩⟩
    · rw [hl] at hperm
      rw [hperm.eq_nil, hl]
    · rw [hl] at hperm
      rw [List.perm_singleton.mp hperm, hl]
    · -- two edits that replace the same character would overlap
      have hpick : ∀ e ∈ a :: b :: l, e.start = k ∧ k < e.stop := by
        intro e he
        rw [← hl] at he
        simpa using (List.mem_filter.mp he).2
      rw [hl] at hapart
      have hab := List.rel_of_pairwise_cons hapart (List.mem_cons_self ..)
      have ha := hpick a (by simp)
      have hb := hpick b (by simp)
      omega
  begins _ := hperm.any_eq
  covers _ := hperm.any_eq

theorem insertedAt_sortEdits (edits : List Edit) (k : Nat) :
    insertedAt (sortEdits edits) k = insertedAt edits k := by
  rw [insertedAt, insertedAt, sortEdits, Sorted.filter_sort]
  intro a b ha hb
  simp only [Bool.and_eq_true, beq_iff_eq] at ha hb
  simp [Edit.le, ha, hb]

section Order

variable {edits : List Edit} {cs : List Char} (h : Applicable edits cs)
include h

theorem chain_sortEdits : Chain (sortEdits edits) 0 cs := by
  have hmem : ∀ e ∈ sortEdits edits, e ∈ edits := fun e => (sortEdits_perm edits).mem_iff.mp
  have happart : (sortEdits edits).Pairwise fun a b => a.stop ≤ b.start ∨ b.stop ≤ a.start :=
    (sortEdits_perm edits).symm.pairwise h.apart fun h => h.symm
  have hsorted := Sorted.sort_pairwise le_total le_trans edits
  refine ⟨fun e he => ⟨Nat.zero_le _, h.le e (hmem e he)⟩, fun e he => h.start e (hmem e he),
    fun e he => h.stop e (hmem e he), ?_⟩
  refine (happart.and hsorted).imp_of_mem fun {a b} ha hb hab => ?_
  have hle_a := h.le a (hmem a ha)
  have hle_b := h.le b (hmem b hb)
  have hab' := hab.2
  simp only [Edit.le, Bool.or_eq_true, Bool.and_eq_true, decide_eq_true_eq, beq_iff_eq] at hab'
  have := hab.1
  omega

theorem sameEffects_sortEdits : SameEffects (sortEdits edits) edits :=
  sameEffects_of_perm (sortEdits_perm edits) h.apart (insertedAt_sortEdits edits)

/-- The new text of a range stands at its beginning. -/
theorem replacementAt_of_mem {e : Edit} (he : e ∈ edits) (hlt : e.start < e.stop) :
    replacementAt edits e.start = e.text.toList := by
  obtain ⟨front, back, rfl⟩ := List.append_of_mem he
  obtain ⟨-, hback, hfront⟩ := List.pairwise_append.mp h.apart
  have hothers : ∀ x ∈ front ++ back, x.stop ≤ e.start ∨ e.stop ≤ x.start := by
    intro x hx
    rcases List.mem_append.mp hx with hx | hx
    · exact hfront x hx e (by simp)
    · exact ((List.pairwise_cons.mp hback).1 x hx).symm
  -- no other edit begins at this place and goes on behind it
  have hnone : ∀ x ∈ front ++ back, ¬ (x.start == e.start && decide (e.start < x.stop)) = true := by
    intro x hx hpick
    simp only [Bool.and_eq_true, beq_iff_eq, decide_eq_true_eq] at hpick
    have := hothers x hx
    omega
  have hf := List.filter_eq_nil_iff.mpr fun x hx => hnone x (List.mem_append_left back hx)
  have hb := List.filter_eq_nil_iff.mpr fun x hx => hnone x (List.mem_append_right front hx)
  rw [replacementAt, List.filter_append, hf, List.nil_append,
    List.filter_cons_of_pos (by simpa using hlt), hb]
  simp

end Order

/-! ### The new text and its map -/

/-- The new text and the links of its map, from the effects of the edits. -/
theorem apply_eq {source : String} {edits : List Edit} (h : Applicable edits source.toList)
    (file : String) :
    apply source edits file = (String.ofList (outputFrom edits 0 source.toList),
      .ofLinks file source (expectedLinks edits [] source.toList)) := by
  have hsame := sameEffects_sortEdits h
  rw [apply, code_pieces (chain_sortEdits h), hsame.outputFrom, links_pieces (chain_sortEdits h),
    linksFrom_zero, hsame.expectedLinks]

theorem toList_apply {source : String} {edits : List Edit} (h : Applicable edits source.toList)
    (file : String) :
    (apply source edits file).1.toList = outputFrom edits 0 source.toList := by
  rw [apply_eq h, String.toList_ofList]

/-- The new text is put together from the effects of the edits, and what is read back from its map
are the links of the characters that have one, in the order in which they stand. -/
theorem segments?_apply (source : String) (edits : List Edit) (file : String)
    (h : Applicable edits source.toList)
    (hfit : ∀ l ∈ expectedLinks edits [] source.toList, l.Fits) :
    (apply source edits file).1.toList = outputFrom edits 0 source.toList ∧
    (∀ before c after, source.toList = before ++ c :: after →
      outputFrom edits 0 before ++ replacementAt edits (byteLength before)
        ++ keptAt edits (byteLength before) c <+: (apply source edits file).1.toList) ∧
    (∀ e ∈ edits, e.start < e.stop → replacementAt edits e.start = e.text.toList) ∧
    (expectedLinks edits [] source.toList).Pairwise (·.generated.Le ·.generated) ∧
    ∃ lines, (apply source edits file).2.segments? = some lines ∧
      Mapping.placed lines = expectedLinks edits [] source.toList ∧
      lines.length = max 1 (Mapping.lineCount (expectedLinks edits [] source.toList)) := by
  have hcode := toList_apply h file
  have hascending : (expectedLinks edits [] source.toList).Pairwise (·.generated.Le ·.generated) :=
    linksFrom_zero edits source.toList ▸ pairwise_linksFrom {} {} 0 source.toList
  refine ⟨hcode, fun before c after hsource => ?_, fun e he => replacementAt_of_mem h he,
    hascending, ?_⟩
  · rw [hcode, hsource, outputFrom_append_cons, Nat.zero_add]
    exact List.prefix_append _ _
  · have hlines := hascending.imp fun {a b} hab => Position.Le.line hab
    obtain ⟨lines, hread, hplaced⟩ := Mapping.decode_encode_linesOf hlines hfit
    refine ⟨lines, ?_, hplaced⟩
    rw [← hread, apply_eq h, SourceMap.segments?, SourceMap.ofLinks, String.toList_ofList]

/-- An insertion asked for behind a range that goes over a line feed. -/
theorem segments?_apply_lines : ∃ lines,
    (apply "a\n😀b" [⟨1, 6, "xy\n"⟩, ⟨0, 0, "!"⟩] "a.ts").2.segments? = some lines ∧
      Mapping.placed lines = [⟨⟨0, 1⟩, ⟨0, 0⟩⟩, ⟨⟨0, 2⟩, ⟨0, 1⟩⟩, ⟨⟨1, 0⟩, ⟨1, 2⟩⟩] ∧
      lines.length = 2 := by
  have happlicable : Applicable [⟨1, 6, "xy\n"⟩, ⟨0, 0, "!"⟩] "a\n😀b".toList :=
    { le := by decide
      start := by
        simp only [List.forall_mem_cons]
        exact ⟨⟨['a'], by decide, rfl⟩, ⟨[], by decide, rfl⟩, by simp⟩
      stop := by
        simp only [List.forall_mem_cons]
        exact ⟨⟨['a', '\n', '😀'], by decide, rfl⟩, ⟨[], by decide, rfl⟩, by simp⟩
      apart := by decide }
  have hlinks : expectedLinks [⟨1, 6, "xy\n"⟩, ⟨0, 0, "!"⟩] [] "a\n😀b".toList =
      [⟨⟨0, 1⟩, ⟨0, 0⟩⟩, ⟨⟨0, 2⟩, ⟨0, 1⟩⟩, ⟨⟨1, 0⟩, ⟨1, 2⟩⟩] := by decide +kernel
  have hfit : ∀ l ∈ expectedLinks [⟨1, 6, "xy\n"⟩, ⟨0, 0, "!"⟩] [] "a\n😀b".toList, l.Fits := by
    rw [hlinks]
    decide
  obtain ⟨-, -, -, -, lines, hread, hplaced, hlength⟩ :=
    segments?_apply "a\n😀b" _ "a.ts" happlicable hfit
  rw [hlinks] at hplaced hlength
  exact ⟨lines, hread, hplaced, hlength⟩

end Phrasebook.Splice
