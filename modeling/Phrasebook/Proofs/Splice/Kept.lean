import Phrasebook.Proofs.Splice.Pieces

/-!
# Texts as pieces

The pieces into which edits cut a text are the text as far as they stay what they were, and the new
text as far as they are replaced. What is replaced in them are the edits, no more and no less
(`editsOf_pieces`), and what no edit reaches into stays in one piece (`exists_kept`). Also edits
that are not cut to the text leave what stands behind all of them (`exists_code_pieces`).
-/

namespace Phrasebook.Splice

open Text (byteLength)

/-- The edits that the pieces of a text stand for. The first piece begins at byte `k`. -/
def editsOf (k : Nat) : List Piece → List Edit
  | [] => []
  | .kept cs :: ps => editsOf (k + byteLength cs) ps
  | .replaced old new :: ps =>
    ⟨k, k + byteLength old, String.ofList new⟩ :: editsOf (k + byteLength old) ps

section Chain

variable {edits : List Edit} {k : Nat} {cs : List Char}

theorem editsOf_pieces (h : Chain edits k cs) : editsOf k (pieces k cs edits) = edits := by
  induction edits generalizing k cs with
  | nil => rfl
  | cons e edits ih =>
    obtain ⟨before, old, rest, rfl, hstart, hstop, hrest⟩ := h.cut
    have hedit : (⟨e.start, e.stop, String.ofList e.text.toList⟩ : Edit) = e := by
      rw [String.ofList_toList]
    rw [pieces_cons hstart hstop, editsOf, editsOf, hstart, hstop, ih hrest, hedit]

theorem old_pieces (h : Chain edits k cs) : (pieces k cs edits).flatMap Piece.old = cs := by
  induction edits generalizing k cs with
  | nil => simp [pieces, Piece.old]
  | cons e edits ih =>
    obtain ⟨before, old, rest, rfl, hstart, hstop, hrest⟩ := h.cut
    rw [pieces_cons hstart hstop, List.flatMap_cons, List.flatMap_cons, ih hrest]
    rfl

end Chain

/-! ### What is kept -/

/-- What stands between two boundaries of a text. -/
theorem IsBoundary.exists_between {cs : List Char} {lo hi : Nat} (hlo : IsBoundary 0 cs lo)
    (hhi : IsBoundary 0 cs hi) (hle : lo ≤ hi) :
    ∃ before between after, cs = before ++ (between ++ after) ∧ byteLength before = lo ∧
      lo + byteLength between = hi := by
  obtain ⟨before, ⟨rest, rfl⟩, rfl⟩ := hlo
  obtain ⟨between, ⟨after, rfl⟩, hbetween⟩ := hhi.of_append hle
  exact ⟨before, between, after, rfl, (Nat.zero_add _).symm, hbetween⟩

theorem IsBoundary.of_prefix {k n : Nat} {cs text : List Char} (h : IsBoundary k cs n)
    (hcs : cs <+: text) : IsBoundary k text n := by
  obtain ⟨before, hbefore, hn⟩ := h
  exact ⟨before, hbefore.trans hcs, hn⟩

/-- Pieces in which `cs` stand behind `before` as a part of one that is kept. -/
def KeptIn (ps : List Piece) (before cs : List Char) : Prop :=
  ∃ front u v back, ps = front ++ .kept (u ++ (cs ++ v)) :: back ∧
    front.flatMap Piece.old ++ u = before

/-- What no edit reaches into is kept in one piece. -/
theorem exists_kept {edits : List Edit} {k : Nat} {before cs after : List Char}
    (h : Chain edits k (before ++ (cs ++ after)))
    (hapart : ∀ e ∈ edits, e.stop ≤ k + byteLength before ∨
      k + byteLength before + byteLength cs ≤ e.start) :
    KeptIn (pieces k (before ++ (cs ++ after)) edits) before cs := by
  induction edits generalizing k before with
  | nil => exact ⟨[], before, after, [], rfl, rfl⟩
  | cons e edits ih =>
    obtain ⟨front, old, rest, htext, hstart, hstop, hrest⟩ := h.cut
    have hpieces : pieces k (before ++ (cs ++ after)) (e :: edits) =
        .kept front :: .replaced old e.text.toList :: pieces e.stop rest edits := by
      rw [htext, pieces_cons hstart hstop]
    rw [hpieces]
    rcases hapart e (by simp) with hbefore | hbehind
    · -- the edit lies in front: the text is in what follows the edit, and is kept there
      have hcut : front ++ old <+: before ++ (cs ++ after) :=
        ⟨rest, by rw [htext, List.append_assoc]⟩
      have hle : byteLength (front ++ old) ≤ byteLength before := by
        rw [Text.byteLength_append]
        omega
      have hold := Text.prefix_of_byteLength_le hcut (List.prefix_append _ _) hle
      obtain ⟨between, rfl⟩ := hold
      have hrest' : rest = between ++ (cs ++ after) := by
        rw [List.append_assoc, List.append_assoc] at htext
        exact (List.append_cancel_left (List.append_cancel_left htext)).symm
      have hshift : k + byteLength (front ++ old ++ between) = e.stop + byteLength between := by
        rw [Text.byteLength_append, Text.byteLength_append]
        omega
      subst hrest'
      obtain ⟨ps, u, v, qs, hps, hu⟩ := ih hrest fun e' he' => by
        rw [← hshift]
        exact hapart e' (List.mem_cons_of_mem _ he')
      refine ⟨.kept front :: .replaced old e.text.toList :: ps, u, v, qs, by rw [hps]; rfl, ?_⟩
      rw [← hu]
      simp [Piece.old]
    · -- the edit lies behind: the text is in what is kept in front of the edit
      have hkept : before ++ cs <+: before ++ (cs ++ after) :=
        ⟨after, by rw [List.append_assoc]⟩
      have hcut : front <+: before ++ (cs ++ after) := ⟨old ++ rest, htext.symm⟩
      have hle : byteLength (before ++ cs) ≤ byteLength front := by
        rw [Text.byteLength_append]
        omega
      have hfront := Text.prefix_of_byteLength_le hkept hcut hle
      obtain ⟨v, rfl⟩ := hfront
      exact ⟨[], before, v, _, by rw [List.append_assoc]; rfl, rfl⟩

/-! ### Behind all edits -/

theorem exists_splitBytes_append {n : Nat} {a : List Char} (h : n ≤ byteLength a) (b : List Char) :
    ∃ p q, a = p ++ q ∧ splitBytes n (a ++ b) = (p, q ++ b) := by
  induction a generalizing n with
  | nil =>
    obtain rfl : n = 0 := Nat.le_zero.mp h
    exact ⟨[], [], rfl, by cases b <;> rfl⟩
  | cons c cs ih =>
    cases n with
    | zero => exact ⟨[], c :: cs, rfl, rfl⟩
    | succ n =>
      rw [byteLength] at h
      obtain ⟨p, q, rfl, hsplit⟩ := ih (show n + 1 - c.utf8Size ≤ byteLength cs by omega)
      exact ⟨c :: p, q, rfl, by rw [List.cons_append, splitBytes, hsplit]⟩

/-- Edits that do not reach behind a place, whatever else they are, keep what is there. -/
theorem exists_code_pieces {edits : List Edit} {k : Nat} {a : List Char} (b : List Char)
    (h : ∀ e ∈ edits, e.start ≤ k + byteLength a ∧ e.stop ≤ k + byteLength a) :
    ∃ new, code (pieces k (a ++ b) edits) = new ++ b := by
  induction edits generalizing k a with
  | nil => exact ⟨a, by simp [pieces, code, Piece.new]⟩
  | cons e edits ih =>
    obtain ⟨⟨hstart, hstop⟩, hedits⟩ := List.forall_mem_cons.mp h
    obtain ⟨before, rest, rfl, hbefore⟩ :=
      exists_splitBytes_append (show e.start - k ≤ byteLength a by omega) b
    rw [Text.byteLength_append] at hstart hstop hedits
    obtain ⟨old, rest, rfl, hold⟩ := exists_splitBytes_append
      (show e.stop - (k + byteLength before) ≤ byteLength rest by omega) b
    rw [Text.byteLength_append] at hedits
    -- what is left in front of the place is what the edit has not reached
    obtain ⟨new, hnew⟩ := ih (k := k + byteLength before + byteLength old) (a := rest)
      fun e' he' => by
        have := hedits e' he'
        omega
    refine ⟨before ++ (e.text.toList ++ new), ?_⟩
    rw [pieces, hbefore]
    dsimp only
    rw [hold]
    simp only [code, List.flatMap_cons, Piece.new, List.append_assoc] at hnew ⊢
    rw [hnew]

/-! ### The new text -/

/-- Edits that do not overlap cut a text into pieces: those that are replaced are the edits, and
what no edit reaches into is kept. -/
theorem exists_pieces_apply {source : String} {edits : List Edit}
    (h : Applicable edits source.toList) (file : String) :
    ∃ ps : List Piece, ps.flatMap Piece.old = source.toList ∧
      ps.flatMap Piece.new = (apply source edits file).1.toList ∧
      (editsOf 0 ps).Perm edits ∧
      ∀ before cs after, source.toList = before ++ (cs ++ after) →
        (∀ e ∈ edits, e.stop ≤ byteLength before ∨ byteLength before + byteLength cs ≤ e.start) →
        KeptIn ps before cs := by
  have hchain := chain_sortEdits h
  refine ⟨pieces 0 source.toList (sortEdits edits), old_pieces hchain, ?_, ?_, ?_⟩
  · rw [apply, String.toList_ofList]
    rfl
  · rw [editsOf_pieces hchain]
    exact sortEdits_perm edits
  · intro before cs after hsource hapart
    rw [hsource] at hchain ⊢
    refine exists_kept hchain fun e he => ?_
    rw [Nat.zero_add]
    exact hapart e ((sortEdits_perm edits).mem_iff.mp he)

end Phrasebook.Splice
