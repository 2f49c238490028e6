import Phrasebook.Proofs.Splice.Pieces

/-!
# An insertion in front of all other edits

What is inserted in front of all other edits stands in the new text once, between what the text
without the insertion has in front of that place and what it has behind it (`apply_concat`).
-/

namespace Phrasebook.Splice

open Text (byteLength)

/-- To cut at a place is to cut at an earlier one first. -/
theorem splitBytes_of_le {m n : Nat} (h : m ≤ n) {cs a r a' r' : List Char}
    (hm : splitBytes m cs = (a, r)) (hn : splitBytes (n - byteLength a) r = (a', r')) :
    splitBytes n cs = (a ++ a', r') := by
  induction cs generalizing m n a with
  | nil =>
    have hnil (k : Nat) : splitBytes k [] = ([], []) := by cases k <;> rfl
    rw [hnil] at hm
    obtain ⟨rfl, rfl⟩ := Prod.mk.inj hm
    rw [hnil] at hn ⊢
    obtain ⟨rfl, rfl⟩ := Prod.mk.inj hn
    rfl
  | cons c cs ih =>
    -- a cut at the beginning is none, and else the first character is in front of both cuts
    cases m with
    | zero =>
      rw [splitBytes] at hm
      obtain ⟨rfl, rfl⟩ := Prod.mk.inj hm
      exact hn
    | succ m =>
      obtain ⟨n, rfl⟩ : ∃ k, n = k + 1 := ⟨n - 1, by omega⟩
      rw [splitBytes] at hm ⊢
      obtain ⟨rfl, rfl⟩ := Prod.mk.inj hm
      have hsub : n + 1 - byteLength (c :: (splitBytes (m + 1 - c.utf8Size) cs).1) =
          n + 1 - c.utf8Size - byteLength (splitBytes (m + 1 - c.utf8Size) cs).1 := by
        rw [byteLength]
        omega
      rw [hsub] at hn
      rw [ih (Nat.sub_le_sub_right h _) rfl hn]
      rfl

theorem append_splitBytes (n : Nat) (cs : List Char) :
    (splitBytes n cs).1 ++ (splitBytes n cs).2 = cs := by
  induction cs generalizing n with
  | nil => cases n <;> rfl
  | cons c cs ih =>
    cases n with
    | zero => rfl
    | succ n =>
      rw [splitBytes]
      exact congrArg (c :: ·) (ih _)

section

variable {n : Nat} {cs a r : List Char} {es : List Edit}

/-- Nothing is left of what has been cut off. -/
theorem splitBytes_sub (h : splitBytes n cs = (a, r)) :
    splitBytes (n - byteLength a) r = ([], r) := by
  have htwice := splitBytes_of_le (Nat.le_refl n) h rfl
  rw [h] at htwice
  obtain ⟨hfirst, hsecond⟩ := Prod.mk.inj htwice
  exact Prod.ext (List.self_eq_append_right.mp hfirst) hsecond.symm

/-- Edits behind a place leave what is in front of it. -/
theorem code_pieces_of_le (h : splitBytes n cs = (a, r)) (hes : ∀ e ∈ es.head?, n ≤ e.start) :
    code (pieces 0 cs es) = a ++ code (pieces (byteLength a) r es) := by
  cases es with
  | nil =>
    have happend := append_splitBytes n cs
    rw [h] at happend
    simpa [pieces, code, Piece.new] using happend.symm
  | cons e es =>
    have hcut := splitBytes_of_le (hes e rfl) h rfl
    simp only [pieces, Nat.sub_zero, hcut, code, List.flatMap_cons, Piece.new,
      Text.byteLength_append, Nat.zero_add, List.append_assoc]

theorem code_pieces_insertion (h : splitBytes n cs = (a, r)) (text : String) :
    code (pieces 0 cs (⟨n, n, text⟩ :: es)) =
      a ++ (text.toList ++ code (pieces (byteLength a) r es)) := by
  simp only [pieces, Nat.sub_zero, h, Nat.zero_add, splitBytes_sub h, code, List.flatMap_cons,
    Piece.new, byteLength, Nat.add_zero]

end

/-- The text is inserted once; in front of it and behind it stands what stands there without it. -/
theorem apply_concat {source : String} {edits : List Edit} {n : Nat} (text file : String)
    (h : ∀ e ∈ edits, n ≤ e.start ∧ e.start < e.stop) :
    ∃ front after back, splitBytes n source.toList = (front, after) ∧
      (apply source edits file).1.toList = front ++ back ∧
      (apply source (edits ++ [⟨n, n, text⟩]) file).1.toList = front ++ (text.toList ++ back) := by
  have hsort : sortEdits (edits ++ [⟨n, n, text⟩]) = ⟨n, n, text⟩ :: sortEdits edits := by
    refine Sorted.sort_concat fun e he => ?_
    obtain ⟨hle, hlt⟩ := h e he
    simp only [Edit.le, Bool.or_eq_false_iff, decide_eq_false_iff_not, Bool.and_eq_false_iff,
      beq_eq_false_iff_ne]
    omega
  have hhead : ∀ e ∈ (sortEdits edits).head?, n ≤ e.start := fun e he =>
    (h e ((Sorted.sort_perm edits).mem_iff.mp (List.mem_of_mem_head? he))).1
  obtain ⟨⟨front, after⟩, hcut⟩ : ∃ x, splitBytes n source.toList = x := ⟨_, rfl⟩
  refine ⟨front, after, code (pieces (byteLength front) after (sortEdits edits)), hcut, ?_, ?_⟩
  · rw [apply, String.toList_ofList]
    exact code_pieces_of_le hcut hhead
  · rw [apply, String.toList_ofList, hsort]
    exact code_pieces_insertion hcut text

end Phrasebook.Splice
