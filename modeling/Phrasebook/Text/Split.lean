/-!
# Splitting and joining

`splitOn sep` cuts at every `sep`, so that it gives one piece more than there are separators, and
joining the pieces with `sep` gives the text back (`join_splitOn`), as splitting gives back pieces
without a `sep` that were joined (`splitOn_join`). `lines` are the pieces that end with a line feed,
alone or behind a carriage return, and what is left behind the last one.
-/

namespace Phrasebook.Text

def splitOn (sep : Char) : List Char → List (List Char)
  | [] => [[]]
  | c :: cs =>
    if c = sep then [] :: splitOn sep cs
    else
      match splitOn sep cs with
      | [] => [[c]]
      | piece :: pieces => (c :: piece) :: pieces

/-- The pieces with `sep` between them. -/
def join (sep : List Char) : List (List Char) → List Char
  | [] => []
  | [piece] => piece
  | piece :: pieces => piece ++ sep ++ join sep pieces

theorem splitOn_ne_nil (sep : Char) (cs : List Char) : splitOn sep cs ≠ [] := by
  cases cs with
  | nil => simp [splitOn]
  | cons c cs =>
    rw [splitOn]
    split
    · simp
    · split <;> simp

theorem splitOn_of_notMem {sep : Char} {cs : List Char} (h : sep ∉ cs) : splitOn sep cs = [cs] := by
  induction cs with
  | nil => rfl
  | cons c cs ih =>
    obtain ⟨hc, hcs⟩ := not_or.mp (mt List.mem_cons.mpr h)
    rw [splitOn, if_neg (Ne.symm hc), ih hcs]

theorem splitOn_append {sep : Char} {piece rest : List Char} (h : sep ∉ piece) :
    splitOn sep (piece ++ sep :: rest) = piece :: splitOn sep rest := by
  induction piece with
  | nil => simp [splitOn]
  | cons c cs ih =>
    obtain ⟨hc, hcs⟩ := not_or.mp (mt List.mem_cons.mpr h)
    rw [List.cons_append, splitOn, if_neg (Ne.symm hc), ih hcs]

theorem join_splitOn (sep : Char) (cs : List Char) : join [sep] (splitOn sep cs) = cs := by
  induction cs with
  | nil => rfl
  | cons c cs ih =>
    rw [splitOn]
    cases h : splitOn sep cs with
    | nil => exact absurd h (splitOn_ne_nil sep cs)
    | cons piece pieces =>
      rw [h] at ih
      by_cases hc : c = sep
      · simp [hc, join, ih]
      · cases pieces with
        | nil => simpa [hc, join] using ih
        | cons p ps =>
          rw [if_neg hc]
          simp only [join, List.cons_append, List.cons.injEq, true_and]
          simpa [join] using ih

theorem splitOn_join {sep : Char} : ∀ {pieces : List (List Char)}, pieces ≠ [] →
    (∀ piece ∈ pieces, sep ∉ piece) → splitOn sep (join [sep] pieces) = pieces
  | [], hne, _ => absurd rfl hne
  | [piece], _, h => splitOn_of_notMem (h piece (by simp))
  | piece :: next :: rest, _, h => by
    obtain ⟨hpiece, hrest⟩ := List.forall_mem_cons.mp h
    have hjoin : join [sep] (piece :: next :: rest) =
        piece ++ sep :: join [sep] (next :: rest) := by
      rw [join, List.append_assoc, List.singleton_append]
      simp
    rw [hjoin, splitOn_append hpiece, splitOn_join (by simp) hrest]

/-- A line without the carriage return at its end. -/
def chomp (cs : List Char) : List Char := if cs.getLast? = some '\r' then cs.dropLast else cs

def lines (cs : List Char) : List (List Char) :=
  let pieces := splitOn '\n' cs
  let ended := pieces.dropLast.map chomp
  match pieces.getLast? with
  | some (c :: rest) => ended ++ [c :: rest]
  | _ => ended

/-- A text is one line, or it goes on behind the line feed at the end of its first one. -/
theorem line_cases (cs : List Char) :
    (cs.takeWhile (· != '\n') = cs ∧ cs.dropWhile (· != '\n') = []) ∨
      ∃ line rest, cs = line ++ '\n' :: rest ∧ cs.takeWhile (· != '\n') = line ∧
        cs.dropWhile (· != '\n') = '\n' :: rest := by
  have hsplit := List.takeWhile_append_dropWhile (p := (· != '\n')) (l := cs)
  cases hrest : cs.dropWhile (· != '\n') with
  | nil =>
    rw [hrest, List.append_nil] at hsplit
    exact .inl ⟨hsplit, rfl⟩
  | cons c rest =>
    obtain rfl : c = '\n' := by
      simpa [hrest] using List.head?_dropWhile_not (p := (· != '\n')) (l := cs)
    rw [hrest] at hsplit
    exact .inr ⟨_, rest, hsplit.symm, rfl, rfl⟩

end Phrasebook.Text
