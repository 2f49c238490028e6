import Phrasebook.Script.Lexer

/-!
# Where a word ends

The lexer reads a word up to the first character that cannot belong to it (`scanWord_append`).
What is put directly behind `return` and can belong to a word is read as a part of it, and then it
is `return` no longer (`kindAt_return_append_ne`); blanks, comments and quotes end the word.
-/

namespace Phrasebook.Script

open Text (byteLength isIdentifierPart isIdentifierStart isPictograph length_le_byteLength)

/-- No word goes on with this text. -/
def StopsWord (cs : List Char) : Prop :=
  ∀ x ∈ cs.head?, x ≠ '\\' ∧ isIdentifierPart x = false ∧ isPictograph x = false

theorem StopsWord.append {cs : List Char} (h : StopsWord cs) (hne : cs ≠ []) (rest : List Char) :
    StopsWord (cs ++ rest) := by
  obtain ⟨x, xs, rfl⟩ := List.exists_cons_of_ne_nil hne
  exact h

theorem stopsWord_cons {x : Char}
    (hx : x ≠ '\\' ∧ isIdentifierPart x = false ∧ isPictograph x = false) (cs : List Char) :
    StopsWord (x :: cs) := by
  intro y hy
  obtain rfl := Option.some.inj hy
  exact hx

/-- The kind of the token that the lexer reads in front of `rest` when `front` stands before it. -/
def kindAt (front rest : List Char) : Kind :=
  (scanToken (Lexer.bound (byteLength (front ++ rest)) ⟨rest, byteLength front⟩)
    ⟨rest, byteLength front⟩).token.kind

/-! ### Words -/

section Scan

variable {started : Bool} {x : Char} {xs rest : List Char} {n pos : Nat}

theorem scanWord_cons (hx : x ≠ '\\') :
    scanWord started (n + 1) ⟨x :: xs, pos⟩ =
      if (if started then isIdentifierPart x || isPictograph x else isIdentifierStart x) then
        (scanWord true n ⟨xs, pos + x.utf8Size⟩).cons x
      else ⟨[], false, none, ⟨x :: xs, pos⟩⟩ := by
  rw [scanWord]
  split
  · rename_i heq
    exact absurd (List.cons.inj heq).1 hx
  · rename_i heq
    exact absurd (List.cons.inj heq).1 hx
  · rename_i heq
    obtain ⟨rfl, rfl⟩ := List.cons.inj heq
    rfl
  · rename_i heq
    exact absurd heq (by simp)

theorem ne_backslash (h : isIdentifierPart x = true) : x ≠ '\\' := by
  rintro rfl
  exact absurd h (by decide)

theorem scanWord_append : ∀ {cs : List Char} {n pos : Nat},
    (∀ x ∈ cs, isIdentifierPart x = true) → StopsWord rest → cs.length ≤ n →
      scanWord true n ⟨cs ++ rest, pos⟩ = ⟨cs, false, none, ⟨rest, pos + byteLength cs⟩⟩
  | [], 0, pos, _, _, _ => rfl
  | [], n + 1, pos, _, hrest, _ => by
    cases rest with
    | nil => rfl
    | cons y ys =>
      obtain ⟨hy, hpart, hpict⟩ := hrest y rfl
      rw [List.nil_append, scanWord_cons hy]
      simp [hpart, hpict, byteLength]
  | c :: cs, 0, _, _, _, hn => by simp at hn
  | c :: cs, n + 1, pos, hcs, hrest, hn => by
    obtain ⟨hc, hcs⟩ := List.forall_mem_cons.mp hcs
    rw [List.cons_append, scanWord_cons (ne_backslash hc),
      scanWord_append hcs hrest (Nat.le_of_succ_le_succ hn)]
    simp [hc, Word.cons, byteLength, Nat.add_assoc]

/-- The characters of a word without escapes. -/
def IsWord : List Char → Prop
  | [] => False
  | c :: cs => isIdentifierStart c = true ∧ ∀ x ∈ cs, isIdentifierPart x = true

instance : (cs : List Char) → Decidable (IsWord cs)
  | [] => isFalse id
  | c :: cs =>
    decidable_of_iff ((isIdentifierStart c && cs.all isIdentifierPart) = true) (by simp [IsWord])

theorem isAsciiDigit_of_isIdentifierStart {c : Char} (h : isIdentifierStart c = true) :
    Text.isAsciiDigit c = false := by
  cases hdigit : Text.isAsciiDigit c with
  | false => rfl
  | true =>
    simp only [Text.isAsciiDigit, Bool.and_eq_true, decide_eq_true_eq, Char.le_def,
      UInt32.le_iff_toNat_le] at hdigit
    have hcode : ∀ k < 10, isIdentifierStart (Char.ofNat (48 + k)) = false := by decide
    have hlow : 48 ≤ c.toNat := hdigit.1
    have hhigh : c.toNat ≤ 57 := hdigit.2
    have := hcode (c.toNat - 48) (by omega)
    rw [Nat.add_sub_cancel' hlow, Char.ofNat_toNat, h] at this
    cases this

theorem scanToken_word {cs : List Char} (h : IsWord cs) (hrest : StopsWord rest)
    (hn : cs.length ≤ n) : scanToken n ⟨cs ++ rest, pos⟩ =
      ⟨⟨Kind.ofWord (String.ofList cs), some (String.ofList cs), none⟩,
        ⟨rest, pos + byteLength cs⟩⟩ := by
  obtain _ | ⟨c, cs⟩ := cs
  · exact h.elim
  obtain ⟨hc, hcs⟩ := h
  -- a letter is none of the characters that begin another token
  have hne : ∀ x : Char, isIdentifierStart x = false → (c == x) = false := by
    rintro x hx
    refine beq_false_of_ne ?_
    rintro rfl
    rw [hc] at hx
    cases hx
  obtain ⟨n, rfl⟩ : ∃ k, n = k + 1 := ⟨n - 1, by rw [List.length_cons] at hn; omega⟩
  have hbackslash : c ≠ '\\' := by
    rintro rfl
    exact absurd hc (by decide)
  have hscan : scanWord false (n + 1) ⟨c :: (cs ++ rest), pos⟩ =
      (⟨c :: cs, false, none, ⟨rest, pos + byteLength (c :: cs)⟩⟩ : Word) := by
    rw [scanWord_cons hbackslash, scanWord_append hcs hrest (Nat.le_of_succ_le_succ hn)]
    simp [hc, Word.cons, byteLength, Nat.add_assoc]
  simp only [scanToken, List.cons_append, hne '"' (by decide), hne '\'' (by decide),
    hne '\x60' (by decide), isAsciiDigit_of_isIdentifierStart hc, hne '.' (by decide), hc,
    wordToken, hscan]
  simp

end Scan

/-! ### The word `return` -/

/-- A word is a name or stands in one of the tables. -/
theorem ofWord_eq_name_or_mem (word : String) :
    Kind.ofWord word = .name ∨
      (word, Kind.ofWord word) ∈ Kind.keywords ++ Kind.contextualWords := by
  have hmem : ∀ {table : List (String × Kind)} {k : Kind}, table.lookup word = some k →
      (word, k) ∈ table := by
    intro table k hk
    obtain ⟨front, back, rfl, -⟩ := List.lookup_eq_some_iff.mp hk
    simp
  unfold Kind.ofWord
  split
  · rename_i k hk
    exact .inr (List.mem_append_left _ (hmem hk))
  · cases hk : Kind.contextualWords.lookup word with
    | none => exact .inl rfl
    | some k => exact .inr (List.mem_append_right _ (hmem hk))

theorem eq_return_of_ofWord {word : String} (h : Kind.ofWord word = .kwReturn) :
    word = "return" := by
  have htable : ∀ e ∈ Kind.keywords ++ Kind.contextualWords, e.2 = .kwReturn →
      e.1 = "return" := by decide
  rcases ofWord_eq_name_or_mem word with hname | hmem
  · rw [hname] at h
    exact absurd h (by decide)
  · exact htable _ hmem h

theorem scanToken_of_r (n pos : Nat) (cs : List Char) :
    scanToken n ⟨'r' :: cs, pos⟩ = wordToken ⟨'r' :: cs, pos⟩ n := rfl

/-- Behind `return` and more characters of a word the whole word is read. -/
theorem kindAt_return_append (front : List Char) {word rest : List Char}
    (hword : ∀ x ∈ word, isIdentifierPart x = true) (hrest : StopsWord rest) :
    kindAt front ("return".toList ++ word ++ rest) =
      Kind.ofWord (String.ofList ("return".toList ++ word)) := by
  have hreturn : "return".toList = 'r' :: "eturn".toList := rfl
  have hlead : "eturn".toList.all isIdentifierPart = true := by decide +kernel
  have hparts : ∀ x ∈ "eturn".toList ++ word, isIdentifierPart x = true := by
    intro x hx
    rcases List.mem_append.mp hx with hx | hx
    · exact List.all_eq_true.mp hlead x hx
    · exact hword x hx
  have hlength := length_le_byteLength ("eturn".toList ++ word)
  -- the text that follows leaves steps enough to read the whole word
  obtain ⟨n, hn, hle⟩ : ∃ n, byteLength (front ++ ("return".toList ++ word ++ rest))
      - byteLength front + 1 = n + 1 ∧ ("eturn".toList ++ word).length ≤ n := by
    refine ⟨_, rfl, ?_⟩
    simp only [Text.byteLength_append, hreturn, byteLength] at hlength ⊢
    omega
  have hscan : scanWord false (n + 1)
      ⟨'r' :: ("eturn".toList ++ word ++ rest), byteLength front⟩ =
        (⟨'r' :: ("eturn".toList ++ word), false, none,
          ⟨rest, byteLength front + 1 + byteLength ("eturn".toList ++ word)⟩⟩ : Word) := by
    rw [scanWord_cons (by decide), scanWord_append hparts hrest hle]
    rfl
  rw [kindAt, Lexer.bound, hn, hreturn, List.cons_append, List.cons_append, scanToken_of_r,
    wordToken, hscan]
  rfl

theorem kindAt_return (front : List Char) {rest : List Char} (hrest : StopsWord rest) :
    kindAt front ("return".toList ++ rest) = .kwReturn := by
  have h : kindAt front ("return".toList ++ [] ++ rest) = _ :=
    kindAt_return_append front (by simp) hrest
  rw [List.append_nil] at h
  exact h

/-- What goes on with the word makes another word of it. -/
theorem kindAt_return_append_ne (front : List Char) {word rest : List Char} (hne : word ≠ [])
    (hword : ∀ x ∈ word, isIdentifierPart x = true) (hrest : StopsWord rest) :
    kindAt front ("return".toList ++ word ++ rest) ≠ .kwReturn := by
  rw [kindAt_return_append front hword hrest]
  intro h
  have hlist := congrArg String.toList (eq_return_of_ofWord h)
  rw [String.toList_ofList] at hlist
  exact hne (List.append_right_eq_self.mp hlist)

/-! ### The arrow -/

theorem kindAt_arrow (front rest : List Char) : kindAt front ("=>".toList ++ rest) = .arrow :=
  rfl

/-! ### Gaps -/

/-- The characters of white space, by their numbers. -/
def spaceCodes : List Nat :=
  [9, 10, 11, 12, 13, 0x20, 0x85, 0xa0, 0x1680, 0x2000, 0x2001, 0x2002, 0x2003, 0x2004, 0x2005,
    0x2006, 0x2007, 0x2008, 0x2009, 0x200a, 0x2028, 0x2029, 0x202f, 0x205f, 0x3000, 0xfeff]

theorem mem_spaceCodes {x : Char} (h : isSpace x = true) : x.toNat ∈ spaceCodes := by
  simp only [isSpace, Text.isBlank, Bool.or_eq_true, Bool.and_eq_true, decide_eq_true_eq,
    beq_iff_eq] at h
  simp only [spaceCodes, List.mem_cons, List.not_mem_nil, or_false]
  omega

/-- A blank or a comment ends a word. -/
theorem stopsWord_gap {gap rest : List Char} (hne : gap ≠ [])
    (h : ∀ x ∈ gap.head?, isSpace x = true ∨ x = '/') : StopsWord (gap ++ rest) := by
  obtain ⟨x, xs, rfl⟩ := List.exists_cons_of_ne_nil hne
  intro y hy
  obtain rfl : x = y := by simpa using hy
  rcases h x rfl with hspace | rfl
  · have hcodes : (spaceCodes.all fun n => Char.ofNat n != '\\' &&
        !isIdentifierPart (Char.ofNat n) && !isPictograph (Char.ofNat n)) = true := by
      decide +kernel
    have := List.all_eq_true.mp hcodes _ (mem_spaceCodes hspace)
    rw [Char.ofNat_toNat] at this
    simpa [and_assoc] using this
  · decide

end Phrasebook.Script
