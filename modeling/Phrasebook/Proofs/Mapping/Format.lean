import Phrasebook.Proofs.Mapping.Segments

/-!
# What reading mappings accepts

`Reads text lines` is the format: pieces between commas on lines between semicolons, each of four
complete numbers of any size, and segments at the running sums of these numbers. Reading gives
every text of the format its segments. What else it accepts are pieces in which a number does not
fit into a word, or breaks off behind so many digits that counting them begins again; without such
pieces it accepts the format only (`decode_iff_reads`).

`LineReads` and `TextReads` are the steps of reading, with the meaning of a piece as a parameter: it
is what reading makes of it, or what the format says of it. The two agree wherever all sums are
positions (`LineReads.imp`).
-/

namespace Phrasebook.Mapping

/-! ### Numbers one behind the other -/

namespace Vlq

/-- Complete numbers one behind the other. -/
inductive Numbers : List Char → List Nat → Prop
  | nil : Numbers [] []
  | cons {cs rest : List Char} {n : Nat} {ns : List Nat} (h : Digits cs n)
    (hrest : Numbers rest ns) : Numbers (cs ++ rest) (n :: ns)

/-- No number is the beginning of a longer one. -/
theorem Digits.unique {cs rest cs' rest' : List Char} {n n' : Nat} (h : Digits cs n)
    (h' : Digits cs' n') (heq : cs ++ rest = cs' ++ rest') : n = n' ∧ rest = rest' := by
  -- the first digit says whether another one follows
  induction h generalizing cs' n' with
  | last hc hd =>
    cases h' with
    | last hc' _ =>
      obtain ⟨rfl, rfl⟩ := List.cons.inj heq
      exact ⟨Option.some.inj (hc.symm.trans hc'), rfl⟩
    | more hc' hd' _ =>
      obtain ⟨rfl, -⟩ := List.cons.inj heq
      have := Option.some.inj (hc.symm.trans hc')
      omega
  | more hc hd _ ih =>
    cases h' with
    | last hc' hd' =>
      obtain ⟨rfl, -⟩ := List.cons.inj heq
      have := Option.some.inj (hc.symm.trans hc')
      omega
    | more hc' _ hcs' =>
      obtain ⟨rfl, htail⟩ := List.cons.inj heq
      obtain ⟨rfl, hrest⟩ := ih hcs' htail
      rw [Option.some.inj (hc.symm.trans hc')]
      exact ⟨rfl, hrest⟩

theorem Digits.ne_nil {cs : List Char} {n : Nat} (h : Digits cs n) : cs ≠ [] := by
  cases h <;> exact List.cons_ne_nil _ _

theorem Numbers.unique {cs : List Char} {ns ns' : List Nat} (h : Numbers cs ns)
    (h' : Numbers cs ns') : ns = ns' := by
  induction h generalizing ns' with
  | nil =>
    generalize hcs : ([] : List Char) = cs at h'
    cases h' with
    | nil => rfl
    | cons hn _ => exact absurd (List.append_eq_nil_iff.mp hcs.symm).1 hn.ne_nil
  | @cons cs rest n ns hn _ ih =>
    generalize hall : cs ++ rest = all at h'
    cases h' with
    | nil => exact absurd (List.append_eq_nil_iff.mp hall).1 hn.ne_nil
    | cons hn' hrest' =>
      obtain ⟨rfl, rfl⟩ := hn.unique hn' hall
      rw [ih hrest']

theorem Digits.lt_pow {cs : List Char} {n : Nat} (h : Digits cs n) : n < 32 ^ cs.length := by
  induction h with
  | last hc hd => exact hd
  | more hc hd _ ih =>
    have := digit?_lt hc
    rw [List.length_cons, pow_succ]
    omega

theorem Numbers.lt_pow {cs : List Char} {ns : List Nat} (h : Numbers cs ns) :
    ∀ n ∈ ns, n < 32 ^ cs.length := by
  induction h with
  | nil => simp
  | @cons cs rest n ns hn _ ih =>
    have hmono {a : Nat} (ha : a ≤ (cs ++ rest).length) : 32 ^ a ≤ 32 ^ (cs ++ rest).length :=
      Nat.pow_le_pow_right (by decide) ha
    refine List.forall_mem_cons.mpr ⟨lt_of_lt_of_le hn.lt_pow (hmono (by simp)), fun m hm => ?_⟩
    exact lt_of_lt_of_le (ih m hm) (hmono (by simp))

/-- Complete numbers are read as words, and those that fit into a word as what they are. -/
theorem Numbers.exists_words {cs : List Char} {ns : List Nat} (h : Numbers cs ns) :
    ∃ words : List UInt64, decode cs = some (words.map unsigned) ∧
      List.Forall₂ (fun n word => n < 2 ^ 64 → unsigned word = ofSigned n) ns words := by
  induction h with
  | nil => exact ⟨[], rfl, .nil⟩
  | @cons cs rest n ns hn _ ih =>
    obtain ⟨word, hread, -, hexact⟩ := hn.exists_word {}
    obtain ⟨words, hwords, hall⟩ := ih
    refine ⟨word :: words, ?_, .cons (fun hlt => ?_) hall⟩
    · have hrest : decodeFrom {} rest = some (words.map unsigned) := hwords
      rw [decode, hread, hrest]
      rfl
    · have hword := hexact (Partial.hasRoom_start hlt)
      rw [unsigned_eq, hword]
      simp

/-- What is read consists of complete numbers, unless the word that counts the digits begins again.
There `k` digits have been read of the number at the beginning. -/
theorem exists_numbers_of_decodeFrom {cs : List Char} {p : Partial} {k : Nat} {vs : List Int}
    (hshift : p.shift.toNat = 5 * k % 4294967296) (hlength : k + cs.length < 4294967296)
    (h : decodeFrom p cs = some vs) :
    (k = 0 ∧ cs = []) ∨
      ∃ num rest n ns, cs = num ++ rest ∧ Digits num n ∧ Numbers rest ns := by
  induction cs generalizing p k vs with
  | nil =>
    have hzero : p.shift = 0 := by
      by_contra hne
      rw [decodeFrom, if_neg hne] at h
      cases h
    -- five is odd, so that fewer than `2 ^ 32` digits never bring the word back to zero
    have hmod : 5 * k % 4294967296 = 0 := by rw [← hshift, hzero, UInt32.toNat_zero]
    have hdvd : 4294967296 ∣ k :=
      Nat.Coprime.dvd_of_dvd_mul_left (by decide) (Nat.dvd_of_mod_eq_zero hmod)
    exact .inl ⟨Nat.eq_zero_of_dvd_of_lt hdvd hlength, rfl⟩
  | cons c cs ih =>
    rw [List.length_cons] at hlength
    rw [decodeFrom] at h
    obtain ⟨d, hd, h⟩ := Option.bind_eq_some_iff.mp h
    right
    by_cases h32 : 32 ≤ d
    · rw [if_pos h32] at h
      have hnext : (p.shift + 5).toNat = 5 * (k + 1) % 4294967296 := by
        have hfive : (5 : UInt32).toNat = 5 := rfl
        rw [UInt32.toNat_add, hshift, hfive]
        omega
      rcases ih hnext (by omega) h with ⟨hk, -⟩ | ⟨num, rest, n, ns, rfl, hnum, hrest⟩
      · omega
      · exact ⟨c :: num, rest, _, ns, rfl, .more hd h32 hnum, hrest⟩
    · rw [if_neg h32] at h
      obtain ⟨vs', hvs', -⟩ := Option.map_eq_some_iff.mp h
      have hlast : Digits [c] d := .last hd (by omega)
      rcases ih (p := {}) (k := 0) rfl (by omega) hvs' with
        ⟨-, rfl⟩ | ⟨num, rest, n, ns, rfl, hnum, hrest⟩
      · exact ⟨[c], [], d, [], rfl, hlast, .nil⟩
      · exact ⟨[c], num ++ rest, d, n :: ns, rfl, hlast, .cons hnum hrest⟩

theorem exists_numbers_of_decode {cs : List Char} {vs : List Int} (hlength : cs.length < 2 ^ 32)
    (h : decode cs = some vs) : ∃ ns, Numbers cs ns := by
  rcases exists_numbers_of_decodeFrom (p := {}) (k := 0) rfl (by omega) h with
    ⟨-, rfl⟩ | ⟨num, rest, n, ns, rfl, hnum, hrest⟩
  · exact ⟨[], .nil⟩
  · exact ⟨n :: ns, .cons hnum hrest⟩

end Vlq

/-! ### The format -/

/-- The numbers of a segment, each less the one before it. -/
structure Move where
  col : Int
  source : Int
  sourceLine : Int
  sourceCol : Int

/-- A piece that is well formed. -/
def IsMove (piece : List Char) (m : Move) : Prop :=
  ∃ a b c d, Vlq.Numbers piece [a, b, c, d] ∧
    m = ⟨Vlq.ofSigned a, Vlq.ofSigned b, Vlq.ofSigned c, Vlq.ofSigned d⟩

/-- The pieces of a line; empty ones do not count. -/
def piecesOf (line : List Char) : List (List Char) := (Text.splitOn ',' line).filter (· ≠ [])

/-- The sums behind the moves `line` at the beginning of a line, with the moves `earlier` on the
lines in front of it. -/
def sumsOf (earlier line : List Move) : Sums where
  col := (line.map (·.col)).sum
  sourceLine := ((earlier ++ line).map (·.sourceLine)).sum
  sourceCol := ((earlier ++ line).map (·.sourceCol)).sum

/-- The sums behind each move, line by line. -/
def runningSums (earlier : List Move) : List (List Move) → List (List Sums)
  | [] => []
  | line :: rest => line.inits.tail.map (sumsOf earlier) :: runningSums (earlier ++ line) rest

/-- The segment is at these sums, all of which are positions. -/
def Segment.StandsAt (s : Segment) (sums : Sums) : Prop :=
  sums = .at s.generatedCol s.source ∧ s.Fits

/-- The text has these segments. -/
def Reads (text : List Char) (lines : List (List Segment)) : Prop :=
  ∃ moves, List.Forall₂ (List.Forall₂ IsMove) ((Text.splitOn ';' text).map piecesOf) moves ∧
    List.Forall₂ (List.Forall₂ Segment.StandsAt) lines (runningSums [] moves)

/-! ### Steps -/

def Sums.add (sums : Sums) (m : Move) : Sums :=
  ⟨sums.col + m.col, sums.sourceLine + m.sourceLine, sums.sourceCol + m.sourceCol⟩

/-- The four numbers that reading makes of a piece. -/
def IsRead (piece : List Char) (m : Move) : Prop :=
  Vlq.decode piece = some [m.col, m.source, m.sourceLine, m.sourceCol]

/-- Reading the pieces of a line, when `R` says what a piece means. -/
inductive LineReads (R : List Char → Move → Prop) :
    Sums → List (List Char) → List Segment → Sums → Prop
  | nil {sums : Sums} : LineReads R sums [] [] sums
  | cons {sums sums' : Sums} {piece : List Char} {pieces : List (List Char)} {m : Move}
    {s : Segment} {segments : List Segment} (hm : R piece m) (hs : s.StandsAt (sums.add m))
    (h : LineReads R (sums.add m) pieces segments sums') :
    LineReads R sums (piece :: pieces) (s :: segments) sums'

/-- Reading lines. -/
inductive TextReads (R : List Char → Move → Prop) :
    Sums → List (List Char) → List (List Segment) → Prop
  | nil {sums : Sums} : TextReads R sums [] []
  | cons {sums sums' : Sums} {line : List Char} {rest : List (List Char)}
    {segments : List Segment} {lines : List (List Segment)}
    (hline : LineReads R { sums with col := 0 } (piecesOf line) segments sums')
    (h : TextReads R sums' rest lines) : TextReads R sums (line :: rest) (segments :: lines)

theorem position?_eq_some_iff {n : Int} {a : Nat} :
    position? n = some a ↔ n = a ∧ a < 0x100000000 := by
  unfold position?
  split
  · rw [Option.some.injEq]
    omega
  · simp only [reduceCtorEq, false_iff]
    omega

theorem decodeSegment_eq_some_iff {sums sums' : Sums} {piece : List Char} {s : Segment} :
    decodeSegment sums piece = some (s, sums') ↔
      ∃ m, IsRead piece m ∧ sums' = sums.add m ∧ s.StandsAt sums' := by
  constructor
  · intro h
    unfold decodeSegment at h
    split at h
    · rename_i col source line sourceCol hread
      simp only [Option.bind_eq_bind, Option.bind_eq_some_iff, position?_eq_some_iff,
        Option.some.injEq, Prod.mk.injEq] at h
      obtain ⟨a, ⟨ha, ha'⟩, b, ⟨hb, hb'⟩, c, ⟨hc, hc'⟩, rfl, rfl⟩ := h
      refine ⟨⟨col, source, line, sourceCol⟩, hread, rfl, ?_, ha', hb', hc'⟩
      simp only [Sums.at, ha, hb, hc]
    · cases h
  · rintro ⟨m, hread, rfl, hat, hfits⟩
    have hcol : position? (sums.add m).col = some s.generatedCol :=
      position?_eq_some_iff.mpr ⟨by rw [hat]; rfl, hfits.1⟩
    have hline : position? (sums.add m).sourceLine = some s.source.line :=
      position?_eq_some_iff.mpr ⟨by rw [hat]; rfl, hfits.2.1⟩
    have hsource : position? (sums.add m).sourceCol = some s.source.col :=
      position?_eq_some_iff.mpr ⟨by rw [hat]; rfl, hfits.2.2⟩
    unfold IsRead at hread
    simp only [Sums.add] at hcol hline hsource
    simp [decodeSegment, hread, hcol, hline, hsource, Sums.add]

theorem decodeLine_eq_some_iff {pieces : List (List Char)} {sums sums' : Sums}
    {segments : List Segment} : decodeLine sums pieces = some (segments, sums') ↔
      LineReads IsRead sums pieces segments sums' := by
  constructor
  · intro h
    induction pieces generalizing sums segments with
    | nil =>
      obtain ⟨rfl, rfl⟩ := Prod.mk.inj (Option.some.inj h)
      exact .nil
    | cons piece pieces ih =>
      simp only [decodeLine, Option.bind_eq_bind, Option.bind_eq_some_iff, Option.some.injEq,
        Prod.mk.injEq] at h
      obtain ⟨⟨s, next⟩, hs, ⟨rest, last⟩, hrest, rfl, rfl⟩ := h
      obtain ⟨m, hm, rfl, hat⟩ := decodeSegment_eq_some_iff.mp hs
      exact .cons hm hat (ih hrest)
  · intro h
    induction h with
    | nil => rfl
    | cons hm hs _ ih => simp [decodeLine, decodeSegment_eq_some_iff.mpr ⟨_, hm, rfl, hs⟩, ih]

theorem decodeLines_eq_some_iff {texts : List (List Char)} {sums : Sums}
    {lines : List (List Segment)} : decodeLines sums texts = some lines ↔
      TextReads IsRead sums texts lines := by
  constructor
  · intro h
    induction texts generalizing sums lines with
    | nil =>
      obtain rfl := Option.some.inj h
      exact .nil
    | cons line rest ih =>
      simp only [decodeLines, Option.bind_eq_bind, Option.bind_eq_some_iff,
        Option.some.injEq] at h
      obtain ⟨⟨segments, next⟩, hline, lines, hrest, rfl⟩ := h
      exact .cons (decodeLine_eq_some_iff.mp hline) (ih hrest)
  · intro h
    induction h with
    | nil => rfl
    | cons hline _ ih =>
      have hfirst := decodeLine_eq_some_iff.mpr hline
      unfold piecesOf at hfirst
      simp only [decodeLines, hfirst, ih, Option.bind_eq_bind, Option.bind_some]

/-! ### Other meanings of the pieces -/

/-- All sums are positions. -/
def Sums.InRange (sums : Sums) : Prop :=
  (0 ≤ sums.col ∧ sums.col < 2 ^ 32) ∧ (0 ≤ sums.sourceLine ∧ sums.sourceLine < 2 ^ 32) ∧
    (0 ≤ sums.sourceCol ∧ sums.sourceCol < 2 ^ 32)

theorem Segment.StandsAt.inRange {s : Segment} {sums : Sums} (h : s.StandsAt sums) :
    sums.InRange := by
  obtain ⟨rfl, hcol, hline, hsource⟩ := h
  simp only [Sums.InRange, Sums.at]
  omega

theorem Sums.InRange.newLine {sums : Sums} (h : sums.InRange) :
    ({ sums with col := 0 } : Sums).InRange := ⟨⟨le_rfl, by norm_num⟩, h.2⟩

/-- Where the sums go on to be positions, a piece that means something to `R` has the same effect
for `R'`. -/
def SameEffect (R R' : List Char → Move → Prop) (piece : List Char) : Prop :=
  ∀ (m : Move) (sums : Sums), R piece m → sums.InRange → (sums.add m).InRange →
    ∃ m', R' piece m' ∧ sums.add m' = sums.add m

section Imp

variable {R R' : List Char → Move → Prop} {sums sums' : Sums}

theorem LineReads.imp {pieces : List (List Char)} {segments : List Segment}
    (h : LineReads R sums pieces segments sums') (hsums : sums.InRange)
    (himp : ∀ piece ∈ pieces, SameEffect R R' piece) :
    LineReads R' sums pieces segments sums' ∧ sums'.InRange := by
  induction h with
  | nil => exact ⟨.nil, hsums⟩
  | @cons sums sums' piece pieces m s segments hm hs _ ih =>
    obtain ⟨hpiece, himp⟩ := List.forall_mem_cons.mp himp
    obtain ⟨m', hm', hadd⟩ := hpiece m sums hm hsums hs.inRange
    obtain ⟨hrest, hlast⟩ := ih hs.inRange himp
    rw [← hadd] at hs hrest
    exact ⟨.cons hm' hs hrest, hlast⟩

theorem TextReads.imp {texts : List (List Char)} {lines : List (List Segment)}
    (h : TextReads R sums texts lines) (hsums : sums.InRange)
    (himp : ∀ line ∈ texts, ∀ piece ∈ piecesOf line, SameEffect R R' piece) :
    TextReads R' sums texts lines := by
  induction h with
  | nil => exact .nil
  | cons hline _ ih =>
    obtain ⟨hfirst, himp⟩ := List.forall_mem_cons.mp himp
    obtain ⟨hline', hlast⟩ := hline.imp hsums.newLine hfirst
    exact .cons hline' (ih hlast himp)

end Imp

/-- What the format says of a piece and what reading makes of it have the same effect, as long as
the sums are positions: numbers that lead from one position to another are small. -/
theorem sameEffect_isMove (piece : List Char) : SameEffect IsMove IsRead piece := by
  rintro m sums ⟨a, b, c, d, hnumbers, rfl⟩ hsums hnext
  obtain ⟨words, hdecode, hwords⟩ := hnumbers.exists_words
  obtain ⟨hsumsCol, hsumsLine, hsumsSource⟩ := hsums
  obtain ⟨hnextCol, hnextLine, hnextSource⟩ := hnext
  simp only [Sums.add] at hnextCol hnextLine hnextSource
  have hsmall {n : Nat} {u : Int} (hu : 0 ≤ u ∧ u < 2 ^ 32)
      (hv : 0 ≤ u + Vlq.ofSigned n ∧ u + Vlq.ofSigned n < 2 ^ 32) : n < 2 ^ 64 := by
    unfold Vlq.ofSigned at hv
    split at hv <;> omega
  simp only [List.forall₂_cons_left_iff, List.forall₂_nil_left_iff] at hwords
  obtain ⟨wa, -, ha, ⟨wb, -, -, ⟨wc, -, hc, ⟨wd, -, hd, rfl, rfl⟩, rfl⟩, rfl⟩, rfl⟩ := hwords
  refine ⟨⟨Vlq.unsigned wa, Vlq.unsigned wb, Vlq.unsigned wc, Vlq.unsigned wd⟩, hdecode, ?_⟩
  simp only [Sums.add, ha (hsmall hsumsCol hnextCol), hc (hsmall hsumsLine hnextLine),
    hd (hsmall hsumsSource hnextSource)]

/-- The numbers of the piece that count fit into words, and so does the number of its letters. -/
def FitsWords (piece : List Char) : Prop :=
  piece.length < 2 ^ 32 ∧ ∀ a b c d, Vlq.Numbers piece [a, b, c, d] →
    a < 2 ^ 64 ∧ c < 2 ^ 64 ∧ d < 2 ^ 64

theorem sameEffect_isRead {piece : List Char} (h : FitsWords piece) :
    SameEffect IsRead IsMove piece := by
  rintro m sums hread - -
  obtain ⟨ns, hnumbers⟩ := Vlq.exists_numbers_of_decode h.1 hread
  obtain ⟨words, hdecode, hwords⟩ := hnumbers.exists_words
  have hvalues := Option.some.inj (hread.symm.trans hdecode)
  have hlength : ns.length = 4 := by
    rw [hwords.length_eq, ← List.length_map (f := Vlq.unsigned), ← hvalues]
    rfl
  match ns, hlength with
  | [a, b, c, d], _ =>
    obtain ⟨ha', hc', hd'⟩ := h.2 a b c d hnumbers
    simp only [List.forall₂_cons_left_iff, List.forall₂_nil_left_iff] at hwords
    obtain ⟨wa, -, ha, ⟨wb, -, hb, ⟨wc, -, hc, ⟨wd, -, hd, rfl, rfl⟩, rfl⟩, rfl⟩, rfl⟩ := hwords
    simp only [List.map_cons, List.map_nil, List.cons.injEq, and_true] at hvalues
    obtain ⟨hcol, -, hline, hsource⟩ := hvalues
    refine ⟨_, ⟨a, b, c, d, hnumbers, rfl⟩, ?_⟩
    simp only [Sums.add, hcol, hline, hsource, ha ha', hc hc', hd hd']

/-! ### Running sums -/

section RunningSums

variable {R : List Char → Move → Prop} {earlier : List Move}

theorem sumsOf_concat (done : List Move) (m : Move) :
    sumsOf earlier (done ++ [m]) = (sumsOf earlier done).add m := by
  simp [sumsOf, Sums.add, add_assoc]

theorem map_inits_cons (done : List Move) (m : Move) (ms : List Move) :
    ((m :: ms).inits.tail.map fun front => sumsOf earlier (done ++ front)) =
      sumsOf earlier (done ++ [m]) ::
        ms.inits.tail.map fun front => sumsOf earlier ((done ++ [m]) ++ front) := by
  cases ms <;> simp [List.inits]

/-- The sums behind the moves that follow `done` on a line. -/
theorem lineReads_iff {pieces : List (List Char)} {segments : List Segment} {sums' : Sums}
    (done : List Move) : LineReads R (sumsOf earlier done) pieces segments sums' ↔
      ∃ ms, List.Forall₂ R pieces ms ∧
        List.Forall₂ Segment.StandsAt segments
          (ms.inits.tail.map fun front => sumsOf earlier (done ++ front)) ∧
        sums' = sumsOf earlier (done ++ ms) := by
  constructor
  · intro h
    -- what has been read is given up one move at a time, so `done` grows
    generalize hsums : sumsOf earlier done = sums at h
    induction h generalizing done with
    | nil => exact ⟨[], .nil, .nil, by rw [List.append_nil, hsums]⟩
    | @cons sums sums' piece pieces m s segments hm hs _ ih =>
      obtain ⟨ms, hms, hsegments, hlast⟩ := ih (done ++ [m]) (by rw [sumsOf_concat, hsums])
      refine ⟨m :: ms, .cons hm hms, ?_, by rw [hlast, List.append_assoc]; rfl⟩
      rw [map_inits_cons, sumsOf_concat, hsums]
      exact .cons hs hsegments
  · rintro ⟨ms, hms, hsegments, rfl⟩
    induction hms generalizing done segments with
    | nil =>
      cases hsegments
      rw [List.append_nil]
      exact .nil
    | @cons piece m pieces ms hm _ ih =>
      rw [map_inits_cons] at hsegments
      cases hsegments with
      | cons hs hrest =>
        have h := ih (done ++ [m]) hrest
        rw [List.append_assoc, sumsOf_concat] at h
        rw [sumsOf_concat] at hs
        exact .cons hm hs h

theorem textReads_iff {texts : List (List Char)} {lines : List (List Segment)} {sums : Sums}
    (hsums : { sums with col := 0 } = sumsOf earlier []) :
    TextReads R sums texts lines ↔
      ∃ moves, List.Forall₂ (List.Forall₂ R) (texts.map piecesOf) moves ∧
        List.Forall₂ (List.Forall₂ Segment.StandsAt) lines (runningSums earlier moves) := by
  have hnext (ms : List Move) : ({ sumsOf earlier ms with col := 0 } : Sums) =
      sumsOf (earlier ++ ms) [] := by
    simp [sumsOf]
  constructor
  · intro h
    induction h generalizing earlier with
    | nil => exact ⟨[], .nil, .nil⟩
    | cons hline _ ih =>
      rw [hsums] at hline
      obtain ⟨ms, hms, hsegments, rfl⟩ := (lineReads_iff []).mp hline
      obtain ⟨moves, hmoves, hlines⟩ := ih (hnext ms) fun ms => by simp [sumsOf]
      exact ⟨ms :: moves, .cons hms hmoves, .cons hsegments hlines⟩
  · rintro ⟨moves, hmoves, hlines⟩
    induction texts generalizing earlier sums lines moves with
    | nil =>
      cases hmoves
      cases hlines
      exact .nil
    | cons line rest ih =>
      cases hmoves with
      | cons hms hmoves =>
        cases hlines with
        | cons hsegments hlines =>
          have hline := (lineReads_iff []).mpr ⟨_, hms, hsegments, rfl⟩
          rw [← hsums] at hline
          exact .cons hline (ih (hnext _) (fun ms => by simp [sumsOf]) _ hmoves hlines)

end RunningSums

theorem reads_iff {text : List Char} {lines : List (List Segment)} :
    Reads text lines ↔ TextReads IsMove {} (Text.splitOn ';' text) lines :=
  (@textReads_iff IsMove [] _ _ {} rfl).symm

theorem Sums.inRange_iff {sums : Sums} : sums.InRange ↔ ∃ s : Segment, s.StandsAt sums := by
  refine ⟨fun ⟨hcol, hline, hsource⟩ => ?_, fun ⟨s, hs⟩ => hs.inRange⟩
  refine ⟨⟨sums.col.toNat, sums.sourceLine.toNat, sums.sourceCol.toNat⟩, ?_, ?_, ?_, ?_⟩
  · simp only [Sums.at, Int.toNat_of_nonneg, hcol.1, hline.1, hsource.1]
  all_goals
    simp only
    omega

theorem exists_forall₂_iff {α β : Type} {P : α → β → Prop} {bs : List β} :
    (∃ as, List.Forall₂ P as bs) ↔ ∀ b ∈ bs, ∃ a, P a b := by
  induction bs with
  | nil => exact ⟨fun _ => List.forall_mem_nil _, fun _ => ⟨[], .nil⟩⟩
  | cons b bs ih =>
    rw [List.forall_mem_cons, ← ih]
    constructor
    · rintro ⟨_, _ | ⟨ha, has⟩⟩
      exact ⟨⟨_, ha⟩, _, has⟩
    · rintro ⟨⟨a, ha⟩, as, has⟩
      exact ⟨a :: as, .cons ha has⟩

/-- A text is of the format if its pieces are well formed and all sums are positions. -/
theorem exists_reads_iff {text : List Char} :
    (∃ lines, Reads text lines) ↔
      ∃ moves, List.Forall₂ (List.Forall₂ IsMove) ((Text.splitOn ';' text).map piecesOf) moves ∧
        ∀ line ∈ runningSums [] moves, ∀ sums ∈ line, sums.InRange := by
  simp only [Reads, Sums.inRange_iff, ← exists_forall₂_iff]
  exact ⟨fun ⟨lines, moves, hmoves, hlines⟩ => ⟨moves, hmoves, lines, hlines⟩,
    fun ⟨moves, hmoves, lines, hlines⟩ => ⟨lines, moves, hmoves, hlines⟩⟩

/-! ### The format and reading -/

theorem inRange_zero : ({} : Sums).InRange := by
  norm_num [Sums.InRange]

/-- Every text of the format is read, to its segments. Where all numbers fit into words, nothing
else is read. -/
theorem decode_iff_reads (text : List Char) :
    (∀ lines, Reads text lines → decode text = some lines) ∧
      ((∀ line ∈ Text.splitOn ';' text, ∀ piece ∈ piecesOf line, FitsWords piece) →
        (∀ lines, decode text = some lines ↔ Reads text lines) ∧
          (decode text = none ↔ ¬∃ lines, Reads text lines)) := by
  have hreads : ∀ lines, Reads text lines → decode text = some lines := by
    intro lines h
    rw [decode, decodeLines_eq_some_iff]
    exact (reads_iff.mp h).imp inRange_zero fun _ _ piece _ => sameEffect_isMove piece
  refine ⟨hreads, fun hfits => ?_⟩
  have hiff : ∀ lines, decode text = some lines ↔ Reads text lines := by
    intro lines
    refine ⟨fun h => ?_, hreads lines⟩
    rw [decode, decodeLines_eq_some_iff] at h
    exact reads_iff.mpr (h.imp inRange_zero fun line hline piece hpiece =>
      sameEffect_isRead (hfits line hline piece hpiece))
  refine ⟨hiff, ?_⟩
  simp only [← hiff, Option.eq_none_iff_forall_ne_some, not_exists, ne_eq]

/-- The numbers of a piece of up to twelve letters fit into words. -/
theorem fitsWords_of_length_le {piece : List Char} (h : piece.length ≤ 12) : FitsWords piece := by
  refine ⟨by omega, fun a b c d hnumbers => ?_⟩
  have hlt : ∀ n ∈ [a, b, c, d], n < 2 ^ 64 := fun n hn => by
    calc n < 32 ^ piece.length := hnumbers.lt_pow n hn
      _ ≤ 32 ^ 12 := Nat.pow_le_pow_right (by decide) h
      _ < 2 ^ 64 := by decide
  exact ⟨hlt a (by simp), hlt c (by simp), hlt d (by simp)⟩

def threeLines : List Char := "KACE,,DADC;;ICAA".toList

theorem decode_iff_reads_threeLines : ∃ lines, Reads threeLines lines ∧
    lines = [[⟨5, ⟨1, 2⟩⟩, ⟨4, ⟨0, 3⟩⟩], [], [⟨4, ⟨0, 3⟩⟩]] := by
  have hfits : ∀ line ∈ Text.splitOn ';' threeLines, ∀ piece ∈ piecesOf line,
      FitsWords piece := by
    have hlength : ∀ line ∈ Text.splitOn ';' threeLines, ∀ piece ∈ piecesOf line,
        piece.length ≤ 12 := by decide +kernel
    exact fun line hline piece hpiece => fitsWords_of_length_le (hlength line hline piece hpiece)
  have hdecode : decode threeLines = some [[⟨5, ⟨1, 2⟩⟩, ⟨4, ⟨0, 3⟩⟩], [], [⟨4, ⟨0, 3⟩⟩]] := by
    decide +kernel
  exact ⟨_, (((decode_iff_reads threeLines).2 hfits).1 _).mp hdecode, rfl⟩

/-- A number of twelve zero digits and one that is not zero. -/
theorem Vlq.digits_replicate (k : Nat) : Digits (List.replicate k 'g' ++ ['Q']) (16 * 32 ^ k) := by
  induction k with
  | zero => exact .last (by decide +kernel) (by decide)
  | succ k ih =>
    have hmore := Digits.more (c := 'g') (d := 32) (by decide +kernel) le_rfl ih
    have hvalue : 32 - 32 + 32 * (16 * 32 ^ k) = 16 * 32 ^ (k + 1) := by ring
    rwa [hvalue] at hmore

/-- The first number of this text, `2 ^ 64`, is read as zero. -/
def lostDigit : List Char := "ggggggggggggQAAA".toList

theorem decode_lostDigit :
    decode lostDigit = some [[⟨0, ⟨0, 0⟩⟩]] ∧ ¬∃ lines, Reads lostDigit lines := by
  refine ⟨by decide +kernel, ?_⟩
  intro h
  have hzero : Vlq.Digits ['A'] 0 := .last (by decide +kernel) (by decide)
  have hnumbers : Vlq.Numbers lostDigit [16 * 32 ^ 12, 0, 0, 0] :=
    .cons (Vlq.digits_replicate 12) (.cons hzero (.cons hzero (.cons hzero .nil)))
  have hsplit : (Text.splitOn ';' lostDigit).map piecesOf = [[lostDigit]] := by decide +kernel
  obtain ⟨moves, hmoves, hrange⟩ := exists_reads_iff.mp h
  rw [hsplit] at hmoves
  simp only [List.forall₂_cons_left_iff, List.forall₂_nil_left_iff] at hmoves
  obtain ⟨_, _, ⟨m, _, ⟨a, b, c, d, hread, rfl⟩, rfl, rfl⟩, rfl, rfl⟩ := hmoves
  obtain ⟨rfl, rfl, rfl, rfl⟩ : a = 16 * 32 ^ 12 ∧ b = 0 ∧ c = 0 ∧ d = 0 := by
    simpa using hread.unique hnumbers
  have hcol : Vlq.ofSigned (16 * 32 ^ 12) = 2 ^ 63 := by decide
  rw [hcol] at hrange
  have hsum := hrange _ (List.mem_singleton_self _) _ (List.mem_singleton_self _)
  simp [Sums.InRange, sumsOf] at hsum

end Phrasebook.Mapping
