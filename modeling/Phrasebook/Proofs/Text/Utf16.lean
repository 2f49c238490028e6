import Phrasebook.Text.Surrogates

/-!
# Texts in 16-bit units

A text has one sequence of 16-bit units (`utf16`), from which it can be read back
(`ofUnits_utf16`). Numbers are no text exactly when a surrogate among them stands alone
(`ofUnits_eq_none_iff`), and what is read of them denotes the units they stand for
(`denotes_ofUnits`).
-/

namespace Phrasebook.Text

/-- The units of the character with a number: the number itself or, if it is too large, a high and
a low surrogate. -/
def unitsOf (n : Nat) : List Nat :=
  if n < 0x10000 then [n] else [0xd800 + (n - 0x10000) / 0x400, 0xdc00 + (n - 0x10000) % 0x400]

def utf16 (cs : List Char) : List Nat := cs.flatMap fun c => unitsOf c.toNat

@[simp] theorem utf16_nil : utf16 [] = [] := rfl

@[simp] theorem utf16_cons (c : Char) (cs : List Char) :
    utf16 (c :: cs) = unitsOf c.toNat ++ utf16 cs := rfl

@[simp] theorem utf16_append (cs ds : List Char) : utf16 (cs ++ ds) = utf16 cs ++ utf16 ds :=
  List.flatMap_append

/-! ### Reading characters -/

/-- The numbers of characters are those up to the last one that are no surrogates. -/
theorem isValidChar_iff {n : Nat} : n.isValidChar ↔
    n < 0x110000 ∧ isHighSurrogate n = false ∧ isLowSurrogate n = false := by
  simp only [isHighSurrogate, isLowSurrogate, Bool.and_eq_false_iff, decide_eq_false_iff_not]
  show (n < 0xd800 ∨ 0xdfff < n ∧ n < 0x110000) ↔ _
  omega

/-- What is no surrogate is a character of its own, whatever follows. -/
theorem ofUnits_cons {n : Nat} (hhigh : isHighSurrogate n = false) (hlow : isLowSurrogate n = false)
    (us : List Nat) : ofUnits (n :: us) = (ofUnits us).map (Char.ofNat n :: ·) := by
  cases us with
  | nil => simp [ofUnits, hhigh, hlow]
  | cons u us => simp [ofUnits, hhigh, hlow]

theorem ofUnits_pair {high low : Nat} (hhigh : isHighSurrogate high = true)
    (hlow : isLowSurrogate low = true) (us : List Nat) :
    ofUnits (high :: low :: us) = (ofUnits us).map (Char.ofNat (joinPair high low) :: ·) := by
  simp [ofUnits, hhigh, hlow]

/-- Numbers of characters are read as these characters. -/
theorem ofUnits_map_toNat (cs : List Char) : ofUnits (cs.map Char.toNat) = some cs := by
  induction cs with
  | nil => rfl
  | cons c cs ih =>
    obtain ⟨-, hhigh, hlow⟩ := (isValidChar_iff (n := c.toNat)).mp c.valid
    rw [List.map_cons, ofUnits_cons hhigh hlow, ih, Option.map_some, Char.ofNat_toNat]

/-- The units of a character are read as this character. -/
theorem ofUnits_unitsOf {n : Nat} (hvalid : n.isValidChar) (us : List Nat) :
    ofUnits (unitsOf n ++ us) = (ofUnits us).map (Char.ofNat n :: ·) := by
  obtain ⟨hlast, hhigh, hlow⟩ := isValidChar_iff.mp hvalid
  rcases Nat.lt_or_ge n 0x10000 with hsmall | hlarge
  · rw [unitsOf, if_pos hsmall, List.singleton_append, ofUnits_cons hhigh hlow]
  · obtain ⟨k, rfl⟩ := Nat.exists_eq_add_of_le hlarge
    have hunits : unitsOf (0x10000 + k) = [0xd800 + k / 0x400, 0xdc00 + k % 0x400] := by
      rw [unitsOf, if_neg (by omega), Nat.add_sub_cancel_left]
    have hhigh : isHighSurrogate (0xd800 + k / 0x400) = true := by
      simp only [isHighSurrogate, Bool.and_eq_true, decide_eq_true_eq]
      omega
    have hlow : isLowSurrogate (0xdc00 + k % 0x400) = true := by
      simp only [isLowSurrogate, Bool.and_eq_true, decide_eq_true_eq]
      omega
    have hjoin : joinPair (0xd800 + k / 0x400) (0xdc00 + k % 0x400) = 0x10000 + k := by
      unfold joinPair
      omega
    rw [hunits, List.cons_append, List.singleton_append, ofUnits_pair hhigh hlow, hjoin]

theorem ofUnits_utf16 (cs : List Char) : ofUnits (utf16 cs) = some cs := by
  induction cs with
  | nil => rfl
  | cons c cs ih =>
    rw [utf16_cons, ofUnits_unitsOf (n := c.toNat) c.valid, ih, Option.map_some, Char.ofNat_toNat]

/-! ### Surrogates that stand alone -/

/-- Somewhere stands a high surrogate in front of no low one, or a low one behind no high one. -/
def HasLoneSurrogate (us : List Nat) : Prop :=
  ∃ front u back, us = front ++ u :: back ∧
    ((isHighSurrogate u = true ∧ ∀ v ∈ back.head?, isLowSurrogate v = false) ∨
      (isLowSurrogate u = true ∧ ∀ v ∈ front.getLast?, isHighSurrogate v = false))

theorem low_of_high {n : Nat} (h : isHighSurrogate n = true) : isLowSurrogate n = false := by
  simp only [isHighSurrogate, isLowSurrogate, Bool.and_eq_true, decide_eq_true_eq,
    Bool.and_eq_false_iff, decide_eq_false_iff_not] at h ⊢
  omega

theorem high_of_low {n : Nat} (h : isLowSurrogate n = true) : isHighSurrogate n = false := by
  cases hhigh : isHighSurrogate n with
  | false => rfl
  | true => rw [low_of_high hhigh] at h; cases h

section

variable {us : List Nat}

theorem not_hasLoneSurrogate_nil : ¬ HasLoneSurrogate [] := by
  rintro ⟨front, u, back, h, -⟩
  simp at h

/-- A unit that is no high surrogate, in front of one that stands alone, changes nothing. -/
theorem HasLoneSurrogate.cons (h : HasLoneSurrogate us) {n : Nat}
    (hn : isHighSurrogate n = false) : HasLoneSurrogate (n :: us) := by
  obtain ⟨front, u, back, rfl, halone⟩ := h
  refine ⟨n :: front, u, back, rfl, halone.imp_right fun hlow => ⟨hlow.1, ?_⟩⟩
  cases front with
  | nil => simpa using hn
  | cons m front => simpa only [List.getLast?_cons_cons] using hlow.2

theorem hasLoneSurrogate_cons_iff {n : Nat} (hhigh : isHighSurrogate n = false)
    (hlow : isLowSurrogate n = false) : HasLoneSurrogate (n :: us) ↔ HasLoneSurrogate us := by
  refine ⟨?_, fun h => h.cons hhigh⟩
  rintro ⟨front, u, back, heq, halone⟩
  cases front with
  | nil =>
    obtain ⟨rfl, rfl⟩ := List.cons.inj heq
    simp [hhigh, hlow] at halone
  | cons m front =>
    obtain ⟨rfl, rfl⟩ := List.cons.inj heq
    refine ⟨front, u, back, rfl, halone.imp_right fun hlow => ⟨hlow.1, fun v hv => hlow.2 v ?_⟩⟩
    cases front with
    | nil => cases hv
    | cons m' front => simpa only [List.getLast?_cons_cons] using hv

theorem hasLoneSurrogate_pair_iff {high low : Nat} (hhigh : isHighSurrogate high = true)
    (hlow : isLowSurrogate low = true) :
    HasLoneSurrogate (high :: low :: us) ↔ HasLoneSurrogate us := by
  constructor
  · rintro ⟨front, u, back, heq, halone⟩
    -- neither half of the pair stands alone, so what does stands behind them
    match front with
    | [] =>
      obtain ⟨rfl, rfl⟩ := List.cons.inj heq
      simp [hlow, low_of_high hhigh] at halone
    | [m] =>
      obtain ⟨rfl, hrest⟩ := List.cons.inj heq
      obtain ⟨rfl, rfl⟩ := List.cons.inj hrest
      simp [hhigh, high_of_low hlow] at halone
    | m :: m' :: front =>
      obtain ⟨rfl, hrest⟩ := List.cons.inj heq
      obtain ⟨rfl, rfl⟩ := List.cons.inj hrest
      refine ⟨front, u, back, rfl, halone.imp_right fun hlow => ⟨hlow.1, fun v hv => hlow.2 v ?_⟩⟩
      cases front with
      | nil => cases hv
      | cons m'' front => simpa only [List.getLast?_cons_cons] using hv
  · rintro ⟨front, u, back, rfl, halone⟩
    refine ⟨high :: low :: front, u, back, rfl, halone.imp_right fun hback => ⟨hback.1, ?_⟩⟩
    cases front with
    | nil => simpa using high_of_low hlow
    | cons m front => simpa only [List.getLast?_cons_cons] using hback.2

theorem ofUnits_eq_none_iff : ofUnits us = none ↔ HasLoneSurrogate us := by
  fun_induction ofUnits us with
  | case1 => simp [not_hasLoneSurrogate_nil]
  | case2 high low rest hhigh hlow ih =>
    rw [Option.map_eq_none_iff, ih, hasLoneSurrogate_pair_iff hhigh hlow]
  | case3 high low rest hhigh hlow =>
    have hlone : HasLoneSurrogate (high :: low :: rest) :=
      ⟨[], high, low :: rest, rfl, .inl ⟨hhigh, by simpa using hlow⟩⟩
    simp [hlone]
  | case4 high low rest hhigh hlow =>
    have hlone : HasLoneSurrogate (high :: low :: rest) :=
      ⟨[], high, low :: rest, rfl, .inr ⟨hlow, by simp⟩⟩
    simp [hlone]
  | case5 n m rest hhigh hlow ih =>
    rw [Bool.not_eq_true] at hhigh hlow
    rw [Option.map_eq_none_iff, ih, hasLoneSurrogate_cons_iff hhigh hlow]
  | case6 n hn =>
    have hlone : HasLoneSurrogate [n] := by
      rw [Bool.or_eq_true] at hn
      exact ⟨[], n, [], rfl, hn.imp (⟨·, by simp⟩) (⟨·, by simp⟩)⟩
    simp [hlone]
  | case7 n hn =>
    rw [Bool.not_eq_true, Bool.or_eq_false_iff] at hn
    simp [hasLoneSurrogate_cons_iff hn.1 hn.2, not_hasLoneSurrogate_nil]

theorem not_hasLoneSurrogate_utf16 (cs : List Char) : ¬ HasLoneSurrogate (utf16 cs) := by
  rw [← ofUnits_eq_none_iff, ofUnits_utf16]
  simp

end

/-! ### What a text with surrogates stands for -/

/-- The units behind what was read: those of its characters or, where it was no text, some among
which a surrogate stands alone. -/
def Denotes : Option (List Char) → List Nat → Prop
  | some cs, us => us = utf16 cs
  | none, us => HasLoneSurrogate us

theorem Denotes.eq_none_iff {value : Option (List Char)} {us : List Nat} (h : Denotes value us) :
    value = none ↔ HasLoneSurrogate us := by
  cases value with
  | none => exact ⟨fun _ => h, fun _ => rfl⟩
  | some cs =>
    have hus : us = utf16 cs := h
    simp [hus, not_hasLoneSurrogate_utf16]

theorem toNat_ofNat {n : Nat} (hvalid : n.isValidChar) : (Char.ofNat n).toNat = n := by
  rw [Char.ofNat, dif_pos hvalid]
  rfl

theorem Denotes.unitsOf {value : Option (List Char)} {us : List Nat} (h : Denotes value us)
    {n : Nat} (hvalid : n.isValidChar) :
    Denotes (value.map (Char.ofNat n :: ·)) (unitsOf n ++ us) := by
  cases value with
  | none =>
    show HasLoneSurrogate _
    rw [← ofUnits_eq_none_iff, ofUnits_unitsOf hvalid, ofUnits_eq_none_iff.mpr h]
    rfl
  | some cs =>
    have hus : us = utf16 cs := h
    show _ = utf16 (Char.ofNat n :: cs)
    rw [utf16_cons, toNat_ofNat hvalid, hus]

theorem unitsOf_joinPair {high low : Nat} (hhigh : isHighSurrogate high = true)
    (hlow : isLowSurrogate low = true) :
    (joinPair high low).isValidChar ∧ unitsOf (joinPair high low) = [high, low] := by
  simp only [isHighSurrogate, isLowSurrogate, Bool.and_eq_true, decide_eq_true_eq] at hhigh hlow
  obtain ⟨k, rfl⟩ := Nat.exists_eq_add_of_le hhigh.1
  obtain ⟨j, rfl⟩ := Nat.exists_eq_add_of_le hlow.1
  have hjoin : joinPair (0xd800 + k) (0xdc00 + j) = 0x10000 + (0x400 * k + j) := by
    unfold joinPair
    omega
  rw [hjoin, unitsOf, if_neg (by omega), Nat.add_sub_cancel_left,
    Nat.mul_add_div (by decide), Nat.mul_add_mod, Nat.div_eq_of_lt (by omega),
    Nat.mod_eq_of_lt (by omega)]
  exact ⟨.inr ⟨by omega, by omega⟩, rfl⟩

theorem unitsOf_surrogate {n : Nat} (h : isHighSurrogate n = true ∨ isLowSurrogate n = true) :
    unitsOf n = [n] := by
  simp only [isHighSurrogate, isLowSurrogate, Bool.and_eq_true, decide_eq_true_eq] at h
  exact if_pos (by omega)

theorem head?_unitsOf_append {n : Nat} (hn : n < 0x110000) (hlow : isLowSurrogate n = false)
    (us : List Nat) : ∀ v ∈ (unitsOf n ++ us).head?, isLowSurrogate v = false := by
  intro v hv
  unfold unitsOf at hv
  split at hv
  case isTrue =>
    obtain rfl : n = v := Option.some.inj hv
    exact hlow
  case isFalse hlarge =>
    obtain rfl : 0xd800 + (n - 0x10000) / 0x400 = v := Option.some.inj hv
    simp only [isLowSurrogate, Bool.and_eq_false_iff, decide_eq_false_iff_not]
    omega

/-- What is read of numbers denotes the units of these numbers. -/
theorem denotes_ofUnits {us : List Nat} (hus : ∀ u ∈ us, u < 0x110000) :
    Denotes (ofUnits us) (us.flatMap Text.unitsOf) := by
  fun_induction ofUnits us with
  | case1 => rfl
  | case2 high low rest hhigh hlow ih =>
    obtain ⟨hvalid, hunits⟩ := unitsOf_joinPair hhigh hlow
    have hrest := ih fun u hu => hus u (.tail _ (.tail _ hu))
    rw [List.flatMap_cons, List.flatMap_cons, unitsOf_surrogate (.inl hhigh),
      unitsOf_surrogate (.inr hlow), ← List.append_assoc]
    have h := hrest.unitsOf hvalid
    rw [hunits] at h
    exact h
  | case3 high low rest hhigh hlow =>
    rw [List.flatMap_cons, List.flatMap_cons, unitsOf_surrogate (.inl hhigh)]
    have hnext := head?_unitsOf_append (hus low (.tail _ (.head _))) (by simpa using hlow)
    exact ⟨[], high, _, rfl, .inl ⟨hhigh, hnext _⟩⟩
  | case4 high low rest hhigh hlow =>
    rw [List.flatMap_cons, unitsOf_surrogate (.inr hlow)]
    exact ⟨[], high, _, rfl, .inr ⟨hlow, by simp⟩⟩
  | case5 n m rest hhigh hlow ih =>
    rw [Bool.not_eq_true] at hhigh hlow
    rw [List.flatMap_cons]
    exact (ih fun u hu => hus u (.tail _ hu)).unitsOf
      (isValidChar_iff.mpr ⟨hus _ (.head _), hhigh, hlow⟩)
  | case6 n hn =>
    rw [Bool.or_eq_true] at hn
    rw [List.flatMap_singleton, unitsOf_surrogate hn]
    exact ⟨[], n, [], rfl, hn.imp (⟨·, by simp⟩) (⟨·, by simp⟩)⟩
  | case7 n hn =>
    rw [Bool.not_eq_true, Bool.or_eq_false_iff] at hn
    have h : Denotes (some []) [] := rfl
    simpa using h.unitsOf (isValidChar_iff.mpr ⟨hus n (.head _), hn.1, hn.2⟩)

end Phrasebook.Text
