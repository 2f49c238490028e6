import Phrasebook.Json.Value
import Phrasebook.Proofs.Json.Grammar

/-!
# Written values read by the grammar

Whatever is written, in whatever layout and at whatever level, is read as the value that was
written (`value_write`), and as nothing else (`means_write`). Each part is read
for every text that may follow it: one escaped character (`letters_escapeChar`), the digits of a
number (`numeral_digits`), the items and members behind the first one.
-/

namespace Phrasebook

theorem Text.hexValue?_hexDigit {n : Nat} (h : n < 16) : hexValue? (hexDigit n) = some n := by
  have all : ∀ n < 16, hexValue? (hexDigit n) = some n := by decide
  exact all n h

theorem Text.hexNumber?_hexDigits4 {n : Nat} (h : n < 0x10000) :
    hexNumber? (hexDigits4 n) = some n := by
  have h3 := hexValue?_hexDigit (Nat.mod_lt (n / 4096) (by decide : 0 < 16))
  have h2 := hexValue?_hexDigit (Nat.mod_lt (n / 256) (by decide : 0 < 16))
  have h1 := hexValue?_hexDigit (Nat.mod_lt (n / 16) (by decide : 0 < 16))
  have h0 := hexValue?_hexDigit (Nat.mod_lt n (by decide : 0 < 16))
  simp only [hexNumber?, hexDigits4, List.map_cons, List.map_nil, List.mapM_cons, List.mapM_nil,
    h3, h2, h1, h0, Option.pure_def, Option.bind_eq_bind, Option.bind_some, Option.map_some,
    List.foldl_cons, List.foldl_nil]
  congr 1
  omega

namespace Json

open Grammar

mutual

/-- What a value means. -/
def term : Json → Term
  | .null => .null
  | .bool b => .bool b
  | .nat n => .number (digits n)
  | .text s => .text s
  | .array items => .array (itemTerms items)
  | .object members => .object (memberTerms members)

def itemTerms : List Json → List Term
  | [] => []
  | x :: xs => term x :: itemTerms xs

def memberTerms : List (String × Json) → List (String × Term)
  | [] => []
  | (key, x) :: members => (key, term x) :: memberTerms members

end

theorem memberTerms_eq_map (members : List (String × Json)) :
    memberTerms members = members.map fun member => (member.1, term member.2) := by
  induction members with
  | nil => rfl
  | cons member members ih => rw [memberTerms, ih, List.map_cons]

/-! ### Texts and numbers -/

/-- A character is read back as itself, escaped or not. -/
theorem letters_escapeChar (c : Char) {cs s r : List Char} (h : Letters cs s r) :
    Letters (escapeChar c ++ cs) (c :: s) r := by
  unfold Json.escapeChar
  -- seven characters have an escape of their own
  by_cases hquote : c = '"'
  · subst hquote
    exact .escape rfl h
  rw [if_neg hquote]
  by_cases hbackslash : c = '\\'
  · subst hbackslash
    exact .escape rfl h
  rw [if_neg hbackslash]
  by_cases hn : c = '\n'
  · subst hn
    exact .escape rfl h
  rw [if_neg hn]
  by_cases hr : c = '\r'
  · subst hr
    exact .escape rfl h
  rw [if_neg hr]
  by_cases ht : c = '\t'
  · subst ht
    exact .escape rfl h
  rw [if_neg ht]
  by_cases hb : c.toNat = 0x08
  · obtain rfl : c = Char.ofNat 0x08 := by rw [← hb, Char.ofNat_toNat]
    exact .escape rfl h
  rw [if_neg hb]
  by_cases hf : c.toNat = 0x0c
  · obtain rfl : c = Char.ofNat 0x0c := by rw [← hf, Char.ofNat_toNat]
    exact .escape rfl h
  rw [if_neg hf]
  -- the other control characters are written as units, which are no surrogates
  by_cases hcontrol : c.toNat < 0x20
  · rw [if_pos hcontrol]
    have hunit : Text.hexNumber? (Text.hexDigits4 c.toNat) = some c.toNat :=
      Text.hexNumber?_hexDigits4 (by omega)
    have hletters := Letters.unit hunit (by simp [Text.isHighSurrogate]; omega)
      (by simp [Text.isLowSurrogate]; omega) h
    rwa [Char.ofNat_toNat] at hletters
  · rw [if_neg hcontrol]
    exact .plain ⟨hquote, hbackslash, by omega⟩ h

theorem letters_flatMap (s r : List Char) :
    Letters (s.flatMap Json.escapeChar ++ '"' :: r) s r := by
  induction s with
  | nil => exact .close r
  | cons c s ih =>
    rw [List.flatMap_cons, List.append_assoc]
    exact letters_escapeChar c ih

theorem value_quote (s : String) (r : List Char) : Value (quote s ++ r) (.text s) r := by
  have h := Value.text (letters_flatMap s.toList r)
  rw [String.ofList_toList] at h
  simpa [quote] using h

theorem isDigit_of_mem_digits {n : Nat} {c : Char} (h : c ∈ digits n) :
    Reader.isDigit c = true := by
  have hc := Nat.isDigit_of_mem_toDigits (by decide) (by decide) h
  simpa [Char.isDigit, Reader.isDigit, Char.le_def] using hc

/-- Only zero is written with a zero in front. -/
theorem head_digits_ne_zero {n : Nat} (h : n ≠ 0) : (digits n).head? ≠ some '0' := by
  induction n using Nat.strongRecOn with
  | ind n ih =>
    unfold digits at ih ⊢
    by_cases hlt : n < 10
    · rw [Nat.toDigits_of_lt_base hlt]
      simpa using h
    · -- the digits of a tenth come first
      rw [Nat.toDigits_of_base_le (by decide) (by omega), List.head?_append, Ne,
        Option.or_eq_some_iff, not_or]
      exact ⟨ih (n / 10) (by omega) (by omega), by simp⟩

theorem whole_digits (n : Nat) : Whole (digits n) := by
  by_cases hn : n = 0
  · subst hn
    exact .zero
  have hdigits : Digits (digits n) := ⟨Nat.toDigits_ne_nil, fun c hc => isDigit_of_mem_digits hc⟩
  have hhead := head_digits_ne_zero hn
  cases hcs : digits n with
  | nil => exact absurd hcs Nat.toDigits_ne_nil
  | cons c cs =>
    rw [hcs] at hdigits hhead
    exact .digits (by simpa using hhead) hdigits

theorem numeral_digits (n : Nat) : Numeral (digits n) := by
  simpa using Numeral.mk (.inl rfl) (whole_digits n) .none .none

theorem value_digits (n : Nat) (r : List Char) : Value (digits n ++ r) (.number (digits n)) r := by
  have h := numeral_digits n
  cases hcs : digits n with
  | nil => exact absurd hcs Nat.toDigits_ne_nil
  | cons c cs => exact .number (hcs ▸ h) rfl

/-! ### Layouts -/

theorem blanks_lineBreak (layout : Layout) (level : Nat) (r : List Char) :
    Blanks (layout.lineBreak level ++ r) r := by
  cases layout with
  | compact => exact .refl r
  | pretty n =>
    refine ⟨_, rfl, List.forall_mem_cons.mpr ⟨by decide, fun c hc => ?_⟩⟩
    rw [List.eq_of_mem_replicate hc]
    decide

theorem blanks_colon (layout : Layout) (cs : List Char) :
    ∃ cs', layout.colon ++ cs = ':' :: cs' ∧ Blanks cs' cs := by
  cases layout with
  | compact => exact ⟨cs, rfl, .refl cs⟩
  | pretty n => exact ⟨' ' :: cs, rfl, [' '], rfl, List.forall_mem_singleton.mpr rfl⟩

/-- A name, its colon and a value, with blanks between them as the layout puts them. -/
theorem member_write (layout : Layout) (level : Nat) (key : String) {cs r r' : List Char}
    {t : Term} (h : Value cs t r) (hr : Blanks r r') :
    ∃ cs', Key (layout.lineBreak level ++ (quote key ++ (layout.colon ++ cs))) key cs' ∧
      Spaced cs' t r' := by
  obtain ⟨cs', hcolon, hblanks⟩ := blanks_colon layout cs
  refine ⟨cs', ?_, .mk hblanks h hr⟩
  have hkey := Key.mk (blanks_lineBreak layout level _)
    (letters_flatMap key.toList (':' :: cs')) (.refl _)
  rw [String.ofList_toList] at hkey
  simpa [quote, hcolon] using hkey

/-! ### Values -/

mutual

theorem value_write (layout : Layout) (level : Nat) : (j : Json) → (r : List Char) →
    Value (write layout level j ++ r) (term j) r
  | .null, r => .null r
  | .bool true, r => .yes r
  | .bool false, r => .no r
  | .nat n, r => value_digits n r
  | .text s, r => value_quote s r
  | .array [], _ => .noItems (.refl _)
  | .array (x :: xs), r => by
    have h := Value.items (items_write layout (level + 1)
      (blanks_lineBreak layout level (']' :: r)) xs (value_write layout (level + 1) x))
    simpa [write, term, itemTerms] using h
  | .object [], _ => .noMembers (.refl _)
  | .object ((key, x) :: members), r => by
    have h := Value.members (members_write layout (level + 1)
      (blanks_lineBreak layout level ('\x7d' :: r)) members key
      (value_write layout (level + 1) x))
    simpa [write, term, memberTerms] using h

/-- The items from one on that is read as `t` whatever follows. -/
theorem items_write (layout : Layout) (level : Nat) {close r : List Char}
    (hclose : Blanks close (']' :: r)) : (xs : List Json) → {cs : List Char} → {t : Term} →
    (∀ r, Value (cs ++ r) t r) →
    Items (layout.lineBreak level ++ (cs ++ (writeItems layout level xs ++ close)))
      (t :: itemTerms xs) r
  | [], _, _, h => .last (.mk (blanks_lineBreak ..) (h _) hclose)
  | x :: xs, _, _, h => by
    have hrest := items_write layout level hclose xs (value_write layout level x)
    have hfirst := h (',' :: (layout.lineBreak level ++
      (write layout level x ++ (writeItems layout level xs ++ close))))
    refine .more (.mk (blanks_lineBreak ..) ?_ (.refl _)) hrest
    simpa [writeItems] using hfirst

/-- The members from one on whose value is read as `t` whatever follows. -/
theorem members_write (layout : Layout) (level : Nat) {close r : List Char}
    (hclose : Blanks close ('\x7d' :: r)) : (members : List (String × Json)) →
    (key : String) → {cs : List Char} → {t : Term} → (∀ r, Value (cs ++ r) t r) →
    Members (layout.lineBreak level ++
        (quote key ++ (layout.colon ++ (cs ++ (writeMembers layout level members ++ close)))))
      ((key, t) :: memberTerms members) r
  | [], key, _, _, h => by
    obtain ⟨cs', hkey, hvalue⟩ := member_write layout level key (h close) hclose
    exact .last hkey hvalue
  | (key', x) :: members, key, _, _, h => by
    have hrest := members_write layout level hclose members key' (value_write layout level x)
    have hfirst := h (',' :: (layout.lineBreak level ++ (quote key' ++ (layout.colon ++
      (write layout level x ++ (writeMembers layout level members ++ close))))))
    obtain ⟨cs', hkey, hvalue⟩ := member_write layout level key hfirst (.refl _)
    refine .more ?_ hvalue hrest
    simpa [writeMembers] using hkey

end

/-- A written value between blanks means itself only. -/
theorem means_write (layout : Layout) (j : Json) {blanks : List Char}
    (hblanks : ∀ c ∈ blanks, Reader.isBlank c = true) (t : Term) :
    Means (write layout 0 j ++ blanks) t ↔ t = term j := by
  have h : Means (write layout 0 j ++ blanks) (term j) :=
    .mk (.refl _) (value_write layout 0 j blanks) ⟨blanks, by simp, hblanks⟩
  exact ⟨fun ht => ht.unique h, fun ht => ht ▸ h⟩

end Json

end Phrasebook
