import Phrasebook.Json.Reader
import Mathlib.Data.List.TakeWhile

/-!
# The JSON grammar

The grammar relates a text to its meaning and to what follows. A numeral means its own spelling, a
pair of surrogates one character, and a surrogate alone nothing; an object means its members in
their order, also if a name is there twice. No text has two meanings (`Means.unique`): blanks and
numerals go as far as they can (`eq_of_append_eq`), and a character tells which value begins.
-/

namespace Phrasebook.Json

inductive Term where
  | null
  | bool (b : Bool)
  | number (numeral : List Char)
  | text (s : String)
  | array (items : List Term)
  | object (members : List (String × Term))

namespace Grammar

/-! ### Blanks and numerals -/

def Blanks (cs r : List Char) : Prop :=
  ∃ blanks, cs = blanks ++ r ∧ ∀ c ∈ blanks, Reader.isBlank c = true

/-- At least one digit. -/
def Digits (cs : List Char) : Prop := cs ≠ [] ∧ ∀ c ∈ cs, Reader.isDigit c = true

inductive Whole : List Char → Prop where
  | zero : Whole ['0']
  | digits {c : Char} {cs : List Char} (hc : c ≠ '0') (h : Digits (c :: cs)) : Whole (c :: cs)

inductive Fraction : List Char → Prop where
  | none : Fraction []
  | digits {cs : List Char} (h : Digits cs) : Fraction ('.' :: cs)

inductive Power : List Char → Prop where
  | none : Power []
  | digits {e : Char} {sign cs : List Char} (he : e = 'e' ∨ e = 'E')
    (hs : sign = [] ∨ sign = ['+'] ∨ sign = ['-']) (h : Digits cs) : Power (e :: sign ++ cs)

inductive Numeral : List Char → Prop where
  | mk {sign whole fraction power : List Char} (hs : sign = [] ∨ sign = ['-']) (hw : Whole whole)
    (hf : Fraction fraction) (hp : Power power) : Numeral (sign ++ whole ++ fraction ++ power)

/-! ### Texts -/

/-- Characters of a text behind its opening quote, with the text that they mean. -/
inductive Letters : List Char → List Char → List Char → Prop where
  | close (r : List Char) : Letters ('"' :: r) [] r
  | plain {c : Char} {cs s r : List Char} (hc : c ≠ '"' ∧ c ≠ '\\' ∧ 0x20 ≤ c.toNat)
    (h : Letters cs s r) : Letters (c :: cs) (c :: s) r
  | escape {x c : Char} {cs s r : List Char} (hx : Reader.simpleEscape? x = some c)
    (h : Letters cs s r) : Letters ('\\' :: x :: cs) (c :: s) r
  | unit {a b c d : Char} {n : Nat} {cs s r : List Char}
    (hn : Text.hexNumber? [a, b, c, d] = some n) (hhigh : Text.isHighSurrogate n = false)
    (hlow : Text.isLowSurrogate n = false) (h : Letters cs s r) :
    Letters ('\\' :: 'u' :: a :: b :: c :: d :: cs) (Char.ofNat n :: s) r
  | pair {a b c d a' b' c' d' : Char} {high low : Nat} {cs s r : List Char}
    (hh : Text.hexNumber? [a, b, c, d] = some high)
    (hl : Text.hexNumber? [a', b', c', d'] = some low)
    (hhigh : Text.isHighSurrogate high = true) (hlow : Text.isLowSurrogate low = true)
    (h : Letters cs s r) :
    Letters ('\\' :: 'u' :: a :: b :: c :: d :: '\\' :: 'u' :: a' :: b' :: c' :: d' :: cs)
      (Char.ofNat (Text.joinPair high low) :: s) r

/-- The name of a member up to its colon. -/
inductive Key : List Char → String → List Char → Prop where
  | mk {cs cs' s r' r : List Char} (before : Blanks cs ('"' :: cs')) (h : Letters cs' s r')
    (behind : Blanks r' (':' :: r)) : Key cs (String.ofList s) r

/-! ### Values -/

mutual

inductive Value : List Char → Term → List Char → Prop where
  | null (r : List Char) : Value ('n' :: 'u' :: 'l' :: 'l' :: r) .null r
  | yes (r : List Char) : Value ('t' :: 'r' :: 'u' :: 'e' :: r) (.bool true) r
  | no (r : List Char) : Value ('f' :: 'a' :: 'l' :: 's' :: 'e' :: r) (.bool false) r
  | number {c : Char} {ds cs r : List Char} (h : Numeral (c :: ds)) (hcs : cs = ds ++ r) :
    Value (c :: cs) (.number (c :: ds)) r
  | text {cs s r : List Char} (h : Letters cs s r) : Value ('"' :: cs) (.text (String.ofList s)) r
  | noItems {cs r : List Char} (h : Blanks cs (']' :: r)) : Value ('[' :: cs) (.array []) r
  | items {cs r : List Char} {ts : List Term} (h : Items cs ts r) :
    Value ('[' :: cs) (.array ts) r
  | noMembers {cs r : List Char} (h : Blanks cs ('\x7d' :: r)) :
    Value ('\x7b' :: cs) (.object []) r
  | members {cs r : List Char} {ms : List (String × Term)} (h : Members cs ms r) :
    Value ('\x7b' :: cs) (.object ms) r

/-- A value between blanks. -/
inductive Spaced : List Char → Term → List Char → Prop where
  | mk {cs cs' r' r : List Char} {t : Term} (before : Blanks cs cs') (h : Value cs' t r')
    (behind : Blanks r' r) : Spaced cs t r

/-- The items of an array up to the bracket that closes it. -/
inductive Items : List Char → List Term → List Char → Prop where
  | last {cs r : List Char} {t : Term} (h : Spaced cs t (']' :: r)) : Items cs [t] r
  | more {cs cs' r : List Char} {t : Term} {ts : List Term} (h : Spaced cs t (',' :: cs'))
    (hs : Items cs' ts r) : Items cs (t :: ts) r

/-- The members of an object up to the brace that closes it. -/
inductive Members : List Char → List (String × Term) → List Char → Prop where
  | last {cs cs' r : List Char} {key : String} {t : Term} (hk : Key cs key cs')
    (h : Spaced cs' t ('\x7d' :: r)) : Members cs [(key, t)] r
  | more {cs cs' cs'' r : List Char} {key : String} {t : Term} {ms : List (String × Term)}
    (hk : Key cs key cs') (h : Spaced cs' t (',' :: cs'')) (hs : Members cs'' ms r) :
    Members cs ((key, t) :: ms) r

end

/-- The whole text is one value. -/
def Means (cs : List Char) (t : Term) : Prop := Spaced cs t []

/-! ### What goes as far as it can -/

/-- What follows does not go on with such a character. -/
def Stops (p : Char → Bool) (r : List Char) : Prop := ∀ c ∈ r.head?, p c = false

theorem takeWhile_append_of_stops {p : Char → Bool} {xs r : List Char}
    (hxs : ∀ c ∈ xs, p c = true) (hr : Stops p r) : (xs ++ r).takeWhile p = xs := by
  rw [List.takeWhile_append_of_pos hxs]
  cases r with
  | nil => simp
  | cons c r => simp [hr c rfl]

theorem eq_of_append_eq {p : Char → Bool} {xs ys r r' : List Char} (h : xs ++ r = ys ++ r')
    (hxs : ∀ c ∈ xs, p c = true) (hys : ∀ c ∈ ys, p c = true) (hr : Stops p r)
    (hr' : Stops p r') : xs = ys ∧ r = r' := by
  obtain rfl : xs = ys := by
    rw [← takeWhile_append_of_stops hxs hr, h, takeWhile_append_of_stops hys hr']
  exact ⟨rfl, List.append_cancel_left h⟩

theorem Blanks.refl (r : List Char) : Blanks r r := ⟨[], rfl, by simp⟩

theorem Blanks.unique {cs r r' : List Char} (h : Blanks cs r) (h' : Blanks cs r')
    (hr : Stops Reader.isBlank r) (hr' : Stops Reader.isBlank r') : r = r' := by
  obtain ⟨xs, hcs, hxs⟩ := h
  obtain ⟨ys, hcs', hys⟩ := h'
  exact (eq_of_append_eq (hcs.symm.trans hcs') hxs hys hr hr').2

/-! ### Spellings of numerals -/

def isNumeralPart (c : Char) : Bool := Reader.isDigit c || ['+', '-', '.', 'e', 'E'].contains c

theorem Digits.parts {cs : List Char} (h : Digits cs) : ∀ c ∈ cs, isNumeralPart c = true := by
  intro c hc
  simp [isNumeralPart, h.2 c hc]

theorem Whole.parts {cs : List Char} (h : Whole cs) : ∀ c ∈ cs, isNumeralPart c = true := by
  cases h with
  | zero => exact List.forall_mem_singleton.mpr rfl
  | digits _ h => exact h.parts

theorem Fraction.parts {cs : List Char} (h : Fraction cs) : ∀ c ∈ cs, isNumeralPart c = true := by
  cases h with
  | none => simp
  | digits h => exact List.forall_mem_cons.mpr ⟨by decide, h.parts⟩

theorem Power.parts {cs : List Char} (h : Power cs) : ∀ c ∈ cs, isNumeralPart c = true := by
  cases h with
  | none => simp
  | digits he hs h =>
    refine List.forall_mem_cons.mpr ⟨?_, List.forall_mem_append.mpr ⟨?_, h.parts⟩⟩
    · rcases he with rfl | rfl <;> decide
    · rcases hs with rfl | rfl | rfl <;> simp [isNumeralPart]

theorem Numeral.parts {cs : List Char} (h : Numeral cs) : ∀ c ∈ cs, isNumeralPart c = true := by
  obtain ⟨hs, hw, hf, hp⟩ := h
  simp only [List.forall_mem_append]
  refine ⟨⟨⟨?_, hw.parts⟩, hf.parts⟩, hp.parts⟩
  rcases hs with rfl | rfl <;> simp [isNumeralPart]

theorem Numeral.isNumeralPart_head {c : Char} {cs : List Char} (h : Numeral (c :: cs)) :
    isNumeralPart c = true :=
  h.parts c (by simp)

/-! ### One meaning -/

theorem Letters.unique {cs s s' r r' : List Char} (h : Letters cs s r) (h' : Letters cs s' r') :
    s = s' ∧ r = r' := by
  -- one reading is followed, and at each step the other one can only do the same
  induction h generalizing s' r' with
  | close =>
    cases h' with
    | close => exact ⟨rfl, rfl⟩
    | plain hc => exact absurd rfl hc.1
  | plain hc _ ih =>
    cases h' with
    | close => exact absurd rfl hc.1
    | plain _ h' => exact (ih h').imp_left (congrArg _)
    | escape | unit | pair => exact absurd rfl hc.2.1
  | escape hx _ ih =>
    cases h' with
    | plain hc => exact absurd rfl hc.2.1
    | escape hx' h' =>
      obtain rfl := Option.some.inj (hx.symm.trans hx')
      exact (ih h').imp_left (congrArg _)
    | unit | pair => cases hx
  | unit hn hhigh _ _ ih =>
    cases h' with
    | plain hc => exact absurd rfl hc.2.1
    | escape hx => cases hx
    | unit hn' _ _ h' =>
      obtain rfl := Option.some.inj (hn.symm.trans hn')
      exact (ih h').imp_left (congrArg _)
    -- a unit that stands alone is no first half of a pair
    | pair hh _ hhigh' =>
      obtain rfl := Option.some.inj (hn.symm.trans hh)
      rw [hhigh] at hhigh'
      cases hhigh'
  | pair hh hl hhigh _ _ ih =>
    cases h' with
    | plain hc => exact absurd rfl hc.2.1
    | escape hx => cases hx
    | unit hn hhigh' =>
      obtain rfl := Option.some.inj (hh.symm.trans hn)
      rw [hhigh] at hhigh'
      cases hhigh'
    | pair hh' hl' _ _ h' =>
      obtain rfl := Option.some.inj (hh.symm.trans hh')
      obtain rfl := Option.some.inj (hl.symm.trans hl')
      exact (ih h').imp_left (congrArg _)

theorem stops_cons {p : Char → Bool} {c : Char} (h : p c = false) (r : List Char) :
    Stops p (c :: r) := by
  intro c' hc'
  obtain rfl : c = c' := by simpa using hc'
  exact h

theorem Key.unique {cs r r' : List Char} {key key' : String} (h : Key cs key r)
    (h' : Key cs key' r') : key = key' ∧ r = r' := by
  obtain ⟨before, letters, behind⟩ := h
  obtain ⟨before', letters', behind'⟩ := h'
  have hcs := before.unique before' (stops_cons (by decide) _) (stops_cons (by decide) _)
  obtain rfl := (List.cons.inj hcs).2
  obtain ⟨rfl, rfl⟩ := letters.unique letters'
  have hr := behind.unique behind' (stops_cons (by decide) _) (stops_cons (by decide) _)
  exact ⟨rfl, (List.cons.inj hr).2⟩

/-- What may follow a value and the blanks behind it. -/
def Closes (r : List Char) : Prop := ∀ c ∈ r.head?, c = ',' ∨ c = ']' ∨ c = '\x7d'

theorem closes_comma (r : List Char) : Closes (',' :: r) := by simp [Closes]

theorem closes_bracket (r : List Char) : Closes (']' :: r) := by simp [Closes]

theorem closes_brace (r : List Char) : Closes ('\x7d' :: r) := by simp [Closes]

theorem Closes.stops {r : List Char} (h : Closes r) : Stops Reader.isBlank r := by
  intro c hc
  rcases h c hc with rfl | rfl | rfl <;> decide

/-- Neither blanks nor what follows them go on with a numeral. -/
theorem Blanks.stops {cs r : List Char} (h : Blanks cs r) (hr : Closes r) :
    Stops isNumeralPart cs := by
  obtain ⟨blanks, rfl, hblanks⟩ := h
  cases blanks with
  | nil =>
    intro c hc
    rcases hr c hc with rfl | rfl | rfl <;> decide
  | cons c blanks =>
    refine stops_cons ?_ _
    have hc := hblanks c (by simp)
    simp only [Reader.isBlank, Bool.or_eq_true, beq_iff_eq] at hc
    rcases hc with ((rfl | rfl) | rfl) | rfl <;> decide

theorem Value.stops {cs r : List Char} {t : Term} (h : Value cs t r) :
    Stops Reader.isBlank cs := by
  cases h with
  | number h =>
    refine stops_cons ?_ _
    have hc := h.isNumeralPart_head
    by_contra hblank
    simp only [Reader.isBlank, Bool.not_eq_false, Bool.or_eq_true, beq_iff_eq] at hblank
    rcases hblank with ((rfl | rfl) | rfl) | rfl <;> exact absurd hc (by decide)
  | _ => exact stops_cons (by decide) _

/-- An array that ends at once has no items. -/
theorem Items.not_blanks {cs r r' : List Char} {ts : List Term} (h : Items cs ts r) :
    ¬ Blanks cs (']' :: r') := by
  intro hblanks
  have hspaced : ∃ t r'', Spaced cs t r'' := by
    cases h with
    | last h => exact ⟨_, _, h⟩
    | more h => exact ⟨_, _, h⟩
  obtain ⟨t, r'', before, h, -⟩ := hspaced
  obtain rfl := hblanks.unique before (stops_cons (by decide) _) h.stops
  cases h with
  | number h => exact absurd h.isNumeralPart_head (by decide)

theorem Members.not_blanks {cs r r' : List Char} {ms : List (String × Term)}
    (h : Members cs ms r) : ¬ Blanks cs ('\x7d' :: r') := by
  intro hblanks
  have hkey : ∃ key r'', Key cs key r'' := by
    cases h with
    | last hk => exact ⟨_, _, hk⟩
    | more hk => exact ⟨_, _, hk⟩
  obtain ⟨key, r'', before, -, -⟩ := hkey
  have hcs := hblanks.unique before (stops_cons (by decide) _) (stops_cons (by decide) _)
  exact absurd (List.cons.inj hcs).1 (by decide)

-- The induction is on the first derivation; `ih` is taken before the second is split, since that
-- split rewrites the text that both have in common.
mutual

theorem Value.unique {cs r : List Char} {t : Term} (h : Value cs t r) {r' : List Char} {t' : Term}
    (h' : Value cs t' r') (hr : Stops isNumeralPart r) (hr' : Stops isNumeralPart r') :
    t = t' ∧ r = r' := by
  match h with
  | .null _ | .yes _ | .no _ =>
    cases h' with
    | number h' => exact absurd h'.isNumeralPart_head (by decide)
    | _ => exact ⟨rfl, rfl⟩
  | .number h hcs =>
    cases h' with
    | number h' hcs' =>
      -- a numeral has no end of its own, so it ends where what follows stops it
      obtain ⟨rfl, rfl⟩ := eq_of_append_eq (hcs.symm.trans hcs')
        (fun c hc => h.parts c (List.mem_cons_of_mem _ hc))
        (fun c hc => h'.parts c (List.mem_cons_of_mem _ hc)) hr hr'
      exact ⟨rfl, rfl⟩
    | _ => exact absurd h.isNumeralPart_head (by decide)
  | .text h =>
    cases h' with
    | number h' => exact absurd h'.isNumeralPart_head (by decide)
    | text h' =>
      obtain ⟨rfl, rfl⟩ := h.unique h'
      exact ⟨rfl, rfl⟩
  | .noItems h =>
    cases h' with
    | number h' => exact absurd h'.isNumeralPart_head (by decide)
    | noItems h' =>
      have hcs := h.unique h' (stops_cons (by decide) _) (stops_cons (by decide) _)
      exact ⟨rfl, (List.cons.inj hcs).2⟩
    | items h' => exact absurd h h'.not_blanks
  | .items h =>
    have ih := @Items.unique _ _ _ h
    cases h' with
    | number h' => exact absurd h'.isNumeralPart_head (by decide)
    | noItems h' => exact absurd h' h.not_blanks
    | items h' => exact (ih h').imp_left (congrArg _)
  | .noMembers h =>
    cases h' with
    | number h' => exact absurd h'.isNumeralPart_head (by decide)
    | noMembers h' =>
      have hcs := h.unique h' (stops_cons (by decide) _) (stops_cons (by decide) _)
      exact ⟨rfl, (List.cons.inj hcs).2⟩
    | members h' => exact absurd h h'.not_blanks
  | .members h =>
    have ih := @Members.unique _ _ _ h
    cases h' with
    | number h' => exact absurd h'.isNumeralPart_head (by decide)
    | noMembers h' => exact absurd h' h.not_blanks
    | members h' => exact (ih h').imp_left (congrArg _)
termination_by structural h

theorem Spaced.unique {cs r : List Char} {t : Term} (h : Spaced cs t r) {r' : List Char}
    {t' : Term} (h' : Spaced cs t' r') (hr : Closes r) (hr' : Closes r') :
    t = t' ∧ r = r' := by
  match h with
  | .mk before h behind =>
    have ih := @Value.unique _ _ _ h
    cases h' with
    | mk before' h' behind' =>
      obtain rfl := before.unique before' h.stops h'.stops
      obtain ⟨rfl, rfl⟩ := ih h' (behind.stops hr) (behind'.stops hr')
      exact ⟨rfl, behind.unique behind' hr.stops hr'.stops⟩
termination_by structural h

theorem Items.unique {cs r : List Char} {ts : List Term} (h : Items cs ts r) {r' : List Char}
    {ts' : List Term} (h' : Items cs ts' r') : ts = ts' ∧ r = r' := by
  match h with
  | .last h =>
    have ih := @Spaced.unique _ _ _ h
    cases h' with
    | last h' =>
      obtain ⟨rfl, hcs⟩ := ih h' (closes_bracket _) (closes_bracket _)
      exact ⟨rfl, (List.cons.inj hcs).2⟩
    | more h' _ =>
      obtain ⟨-, hcs⟩ := ih h' (closes_bracket _) (closes_comma _)
      cases hcs
  | .more h hs =>
    have ih := @Spaced.unique _ _ _ h
    have ihs := @Items.unique _ _ _ hs
    cases h' with
    | last h' =>
      obtain ⟨-, hcs⟩ := ih h' (closes_comma _) (closes_bracket _)
      cases hcs
    | more h' hs' =>
      obtain ⟨rfl, hcs⟩ := ih h' (closes_comma _) (closes_comma _)
      obtain rfl := (List.cons.inj hcs).2
      exact (ihs hs').imp_left (congrArg _)
termination_by structural h

theorem Members.unique {cs r : List Char} {ms : List (String × Term)} (h : Members cs ms r)
    {r' : List Char} {ms' : List (String × Term)} (h' : Members cs ms' r') :
    ms = ms' ∧ r = r' := by
  match h with
  | .last hk h =>
    have ih := @Spaced.unique _ _ _ h
    cases h' with
    | last hk' h' =>
      obtain ⟨rfl, rfl⟩ := hk.unique hk'
      obtain ⟨rfl, hcs⟩ := ih h' (closes_brace _) (closes_brace _)
      exact ⟨rfl, (List.cons.inj hcs).2⟩
    | more hk' h' _ =>
      obtain ⟨-, rfl⟩ := hk.unique hk'
      obtain ⟨-, hcs⟩ := ih h' (closes_brace _) (closes_comma _)
      cases hcs
  | .more hk h hs =>
    have ih := @Spaced.unique _ _ _ h
    have ihs := @Members.unique _ _ _ hs
    cases h' with
    | last hk' h' =>
      obtain ⟨-, rfl⟩ := hk.unique hk'
      obtain ⟨-, hcs⟩ := ih h' (closes_comma _) (closes_brace _)
      cases hcs
    | more hk' h' hs' =>
      obtain ⟨rfl, rfl⟩ := hk.unique hk'
      obtain ⟨rfl, hcs⟩ := ih h' (closes_comma _) (closes_comma _)
      obtain rfl := (List.cons.inj hcs).2
      exact (ihs hs').imp_left (congrArg _)
termination_by structural h

end

theorem Means.unique {cs : List Char} {t t' : Term} (h : Means cs t) (h' : Means cs t') :
    t = t' :=
  (Spaced.unique h h' (by simp [Closes]) (by simp [Closes])).1

end Grammar

end Phrasebook.Json
