import Phrasebook.Proofs.Json.Written
import Phrasebook.Proofs.Text.Utf16
import Mathlib.Data.List.Forall2

/-!
# Readers follow the grammar

`Accepts r t a`: whatever text means `t`, with whatever blanks, escapes and layout, the reader `r`
reads it as `a`. The rules follow the way in which readers are put together (`Accepts.list`,
`Accepts.record`), each from the text of one part to the text behind it.
-/

namespace Phrasebook.Json

open Grammar

variable {α β : Type} {cs cs' rest : List Char} {t : Term}

namespace Grammar

/-! ### Every part of a text is shorter than the whole -/

theorem Blanks.length_le (h : Blanks cs rest) : rest.length ≤ cs.length := by
  obtain ⟨blanks, rfl, -⟩ := h
  simp

theorem Letters.length_lt {s : List Char} (h : Letters cs s rest) : rest.length < cs.length := by
  induction h with
  | close => simp
  | plain | escape | unit | pair => simp only [List.length_cons]; omega

theorem Key.length_lt {key : String} (h : Key cs key rest) : rest.length < cs.length := by
  obtain ⟨before, letters, behind⟩ := h
  have hbefore := before.length_le
  have hletters := letters.length_lt
  have hbehind := behind.length_le
  simp only [List.length_cons] at hbefore hbehind
  omega

mutual

theorem Value.length_lt : {cs rest : List Char} → {t : Term} → Value cs t rest →
    rest.length < cs.length
  | _, _, _, .null _ | _, _, _, .yes _ | _, _, _, .no _ => by simp only [List.length_cons]; omega
  | _, _, _, .number _ hcs => by
    rw [hcs, List.length_cons, List.length_append]
    omega
  | _, _, _, .text h => Nat.lt_succ_of_lt h.length_lt
  | _, _, _, .noItems h | _, _, _, .noMembers h => by
    have hlength := h.length_le
    simp only [List.length_cons] at hlength ⊢
    omega
  | _, _, _, .items h => Nat.lt_succ_of_lt h.length_lt
  | _, _, _, .members h => Nat.lt_succ_of_lt h.length_lt

theorem Spaced.length_lt : {cs rest : List Char} → {t : Term} → Spaced cs t rest →
    rest.length < cs.length
  | _, _, _, .mk before h behind =>
    Nat.lt_of_le_of_lt behind.length_le (Nat.lt_of_lt_of_le h.length_lt before.length_le)

theorem Items.length_lt : {cs rest : List Char} → {ts : List Term} → Items cs ts rest →
    rest.length < cs.length
  | _, _, _, .last h => Nat.lt_of_succ_lt h.length_lt
  | _, _, _, .more h hs => Nat.lt_trans (Nat.lt_succ_of_lt hs.length_lt) h.length_lt

theorem Members.length_lt : {cs rest : List Char} → {ms : List (String × Term)} →
    Members cs ms rest → rest.length < cs.length
  | _, _, _, .last hk h => Nat.lt_trans (Nat.lt_of_succ_lt h.length_lt) hk.length_lt
  | _, _, _, .more hk h hs =>
    Nat.lt_trans (Nat.lt_trans (Nat.lt_succ_of_lt hs.length_lt) h.length_lt) hk.length_lt

end

/-! ### What stands next -/

theorem Stops.mono {p q : Char → Bool} (h : Stops p rest) (hq : ∀ c, q c = true → p c = true) :
    Stops q rest := by
  intro c hc
  have hp := h c hc
  by_contra hqc
  rw [hq c (Bool.not_eq_false _ ▸ hqc)] at hp
  cases hp

theorem Stops.any_head {p : Char → Bool} (h : Stops p rest) : rest.head?.any p = false := by
  cases hhead : rest.head? with
  | none => rfl
  | some c => exact h c hhead

/-- The first character of a value is no blank and no bracket that closes an array. -/
theorem Value.begins (h : Value cs t rest) : ∃ c cs', cs = c :: cs' ∧
    Reader.isBlank c = false ∧ c ≠ ']' := by
  have hstops := h.stops
  cases h with
  | number h hcs =>
    refine ⟨_, _, rfl, hstops _ rfl, ?_⟩
    rintro rfl
    exact absurd h.isNumeralPart_head (by decide)
  | _ => exact ⟨_, _, rfl, hstops _ rfl, by decide⟩

end Grammar

/-! ### One step after the other -/

/-- At any place, the reader reads `a` from `cs` and leaves `rest`. -/
def Reads (r : Reader α) (cs : List Char) (a : α) (rest : List Char) : Prop :=
  ∀ pos, ∃ pos', r ⟨cs, pos⟩ = .ok a ⟨rest, pos'⟩

namespace Reads

variable {r : Reader α} {q : α → Reader β} {a : α} {b : β}

theorem pure (a : α) (cs : List Char) : Reads (Pure.pure a) cs a cs := fun pos => ⟨pos, rfl⟩

theorem bind (hr : Reads r cs a cs') (hq : Reads (q a) cs' b rest) :
    Reads (r >>= q) cs b rest := by
  intro pos
  obtain ⟨pos', hr⟩ := hr pos
  obtain ⟨pos'', hq⟩ := hq pos'
  refine ⟨pos'', ?_⟩
  change EStateM.bind r q ⟨cs, pos⟩ = _
  simp only [EStateM.bind, hr, hq]

theorem map (f : α → β) (h : Reads r cs a rest) :
    Reads (r >>= fun x => Pure.pure (f x)) cs (f a) rest :=
  h.bind (.pure _ _)

theorem placed (h : Reads r cs a rest) : Reads (Reader.placed r) cs a rest := by
  intro pos
  obtain ⟨pos', h⟩ := h pos
  exact ⟨pos', by simp only [Reader.placed, h]⟩

theorem enclosed {close : Reader Unit} (h : Reads r cs a cs') (hclose : Reads close cs' () rest) :
    Reads (Reader.enclosed close r) cs a rest := by
  intro pos
  obtain ⟨pos', h⟩ := h pos
  obtain ⟨pos'', hclose⟩ := hclose pos'
  exact ⟨pos'', by simp only [Reader.enclosed, h, hclose]⟩

theorem skip (c : Char) (cs : List Char) : Reads Reader.skip (c :: cs) () cs :=
  fun _ => ⟨_, rfl⟩

theorem peek (cs : List Char) : Reads Reader.peek cs cs.head? cs := fun pos => ⟨pos, rfl⟩

theorem letters (word rest : List Char) : Reads (Reader.letters word) (word ++ rest) () rest := by
  induction word with
  | nil => exact .pure () rest
  | cons c word ih =>
    refine .bind (.peek _) ?_
    simp only [List.cons_append, List.head?_cons, if_true]
    exact .bind (.skip c _) ih

theorem span {p : Char → Bool} {xs : List Char} (hxs : ∀ c ∈ xs, p c = true)
    (hrest : Stops p rest) (pos : Nat) :
    ∃ pos', Cursor.span p ⟨xs ++ rest, pos⟩ = (xs, ⟨rest, pos'⟩) := by
  unfold Cursor.span
  induction xs generalizing pos with
  | nil =>
    cases rest with
    | nil => exact ⟨_, rfl⟩
    | cons c rest => exact ⟨pos, by simp [Cursor.spanFrom, hrest c rfl]⟩
  | cons c xs ih =>
    obtain ⟨hc, hxs⟩ := List.forall_mem_cons.mp hxs
    obtain ⟨pos', h⟩ := ih hxs (pos + c.utf8Size)
    exact ⟨pos', by simp [Cursor.spanFrom, hc, h]⟩

theorem peekBehindBlanks (h : Blanks cs rest) (hrest : Stops Reader.isBlank rest) :
    Reads Reader.peekBehindBlanks cs rest.head? rest := by
  obtain ⟨blanks, rfl, hblanks⟩ := h
  intro pos
  obtain ⟨pos', h⟩ := span hblanks hrest pos
  refine ⟨pos', ?_⟩
  change EStateM.Result.ok (Cursor.span Reader.isBlank ⟨blanks ++ rest, pos⟩).2.rest.head?
    (Cursor.span Reader.isBlank ⟨blanks ++ rest, pos⟩).2 = _
  rw [h]

/-- What is peeked at behind blanks is no blank. -/
theorem peekAt {c : Char} (h : Blanks cs (c :: rest)) (hc : Reader.isBlank c = false) :
    Reads Reader.peekBehindBlanks cs (some c) (c :: rest) :=
  .peekBehindBlanks h (stops_cons hc rest)

theorem valueStart {c : Char} (h : Blanks cs (c :: rest)) (hc : Reader.isBlank c = false) :
    Reads Reader.valueStart cs c (c :: rest) :=
  .bind (.peekAt h hc) (.pure c _)

end Reads

/-! ### Loops -/

/-- The step repeated until it says that it is done; each one but the last leaves a shorter text. -/
inductive Loops (step : α → Reader (α × Bool)) : α → List Char → α → List Char → Prop where
  | done {a b : α} {cs rest : List Char} (h : Reads (step a) cs (b, false) rest) :
    Loops step a cs b rest
  | more {a a' b : α} {cs cs' rest : List Char} (h : Reads (step a) cs (a', true) cs')
    (hlt : cs'.length < cs.length) (hs : Loops step a' cs' b rest) : Loops step a cs b rest

theorem Loops.iterate {step : α → Reader (α × Bool)} {a b : α} (h : Loops step a cs b rest)
    {n : Nat} (hn : cs.length < n) : Reads (Reader.iterate step n a) cs b rest := by
  induction h generalizing n with
  | done h =>
    obtain ⟨n, rfl⟩ := Nat.exists_eq_succ_of_ne_zero (Nat.ne_zero_of_lt hn)
    exact .bind h (.pure _ _)
  | more h hlt _ ih =>
    obtain ⟨n, rfl⟩ := Nat.exists_eq_succ_of_ne_zero (Nat.ne_zero_of_lt hn)
    exact .bind h (ih (by omega))

/-- The characters of a text are enough for the steps that a loop takes over it. -/
theorem Loops.loop {step : α → Reader (α × Bool)} {a b : α} (h : Loops step a cs b rest) :
    Reads (Reader.loop a step) cs b rest :=
  fun pos => h.iterate (Nat.lt_succ_self _) pos

/-! ### Values of one kind -/

/-- The reader reads every spelling of `t` as `a`, also behind blanks. -/
def Accepts (r : Reader α) (t : Term) (a : α) : Prop :=
  ∀ ⦃cs cs' rest : List Char⦄, Blanks cs cs' → Value cs' t rest → Stops isNumeralPart rest →
    Reads r cs a rest

theorem unitAt_of_hexNumber? {ds : List Char} {n : Nat} (hds : ds.length = 4)
    (hn : Text.hexNumber? ds = some n) (pos : Nat) : Reader.unitAt pos ds = .ok n := by
  have hlength := Text.length_le_byteLength ds
  rw [Reader.unitAt, if_neg (by omega), List.take_of_length_le (by omega)]
  simp only [hn]

theorem textFrom_of_letters {s : List Char} (h : Letters cs s rest) (pos : Nat) :
    ∃ pos', Reader.textFrom none pos cs = .ok (s, ⟨rest, pos'⟩) := by
  induction h generalizing pos with
  | close => exact ⟨pos + 1, by simp [Reader.textFrom]⟩
  | @plain c cs s r hc _ ih =>
    -- the equation for any other character applies when all escapes are excluded
    obtain ⟨hquote, hbackslash, hcontrol⟩ := hc
    obtain ⟨pos', h⟩ := ih (pos + c.utf8Size)
    refine ⟨pos', ?_⟩
    rw [Reader.textFrom.eq_5 _ _ _ _ (fun _ _ _ _ _ hc => absurd hc hbackslash)
      (fun hc => absurd hc hbackslash) (fun _ _ hc => absurd hc hbackslash),
      if_neg (by simp), if_neg hquote, if_neg (by omega), h]
    rfl
  | @escape x c cs s r hx _ ih =>
    obtain ⟨pos', h⟩ := ih (pos + 2)
    have hu : x ≠ 'u' := by
      rintro rfl
      cases hx
    refine ⟨pos', ?_⟩
    rw [Reader.textFrom.eq_4 _ _ _ _ (fun _ _ _ _ _ hc => absurd hc hu), if_neg hu,
      if_neg (by simp), hx, h]
    rfl
  | unit hn hhigh hlow _ ih =>
    obtain ⟨pos', h⟩ := ih (pos + 6)
    refine ⟨pos', ?_⟩
    rw [Reader.textFrom, unitAt_of_hexNumber? rfl hn]
    simp only [bind, Except.bind, hlow, hhigh, h, Bool.false_eq_true, if_false]
    rfl
  | pair hh hl hhigh hlow _ ih =>
    obtain ⟨pos', h⟩ := ih (pos + 6 + 6)
    -- the first half asks for the second one, which is read as a unit of its own
    have hhigh' := Text.low_of_high hhigh
    refine ⟨pos', ?_⟩
    rw [Reader.textFrom, unitAt_of_hexNumber? rfl hh]
    simp only [bind, Except.bind, hhigh, hhigh', Bool.false_eq_true, if_false, if_true]
    rw [Reader.textFrom, unitAt_of_hexNumber? rfl hl]
    simp only [bind, Except.bind, hlow, h, if_true]
    rfl

theorem Reads.textBody {s : List Char} (h : Letters cs s rest) :
    Reads Reader.textBody cs (String.ofList s) rest := by
  intro pos
  obtain ⟨pos', h⟩ := textFrom_of_letters h pos
  exact ⟨pos', by simp only [Reader.textBody, h]⟩

/-! ### Numbers -/

theorem le_ofDigitChars (n : Nat) (ds : List Char) : n ≤ Nat.ofDigitChars 10 ds n := by
  induction ds generalizing n with
  | nil => exact Nat.le_refl n
  | cons d ds ih =>
    rw [Nat.ofDigitChars_cons]
    exact Nat.le_trans (by omega) (ih _)

/-- Digits are all taken in when their number fits into 64 bits. -/
theorem absorb_eq {n : Nat} {ds : List Char} (h : Nat.ofDigitChars 10 ds n ≤ maxWhole) :
    absorb n ds = (Nat.ofDigitChars 10 ds n, 0) := by
  induction ds generalizing n with
  | nil => rfl
  | cons d ds ih =>
    have hvalue : n * 10 + digitValue d = 10 * n + (d.toNat - '0'.toNat) := by
      rw [Nat.mul_comm]
      rfl
    rw [Nat.ofDigitChars_cons] at h ⊢
    rw [absorb, hvalue, if_pos (Nat.le_trans (le_ofDigitChars _ ds) h), ih h]

theorem ofText_digits {n : Nat} (hn : n ≤ maxWhole) :
    Number.ofText ⟨false, digits n, [], none⟩ = .ok (.whole n) := by
  have hvalue : Nat.ofDigitChars 10 (digits n) 0 = n :=
    Nat.ofDigitChars_toDigits (by decide) (by decide)
  have habsorb : absorb 0 (digits n) = (n, 0) := by
    rw [absorb_eq (by rwa [hvalue]), hvalue]
  simp only [Number.ofText, habsorb]
  rfl

namespace Reads

theorem digits {ds : List Char} (hds : ∀ c ∈ ds, Reader.isDigit c = true)
    (hrest : Stops Reader.isDigit rest) : Reads Reader.digits (ds ++ rest) ds rest := by
  intro pos
  obtain ⟨pos', h⟩ := span hds hrest pos
  refine ⟨pos', ?_⟩
  change EStateM.Result.ok (Cursor.span Reader.isDigit ⟨ds ++ rest, pos⟩).1
    (Cursor.span Reader.isDigit ⟨ds ++ rest, pos⟩).2 = _
  rw [h]

theorem wholeDigits {ds : List Char} (hds : Whole ds) (hrest : Stops isNumeralPart rest)
    (atEnd : Cause) : Reads (Reader.wholeDigits atEnd) (ds ++ rest) ds rest := by
  have hdigit : Stops Reader.isDigit rest := hrest.mono fun c hc => by simp [isNumeralPart, hc]
  refine .bind (.peek _) ?_
  cases hds with
  | zero =>
    refine .bind (.skip '0' rest) (.bind (.peek _) ?_)
    -- behind a zero no digit may follow
    rw [hdigit.any_head]
    exact .pure _ _
  | @digits c cs hc h =>
    have hdigits := digits h.2 hdigit
    rw [List.cons_append, List.head?_cons] at *
    split
    · next heq => cases heq
    · next heq => exact absurd (Option.some.inj heq) hc
    · next d _ heq =>
      obtain rfl := Option.some.inj heq
      rw [if_pos (h.2 c (by simp))]
      exact hdigits

theorem numeralText {ds : List Char} (hds : Whole ds) (hrest : Stops isNumeralPart rest)
    (isNegative : Bool) (atEnd : Cause) :
    Reads (Reader.numeralText isNegative atEnd) (ds ++ rest) ⟨isNegative, ds, [], none⟩ rest := by
  have hfraction : Reads (Reader.fractionDigits atEnd) rest [] rest := by
    refine .bind (.peek _) ?_
    have hpoint : rest.head? ≠ some '.' := fun hc => absurd (hrest _ hc) (by decide)
    simp only [bne_iff_ne, ne_eq, hpoint, not_false_eq_true, if_true]
    exact .pure _ _
  have hpower : Reads (Reader.power? atEnd) rest none rest := by
    refine .bind (.peek _) ?_
    have hstops : Stops (fun c => c == 'e' || c == 'E') rest :=
      hrest.mono fun c hc => by
        rcases (Bool.or_eq_true _ _).mp hc with hc | hc <;> rw [beq_iff_eq.mp hc] <;> decide
    rw [hstops.any_head]
    exact .pure _ _
  exact .bind (.wholeDigits hds hrest atEnd) (.bind hfraction (hpower.map _))

theorem number {n : Nat} (hn : n ≤ maxWhole) (hrest : Stops isNumeralPart rest) :
    Reads (Reader.number false) (Json.digits n ++ rest) (.whole n) rest := by
  refine .bind (.numeralText (whole_digits n) hrest false .endInValue) ?_
  simp only [ofText_digits hn]
  exact .pure _ _

end Reads

namespace Accepts

variable {r : Reader α} {a : α}

theorem map (f : α → β) (h : Accepts r t a) :
    Accepts (r >>= fun x => Pure.pure (f x)) t (f a) :=
  fun _ _ _ hblanks hvalue hrest => (h hblanks hvalue hrest).map f

theorem placed (h : Accepts r t a) : Accepts (Reader.placed r) t a :=
  fun _ _ _ hblanks hvalue hrest => (h hblanks hvalue hrest).placed

theorem text (s : String) : Accepts Reader.text (.text s) s := by
  intro cs cs' rest hblanks hvalue _
  cases hvalue with
  | text h => exact .bind (.valueStart hblanks (by decide)) (.bind (.skip _ _) (.textBody h))

theorem bool (b : Bool) : Accepts Reader.bool (.bool b) b := by
  intro cs cs' rest hblanks hvalue _
  cases hvalue with
  | yes =>
    exact .bind (.valueStart hblanks (by decide))
      (.bind (.skip _ _) (.bind (.letters ['r', 'u', 'e'] rest) (.pure true rest)))
  | no =>
    exact .bind (.valueStart hblanks (by decide))
      (.bind (.skip _ _) (.bind (.letters ['a', 'l', 's', 'e'] rest) (.pure false rest)))

theorem nat {n : Nat} (hn : n ≤ maxWhole) : Accepts Reader.nat (.number (digits n)) n := by
  refine .placed ?_
  intro cs cs' rest hblanks hvalue hrest
  -- the digits of `n` are no variable, as the case split needs its index to be
  generalize ht : Term.number (digits n) = t at hvalue
  cases hvalue with
  | @number c ds cs r h hcs =>
    have hdigits : digits n = c :: ds := Term.number.inj ht
    have hc : Reader.isDigit c = true := isDigit_of_mem_digits (hdigits ▸ List.mem_cons_self)
    have hminus : c ≠ '-' := by
      rintro rfl
      exact absurd hc (by decide)
    have hblank : Reader.isBlank c = false := (Value.number h hcs).stops c rfl
    have hnumber := Reads.number hn hrest
    rw [hdigits, List.cons_append, ← hcs] at hnumber
    refine .bind (.valueStart hblanks hblank) ?_
    simp only [if_neg hminus, if_pos hc]
    exact .bind hnumber (.pure n rest)
  | _ => cases ht

/-- A value that is not null is read as such. -/
protected theorem some (ht : t ≠ .null) (h : Accepts r t a) :
    Accepts (Reader.optional r) t (some a) := by
  intro cs cs' rest hblanks hvalue hrest
  have hhead : cs'.head? ≠ Option.some 'n' := by
    cases hvalue with
    | null => exact absurd rfl ht
    | number hnumeral =>
      intro hc
      obtain rfl := Option.some.inj hc
      exact absurd hnumeral.isNumeralPart_head (by decide)
    | _ => simp
  refine .bind (.peekBehindBlanks hblanks hvalue.stops) ?_
  simp only [beq_iff_eq, if_neg hhead]
  exact (h (.refl _) hvalue hrest).map Option.some

theorem choice {choices : List (String × α)} {name : String}
    (h : choices.lookup name = Option.some a) : Accepts (Reader.choice choices) (.text name) a := by
  intro cs cs' rest hblanks hvalue _
  cases hvalue with
  | text hletters =>
    refine .bind (.peekAt hblanks (by decide)) (.placed ?_)
    refine .bind (.valueStart (.refl _) (by decide))
      (.bind (.skip _ _) (.bind (.textBody hletters) ?_))
    simp only [h]
    exact .pure a rest

end Accepts

/-! ### Items -/

/-- Where the next part of an array or object begins: at once if it is the first one, else behind a
comma. -/
inductive Next : Bool → List Char → List Char → Prop where
  | first (cs : List Char) : Next true cs cs
  | later {cs cs' : List Char} (h : Blanks cs (',' :: cs')) : Next false cs cs'

theorem Next.length_le {isFirst : Bool} (h : Next isFirst cs cs') : cs'.length ≤ cs.length := by
  cases h with
  | first => exact Nat.le_refl _
  | later h => exact Nat.le_of_succ_le h.length_le

namespace Reads

variable {isFirst : Bool} {c : Char}

theorem anotherItem (hnext : Next isFirst cs cs') (h : Blanks cs' (c :: rest))
    (hblank : Reader.isBlank c = false) (hclose : c ≠ ']') :
    Reads (Reader.anotherItem isFirst) cs true (c :: rest) := by
  cases hnext with
  | first =>
    refine .bind (.peekAt h hblank) ?_
    simp only [if_neg hclose]
    exact .pure true _
  | later hcomma =>
    refine .bind (.peekAt hcomma (by decide)) (.bind (.skip ',' _) (.bind (.peekAt h hblank) ?_))
    simp only [if_neg hclose]
    exact .pure true _

theorem noItem (h : Blanks cs (']' :: rest)) (isFirst : Bool) :
    Reads (Reader.anotherItem isFirst) cs false (']' :: rest) :=
  .bind (.peekAt h (by decide)) (.pure false _)

theorem closeArray (rest : List Char) : Reads Reader.closeArray (']' :: rest) () rest :=
  .bind (.peekAt (.refl _) (by decide)) (.skip ']' rest)

end Reads

/-- One more item, up to the blanks behind it. -/
theorem Accepts.nextItem {r : Reader α} {x : α} {done : List α} {front : List Char}
    (h : Accepts r t x) (hnext : Next done.isEmpty front cs) (hspaced : Spaced cs t rest)
    (hrest : Closes rest) : ∃ cs', Blanks cs' rest ∧ cs'.length < front.length ∧
      Reads (Reader.nextItem r done) front (x :: done, true) cs' := by
  obtain ⟨before, hvalue, behind⟩ := hspaced
  obtain ⟨c, cs₁, rfl, hblank, hclose⟩ := hvalue.begins
  refine ⟨_, behind, ?_, ?_⟩
  · exact Nat.lt_of_lt_of_le hvalue.length_lt (Nat.le_trans before.length_le hnext.length_le)
  · exact .bind (.anotherItem hnext before hblank hclose)
      ((h (.refl _) hvalue (behind.stops hrest)).map _)

theorem Loops.items {r : Reader α} : {cs rest : List Char} → {ts : List Term} →
    Items cs ts rest → ∀ (ys : List α) {xs : List α} {front : List Char},
    List.Forall₂ (Accepts r) ts xs → Next ys.isEmpty front cs →
    Loops (Reader.nextItem r) ys front (xs.reverse ++ ys) (']' :: rest)
  | _, _, _, .last h, ys, _, _, .cons hx .nil, hnext => by
    obtain ⟨cs', hblanks, hlt, hstep⟩ := hx.nextItem hnext h (closes_bracket _)
    exact .more hstep hlt (.done (.bind (.noItem hblanks _) (.pure _ _)))
  | _, _, _, .more h hs, ys, x :: xs, _, .cons hx hxs, hnext => by
    obtain ⟨cs', hblanks, hlt, hstep⟩ := hx.nextItem hnext h (closes_comma _)
    have hloops := Loops.items hs (x :: ys) hxs (.later hblanks)
    rw [List.reverse_cons, List.append_assoc]
    exact .more hstep hlt hloops

theorem Accepts.list {r : Reader α} {ts : List Term} {xs : List α}
    (h : List.Forall₂ (Accepts r) ts xs) : Accepts (Reader.list r) (.array ts) xs := by
  refine .placed ?_
  intro cs cs' rest hblanks hvalue _
  obtain ⟨cs', rfl, hloops⟩ : ∃ cs'', cs' = '[' :: cs'' ∧
      Loops (Reader.nextItem r) [] cs'' xs.reverse (']' :: rest) := by
    cases hvalue with
    | noItems hend =>
      cases h
      exact ⟨_, rfl, .done (.bind (.noItem hend _) (.pure _ _))⟩
    | items hitems =>
      have hloops := Loops.items hitems [] h (.first _)
      rw [List.append_nil] at hloops
      exact ⟨_, rfl, hloops⟩
  have hitems := (hloops.loop.enclosed (.closeArray rest)).map List.reverse
  rw [List.reverse_reverse] at hitems
  exact .bind (.valueStart hblanks (by decide)) (.bind (.skip '[' _) hitems)

/-! ### Members -/

namespace Reads

variable {isFirst : Bool}

theorem anotherKey (hnext : Next isFirst cs cs') (h : Blanks cs' ('"' :: rest)) :
    Reads (Reader.anotherKey isFirst) cs true ('"' :: rest) := by
  cases hnext with
  | first => exact .bind (.peekAt h (by decide)) (.pure true _)
  | later hcomma =>
    exact .bind (.peekAt hcomma (by decide))
      (.bind (.skip ',' _) (.bind (.peekAt h (by decide)) (.pure true _)))

theorem noKey (h : Blanks cs ('\x7d' :: rest)) (isFirst : Bool) :
    Reads (Reader.anotherKey isFirst) cs false ('\x7d' :: rest) :=
  .bind (.peekAt h (by decide)) (.pure false _)

theorem colon (h : Blanks cs (':' :: rest)) : Reads Reader.colon cs () rest :=
  .bind (.peekAt h (by decide)) (.skip ':' rest)

theorem closeObject (rest : List Char) : Reads Reader.closeObject ('\x7d' :: rest) () rest :=
  .bind (.peekAt (.refl _) (by decide)) (.skip '\x7d' rest)

end Reads

/-- The members fill fields one after the other, which makes `b` from `a`. -/
inductive Fills (fields : List (Reader.Field α)) : α → List (String × Term) → α → Prop where
  | nil (a : α) : Fills fields a [] a
  | cons {key : String} {field : Reader.Field α} {t : Term} {ms : List (String × Term)}
    {a a' b : α} (hfield : fields.find? (·.name == key) = some field)
    (h : Accepts (field.read a) t a') (hs : Fills fields a' ms b) :
    Fills fields a ((key, t) :: ms) b

theorem Fills.append {fields : List (Reader.Field α)} {ms ms' : List (String × Term)}
    {a a' b : α} (h : Fills fields a ms a') (h' : Fills fields a' ms' b) :
    Fills fields a (ms ++ ms') b := by
  induction h with
  | nil => exact h'
  | cons hfield h _ ih => exact .cons hfield h (ih h')

/-- One more member, up to the blanks behind it. -/
theorem Accepts.nextMember {fields : List (Reader.Field α)} {field : Reader.Field α}
    {p : Reader.Progress α} {key : String} {a : α} {front : List Char}
    (hfield : fields.find? (·.name == key) = some field) (hnew : key ∉ p.seen)
    (h : Accepts (field.read p.value) t a) (hnext : Next p.isFirst front cs)
    (hkey : Key cs key cs') (hspaced : Spaced cs' t rest) (hrest : Closes rest) :
    ∃ cs'', Blanks cs'' rest ∧ cs''.length < front.length ∧
      Reads (Reader.nextMember fields p) front (⟨a, key :: p.seen, false⟩, true) cs'' := by
  have hlt := hkey.length_lt
  obtain ⟨hbefore, hletters, hcolon⟩ := hkey
  obtain ⟨hblanks, hvalue, hbehind⟩ := hspaced
  refine ⟨_, hbehind, ?_, ?_⟩
  · have hvalue := hvalue.length_lt
    have hblanks := hblanks.length_le
    have hnext := hnext.length_le
    omega
  · refine .bind (.anotherKey hnext hbefore) (.bind (.skip '"' _) (.bind (.textBody hletters) ?_))
    simp only [hfield, List.contains_eq_mem, hnew, decide_false, Bool.false_eq_true, if_false]
    exact .bind (.colon hcolon) ((h hblanks hvalue (hbehind.stops hrest)).map _)

theorem Loops.members {fields : List (Reader.Field α)} : {cs rest : List Char} →
    {ms : List (String × Term)} → Members cs ms rest → ∀ {p : Reader.Progress α} {b : α}
    {front : List Char}, Fills fields p.value ms b → (ms.map Prod.fst ++ p.seen).Nodup →
    Next p.isFirst front cs →
    ∃ q : Reader.Progress α, q.value = b ∧
      Loops (Reader.nextMember fields) p front q ('\x7d' :: rest)
  | _, _, _, .last hk h, p, b, _, .cons hfield hvalue (.nil _), hnodup, hnext => by
    have hnew : _ ∉ p.seen := (List.nodup_cons.mp hnodup).1
    obtain ⟨cs', hblanks, hlt, hstep⟩ :=
      hvalue.nextMember hfield hnew hnext hk h (closes_brace _)
    exact ⟨⟨b, _, false⟩, rfl, .more hstep hlt (.done (.bind (.noKey hblanks _) (.pure _ _)))⟩
  | _, _, (key, _) :: _, .more hk h hs, p, b, _, .cons hfield hvalue hfills, hnodup, hnext => by
    have hnew : key ∉ p.seen := fun hmem =>
      (List.nodup_cons.mp hnodup).1 (List.mem_append_right _ hmem)
    obtain ⟨cs', hblanks, hlt, hstep⟩ :=
      hvalue.nextMember hfield hnew hnext hk h (closes_comma _)
    -- the key goes from the names to come to those seen, which stay apart
    obtain ⟨q, hq, hloops⟩ := Loops.members hs (p := ⟨_, key :: p.seen, false⟩) hfills
      (List.perm_middle.nodup_iff.mpr hnodup) (.later hblanks)
    exact ⟨q, hq, .more hstep hlt hloops⟩

/-- A structure is read from the members of an object that fill its fields, each name there
once. -/
theorem Accepts.record {fields : List (Reader.Field α)} {ms : List (String × Term)} {a b : α}
    (h : Fills fields a ms b) (hnodup : (ms.map Prod.fst).Nodup) (expected : String) :
    Accepts (Reader.record expected fields a) (.object ms) b := by
  refine .placed ?_
  intro cs cs' rest hblanks hvalue _
  obtain ⟨cs', q, rfl, rfl, hloops⟩ : ∃ (cs'' : List Char) (q : Reader.Progress α),
      cs' = '\x7b' :: cs'' ∧ q.value = b ∧
        Loops (Reader.nextMember fields) ⟨a, [], true⟩ cs'' q ('\x7d' :: rest) := by
    cases hvalue with
    | noMembers hend =>
      cases h
      exact ⟨_, ⟨a, [], true⟩, rfl, rfl, .done (.bind (.noKey hend _) (.pure _ _))⟩
    | members hmembers =>
      obtain ⟨q, hq, hloops⟩ := Loops.members hmembers (p := ⟨a, [], true⟩) h
        (by simpa using hnodup) (.first _)
      exact ⟨_, q, rfl, hq, hloops⟩
  exact .bind (.valueStart hblanks (by decide))
    (.bind (.skip '\x7b' _) ((hloops.loop.map _).enclosed (.closeObject rest)))

/-! ### Whole texts -/

/-- Whatever text means `t` is read as `a`. -/
theorem Accepts.run {r : Reader α} {a : α} (h : Accepts r t a) (hmeans : Means cs t) :
    r.run (String.ofList cs) = .ok a := by
  obtain ⟨before, hvalue, behind⟩ := hmeans
  have hwhole : Reads (Reader.whole r) cs a [] :=
    .bind (h before hvalue (behind.stops (by simp [Closes])))
      (.bind (.peekBehindBlanks behind (by simp [Stops])) (.pure a []))
  obtain ⟨pos, hwhole⟩ := hwhole 0
  simp only [Reader.run, String.toList_ofList, hwhole]

end Phrasebook.Json
