import Phrasebook.Json.Reader

/-!
# What a value that was read satisfies

`Yields r P`: whenever the reader `r` succeeds, its result satisfies `P`. What every field of a
structure keeps holds of the structure that was read (`Yields.record`), and a size that was read
fits into 64 bits (`Yields.nat`).
-/

namespace Phrasebook.Json

variable {α β : Type} {P : α → Prop} {Q : β → Prop} {r : Reader α} {q : α → Reader β}

/-- Every result of the reader satisfies `P`. -/
def Yields (r : Reader α) (P : α → Prop) : Prop := ∀ c a c', r c = .ok a c' → P a

namespace Yields

/-! ### Steps -/

theorem pure {a : α} (h : P a) : Yields (Pure.pure a) P := by
  rintro _ _ _ ⟨⟩
  exact h

theorem bindOf (hr : Yields r P) (hq : ∀ a, P a → Yields (q a) Q) : Yields (r >>= q) Q := by
  intro c b c' h
  change EStateM.bind r q c = _ at h
  unfold EStateM.bind at h
  split at h
  · next a c₁ hstep => exact hq a (hr _ _ _ hstep) _ _ _ h
  · cases h

theorem bind (hq : ∀ a, Yields (q a) Q) : Yields (r >>= q) Q :=
  bindOf (P := fun _ => True) (fun _ _ _ _ => trivial) fun a _ => hq a

theorem map {f : α → β} (h : Yields r P) (hf : ∀ a, P a → Q (f a)) :
    Yields (r >>= fun a => Pure.pure (f a)) Q :=
  h.bindOf fun a ha => .pure (hf a ha)

theorem ite {c : Prop} [Decidable c] {r' : Reader α} (h : Yields r P) (h' : Yields r' P) :
    Yields (if c then r else r') P := by
  split
  · exact h
  · exact h'

theorem failUnfit (cause : Cause) : Yields (Reader.failUnfit cause : Reader α) P := by
  rintro _ _ _ ⟨⟩

theorem fail (cause : Cause) : Yields (Reader.fail cause : Reader α) P := by
  rintro _ _ _ ⟨⟩

theorem failAt (place : Nat) (cause : Cause) : Yields (Reader.failAt place cause : Reader α) P := by
  rintro _ _ _ ⟨⟩

theorem failNext (cause : Cause) : Yields (Reader.failNext cause : Reader α) P :=
  bind fun _ => failAt _ _

theorem placed (h : Yields r P) : Yields (Reader.placed r) P := by
  intro c a c' hrun
  unfold Reader.placed at hrun
  split at hrun
  · cases hrun
  · exact h _ _ _ hrun

theorem enclosed {close : Reader Unit} (h : Yields r P) : Yields (Reader.enclosed close r) P := by
  intro c a c' hrun
  unfold Reader.enclosed at hrun
  split at hrun
  · next hr =>
    split at hrun
    · cases hrun
      exact h _ _ _ hr
    · cases hrun
  · split at hrun <;> cases hrun

/-- What every step of a loop keeps holds behind it. -/
theorem loop {step : α → Reader (α × Bool)} {a : α} (ha : P a)
    (h : ∀ a, P a → Yields (step a) fun next => P next.1) : Yields (Reader.loop a step) P := by
  have iterate : ∀ (n : Nat) (a : α), P a → Yields (Reader.iterate step n a) P := by
    intro n
    induction n with
    | zero => exact fun _ _ => fail _
    | succ n ih => exact fun a ha => bindOf (h a ha) fun next hnext => ite (ih _ hnext) (pure hnext)
  exact bind fun _ => iterate _ a ha

theorem unexpected (expected : String) : Yields (Reader.unexpected expected : Reader α) P := by
  have number (isNegative : Bool) : Yields (do
      Reader.failUnfit (Reader.unexpectedNumber (← Reader.number isNegative) expected)) P :=
    bind fun _ => failUnfit _
  refine placed (bind fun c => ?_)
  split
  · exact bind fun _ => bind fun _ => failUnfit _
  · exact bind fun _ => bind fun _ => failUnfit _
  · exact bind fun _ => bind fun _ => failUnfit _
  · exact bind fun _ => bind fun _ => failUnfit _
  · exact failUnfit _
  · exact failUnfit _
  · exact bind fun _ => number true
  · exact ite (number false) (failNext _)

end Yields

/-! ### Sizes -/

theorem absorb_le {n : Nat} (hn : n ≤ maxWhole) (ds : List Char) : (absorb n ds).1 ≤ maxWhole := by
  induction ds generalizing n with
  | nil => exact hn
  | cons d ds ih =>
    rw [absorb]
    split
    · next hd => exact ih hd
    · exact hn

/-- What has been rounded is no whole number. -/
theorem finish_ne_whole (t : NumeralText) (n : Nat) (e i : Int) :
    Number.ofText.finish t n e ≠ .ok (.whole i) := by
  intro h
  have hparts : Number.ofParts t.isNegative n e = some (.whole i) := by
    unfold Number.ofText.finish at h
    split at h
    · next x hx => rw [hx, Except.ok.inj h]
    · cases h
  simp only [Number.ofParts, Option.pure_def, Option.bind_eq_bind,
    Option.bind_eq_some_iff] at hparts
  obtain ⟨_, _, _, _, hdouble⟩ := hparts
  cases hdouble

theorem ofText_le {t : NumeralText} {n : Nat} (h : Number.ofText t = .ok (.whole (.ofNat n))) :
    n ≤ maxWhole := by
  have habsorb := absorb_le (Nat.zero_le maxWhole) t.whole
  simp only [Number.ofText] at h
  split at h
  · -- without fraction and exponent
    split at h
    · split at h
      · exact (finish_ne_whole _ _ _ _ h).elim
      · next hnegative =>
        have hn := Number.whole.inj (Except.ok.inj h)
        simp only [Int.ofNat_eq_natCast] at hn
        omega
    · have hn := Number.whole.inj (Except.ok.inj h)
      simp only [Int.ofNat_eq_natCast] at hn
      omega
  · split at h
    · exact (finish_ne_whole _ _ _ _ h).elim
    · split at h
      · exact (finish_ne_whole _ _ _ _ h).elim
      · split at h
        · exact (finish_ne_whole _ _ _ _ h).elim
        · cases h

namespace Yields

theorem number (isNegative : Bool) :
    Yields (Reader.number isNegative) fun x => ∀ n, x = .whole (.ofNat n) → n ≤ maxWhole := by
  refine bind fun t => ?_
  split
  · next x hx => exact pure fun n hn => ofText_le (hn ▸ hx)
  · exact fail _
  · exact bind fun _ => failAt _ _

theorem size {x : Number} (hx : ∀ n, x = .whole (.ofNat n) → n ≤ maxWhole) :
    Yields (Reader.size x) (· ≤ maxWhole) := by
  unfold Reader.size
  split
  · next n => exact pure (hx n rfl)
  · exact failUnfit _
  · exact failUnfit _

/-- A size fits into 64 bits. -/
theorem nat : Yields Reader.nat (· ≤ maxWhole) := by
  have fits (isNegative : Bool) :
      Yields (Reader.number isNegative >>= Reader.size) (· ≤ maxWhole) :=
    (number isNegative).bindOf fun _ => size
  exact placed (bind fun c => ite (bind fun _ => fits true) (ite (fits false) (unexpected _)))

/-! ### Structures -/

variable {fields : List (Reader.Field α)} {start : α}

theorem nextMember (h : ∀ field ∈ fields, ∀ a, P a → Yields (field.read a) P)
    {p : Reader.Progress α} (hp : P p.value) :
    Yields (Reader.nextMember fields p) fun next => P next.1.value := by
  refine bind fun more => ite ?_ (pure hp)
  refine bind fun _ => bind fun key => ?_
  split
  · exact bind fun _ => bind fun _ => pure hp
  · next field hfield =>
    have hread := h field (List.mem_of_find?_eq_some hfield) p.value hp
    have hrest : Yields (do
        Reader.colon
        return ((⟨← field.read p.value, key :: p.seen, false⟩ : Reader.Progress α), true))
        fun next => P next.1.value := bind fun _ => hread.map fun _ ha => ha
    exact ite (bind fun _ => hrest) hrest

theorem members (h : ∀ field ∈ fields, ∀ a, P a → Yields (field.read a) P) (hstart : P start) :
    Yields (Reader.members fields start) P :=
  (loop (P := fun p : Reader.Progress α => P p.value) hstart fun _ hp => nextMember h hp).map
    fun _ hp => hp

theorem positional (h : ∀ field ∈ fields, ∀ a, P a → Yields (field.read a) P) (hstart : P start)
    (isFirst : Bool) : Yields (Reader.positional isFirst fields start) P := by
  induction fields generalizing start isFirst with
  | nil => exact pure hstart
  | cons field fields ih =>
    obtain ⟨hfield, hfields⟩ := List.forall_mem_cons.mp h
    refine bind fun more => ite ?_ (pure hstart)
    exact (hfield start hstart).bindOf fun a ha => ih hfields ha false

/-- What every field keeps holds of the structure. -/
theorem record (h : ∀ field ∈ fields, ∀ a, P a → Yields (field.read a) P) (hstart : P start)
    (expected : String) : Yields (Reader.record expected fields start) P := by
  refine placed (bind fun c => ?_)
  split
  · exact bind fun _ => enclosed (members h hstart)
  · exact bind fun _ => enclosed (positional h hstart true)
  · exact unexpected _

/-- What holds of every value that is read holds of the value of a whole text. -/
theorem run (h : Yields r P) {text : String} {a : α} (hrun : r.run text = .ok a) : P a := by
  have hwhole : Yields (Reader.whole r) P :=
    h.bindOf fun a ha => bind fun _ => ite (bind fun _ => pure ha) (pure ha)
  unfold Reader.run at hrun
  split at hrun
  · next hresult =>
    cases hrun
    exact hwhole _ _ _ hresult
  · cases hrun

end Yields

end Phrasebook.Json
