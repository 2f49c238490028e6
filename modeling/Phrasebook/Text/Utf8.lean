/-!
# Text by byte offsets

Offsets count the bytes of the UTF-8 form. A cut is possible only between two characters:
`dropBytes?`, `takeBytes?` and `slice?` give `none` for an offset inside a character or past the
end.
-/

namespace Phrasebook.Text

/-- The number of bytes of the UTF-8 form. -/
def byteLength : List Char → Nat
  | [] => 0
  | c :: cs => c.utf8Size + byteLength cs

/-- What follows the first `n` bytes. -/
def dropBytes? : Nat → List Char → Option (List Char)
  | 0, cs => some cs
  | _ + 1, [] => none
  | n + 1, c :: cs => if c.utf8Size ≤ n + 1 then dropBytes? (n + 1 - c.utf8Size) cs else none
termination_by structural _ cs => cs

/-- The first `n` bytes. -/
def takeBytes? : Nat → List Char → Option (List Char)
  | 0, _ => some []
  | _ + 1, [] => none
  | n + 1, c :: cs =>
    if c.utf8Size ≤ n + 1 then (takeBytes? (n + 1 - c.utf8Size) cs).map (c :: ·) else none
termination_by structural _ cs => cs

/-- The characters from byte `lo` up to byte `hi`. -/
def slice? (cs : List Char) (lo hi : Nat) : Option (List Char) :=
  if lo ≤ hi then (dropBytes? lo cs).bind (takeBytes? (hi - lo)) else none

/-- The text from byte `lo` up to byte `hi`. -/
def substring? (s : String) (lo hi : Nat) : Option String :=
  (slice? s.toList lo hi).map String.ofList

/-- The number of 16-bit units of the UTF-16 form of a character. -/
def units16 (c : Char) : Nat := if c.toNat < 0x10000 then 1 else 2

@[simp] theorem byteLength_append (a b : List Char) :
    byteLength (a ++ b) = byteLength a + byteLength b := by
  induction a with
  | nil => simp [byteLength]
  | cons c cs ih => simp [byteLength, ih, Nat.add_assoc]

theorem length_le_byteLength (cs : List Char) : cs.length ≤ byteLength cs := by
  induction cs with
  | nil => exact Nat.le_refl 0
  | cons c cs ih =>
    have := c.utf8Size_pos
    simp only [List.length_cons, byteLength]
    omega

theorem eq_nil_of_byteLength_eq_zero {cs : List Char} (h : byteLength cs = 0) : cs = [] := by
  have := length_le_byteLength cs
  exact List.eq_nil_of_length_eq_zero (by omega)

/-- Of two beginnings of a text the one with fewer bytes is a beginning of the other. -/
theorem prefix_of_byteLength_le {a b cs : List Char} (ha : a <+: cs) (hb : b <+: cs)
    (hle : byteLength a ≤ byteLength b) : a <+: b := by
  rcases List.prefix_or_prefix_of_prefix ha hb with h | ⟨d, rfl⟩
  · exact h
  · rw [byteLength_append] at hle
    have hd : d = [] := eq_nil_of_byteLength_eq_zero (by omega)
    simp [hd]

theorem dropBytes?_byteLength (a b : List Char) :
    dropBytes? (byteLength a) (a ++ b) = some b := by
  induction a with
  | nil => cases b <;> simp [byteLength, dropBytes?]
  | cons c cs ih =>
    have h : 0 < c.utf8Size := c.utf8Size_pos
    obtain ⟨n, hn⟩ : ∃ n, byteLength (c :: cs) = n + 1 :=
      ⟨c.utf8Size + byteLength cs - 1, by simp [byteLength]; omega⟩
    have hn' : c.utf8Size + byteLength cs = n + 1 := hn
    rw [hn, List.cons_append, dropBytes?, if_pos (by omega)]
    rw [show n + 1 - c.utf8Size = byteLength cs by omega, ih]

theorem takeBytes?_byteLength (a b : List Char) :
    takeBytes? (byteLength a) (a ++ b) = some a := by
  induction a with
  | nil => cases b <;> simp [byteLength, takeBytes?]
  | cons c cs ih =>
    have h : 0 < c.utf8Size := c.utf8Size_pos
    obtain ⟨n, hn⟩ : ∃ n, byteLength (c :: cs) = n + 1 :=
      ⟨c.utf8Size + byteLength cs - 1, by simp [byteLength]; omega⟩
    have hn' : c.utf8Size + byteLength cs = n + 1 := hn
    rw [hn, List.cons_append, takeBytes?, if_pos (by omega)]
    rw [show n + 1 - c.utf8Size = byteLength cs by omega, ih]
    rfl

theorem exists_of_dropBytes? {n : Nat} {cs rest : List Char}
    (h : dropBytes? n cs = some rest) :
    ∃ before, cs = before ++ rest ∧ byteLength before = n := by
  fun_induction dropBytes? n cs with
  | case1 cs =>
    cases h
    exact ⟨[], rfl, rfl⟩
  | case2 => cases h
  | case3 n c cs hle ih =>
    obtain ⟨before, rfl, hbefore⟩ := ih h
    refine ⟨c :: before, rfl, ?_⟩
    rw [byteLength]
    omega
  | case4 => cases h

theorem exists_of_takeBytes? {n : Nat} {cs taken : List Char}
    (h : takeBytes? n cs = some taken) :
    ∃ after, cs = taken ++ after ∧ byteLength taken = n := by
  fun_induction takeBytes? n cs generalizing taken with
  | case1 cs =>
    cases h
    exact ⟨cs, rfl, rfl⟩
  | case2 => cases h
  | case3 n c cs hle ih =>
    obtain ⟨rest, hrest, rfl⟩ := Option.map_eq_some_iff.mp h
    obtain ⟨after, rfl, hlength⟩ := ih hrest
    refine ⟨after, rfl, ?_⟩
    rw [byteLength]
    omega
  | case4 => cases h

theorem slice?_append (before middle after : List Char) :
    slice? (before ++ (middle ++ after)) (byteLength before)
      (byteLength before + byteLength middle) = some middle := by
  rw [slice?, if_pos (Nat.le_add_right _ _), dropBytes?_byteLength, Nat.add_sub_cancel_left]
  exact takeBytes?_byteLength middle after

theorem exists_of_slice? {cs middle : List Char} {lo hi : Nat} (h : slice? cs lo hi = some middle) :
    ∃ before after, cs = before ++ (middle ++ after) ∧ byteLength before = lo ∧
      lo + byteLength middle = hi := by
  unfold slice? at h
  split at h
  · obtain ⟨rest, hrest, htake⟩ := Option.bind_eq_some_iff.mp h
    obtain ⟨before, rfl, hbefore⟩ := exists_of_dropBytes? hrest
    obtain ⟨after, rfl, hmiddle⟩ := exists_of_takeBytes? htake
    exact ⟨before, after, rfl, hbefore, by omega⟩
  · cases h

end Phrasebook.Text
