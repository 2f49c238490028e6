import Phrasebook.Message
import Mathlib.Data.String.Basic

/-!
# Ascending lists as sets and as sortings

When `lt` orders any two different members, `insert` and `union` are those of sets (`mem_insert`,
`mem_union`). For a strict order they keep lists ascending (`ascending_insert`, `ascending_union`),
and what is in an ascending list already changes nothing in it (`union_of_subset`). `sort`
rearranges a list (`sort_perm`) so that it ascends (`sort_pairwise`), and keeps members in their
order between which `le` makes no difference (`filter_sort`).
-/

namespace Phrasebook.Sorted

variable {α : Type}

/-! ### Sets -/

section Sets

variable {lt : α → α → Bool}

/-- Of two different members one comes first. -/
def Trichotomous (lt : α → α → Bool) : Prop :=
  ∀ a b, lt a b = false → lt b a = false → a = b

theorem mem_insert (h : Trichotomous lt) {x y : α} {ys : List α} :
    x ∈ insert lt y ys ↔ x = y ∨ x ∈ ys := by
  induction ys with
  | nil => simp [insert]
  | cons z zs ih =>
    unfold insert
    by_cases h1 : lt y z = true
    · simp [h1]
    · by_cases h2 : lt z y = true
      · rw [if_neg h1, if_pos h2, List.mem_cons, ih, List.mem_cons]
        exact or_left_comm
      · obtain rfl := h y z (by simpa using h1) (by simpa using h2)
        simp [h1]

theorem mem_union (h : Trichotomous lt) {x : α} {xs ys : List α} :
    x ∈ union lt xs ys ↔ x ∈ xs ∨ x ∈ ys := by
  unfold union
  induction ys generalizing xs with
  | nil => simp
  | cons y ys ih =>
    rw [List.foldl_cons, ih, mem_insert h, List.mem_cons, or_assoc, or_left_comm]

theorem trichotomous_locationLt : Trichotomous Location.lt := by
  rintro ⟨f, l, c⟩ ⟨f', l', c'⟩ hab hba
  simp only [Location.lt, Bool.or_eq_false_iff, Bool.and_eq_false_iff, decide_eq_false_iff_not,
    beq_eq_false_iff_ne, not_lt] at hab hba
  obtain rfl : f = f' := le_antisymm hba.1 hab.1
  have h1 := hab.2.resolve_left (by simp)
  have h2 := hba.2.resolve_left (by simp)
  obtain rfl : l = l' := le_antisymm h2.1 h1.1
  have h3 := h1.2.resolve_left (by simp)
  have h4 := h2.2.resolve_left (by simp)
  rw [le_antisymm h4 h3]

/-- An order in which nothing comes before itself and any two different members can be compared. -/
structure StrictOrder (lt : α → α → Bool) : Prop where
  irrefl : ∀ a, lt a a = false
  trans : ∀ a b c, lt a b = true → lt b c = true → lt a c = true
  trichotomous : Trichotomous lt

theorem StrictOrder.asymm (h : StrictOrder lt) {a b : α} (hab : lt a b = true) :
    lt b a = false := by
  by_contra hba
  have haa := h.trans a b a hab (by simpa using hba)
  rw [h.irrefl a] at haa
  exact Bool.false_ne_true haa

/-- The list of a set: each member comes before all those behind it. -/
def Ascending (lt : α → α → Bool) (xs : List α) : Prop := xs.Pairwise (lt · · = true)

theorem Ascending.nodup (h : StrictOrder lt) {xs : List α} (hxs : Ascending lt xs) : xs.Nodup := by
  refine List.Pairwise.imp (fun {a b} hab => ?_) hxs
  rintro rfl
  rw [h.irrefl a] at hab
  exact Bool.false_ne_true hab

/-- An ascending list is known from its members. -/
theorem Ascending.ext (h : StrictOrder lt) {xs ys : List α} (hxs : Ascending lt xs)
    (hys : Ascending lt ys) (hmem : ∀ x, x ∈ xs ↔ x ∈ ys) : xs = ys := by
  have hperm : xs.Perm ys := (List.perm_ext_iff_of_nodup (hxs.nodup h) (hys.nodup h)).mpr hmem
  refine hperm.eq_of_pairwise (fun a b _ _ hab hba => ?_) hxs hys
  rw [h.asymm hab] at hba
  cases hba

theorem ascending_insert (h : StrictOrder lt) {x : α} {xs : List α} (hxs : Ascending lt xs) :
    Ascending lt (insert lt x xs) := by
  induction xs with
  | nil => exact List.pairwise_singleton _ _
  | cons y ys ih =>
    obtain ⟨hy, hys⟩ := List.pairwise_cons.mp hxs
    unfold insert
    by_cases hxy : lt x y = true
    · rw [if_pos hxy]
      refine List.pairwise_cons.mpr ⟨fun z hz => ?_, hxs⟩
      rcases List.mem_cons.mp hz with rfl | hz
      · exact hxy
      · exact h.trans x y z hxy (hy z hz)
    · rw [if_neg hxy]
      by_cases hyx : lt y x = true
      · rw [if_pos hyx]
        refine List.pairwise_cons.mpr ⟨fun z hz => ?_, ih hys⟩
        rcases (mem_insert h.trichotomous).mp hz with rfl | hz
        · exact hyx
        · exact hy z hz
      · rw [if_neg hyx]
        exact hxs

theorem ascending_union (h : StrictOrder lt) {xs ys : List α} (hxs : Ascending lt xs) :
    Ascending lt (union lt xs ys) := by
  unfold union
  induction ys generalizing xs with
  | nil => exact hxs
  | cons y ys ih => exact ih (ascending_insert h hxs)

theorem mem_ofList (h : Trichotomous lt) {x : α} {xs : List α} : x ∈ ofList lt xs ↔ x ∈ xs := by
  rw [ofList, mem_union h]
  simp

theorem ascending_ofList (h : StrictOrder lt) (xs : List α) : Ascending lt (ofList lt xs) :=
  ascending_union h .nil

theorem insert_of_mem (h : StrictOrder lt) {x : α} {xs : List α} (hxs : Ascending lt xs)
    (hx : x ∈ xs) : insert lt x xs = xs := by
  induction xs with
  | nil => simp at hx
  | cons y ys ih =>
    obtain ⟨hy, hys⟩ := List.pairwise_cons.mp hxs
    unfold insert
    rcases List.mem_cons.mp hx with rfl | hx
    · simp [h.irrefl]
    · have hyx := hy x hx
      rw [if_neg (by simp [h.asymm hyx]), if_pos hyx, ih hys hx]

theorem union_of_subset (h : StrictOrder lt) {xs ys : List α} (hxs : Ascending lt xs)
    (hsub : ∀ y ∈ ys, y ∈ xs) : union lt xs ys = xs := by
  unfold union
  induction ys with
  | nil => rfl
  | cons y ys ih =>
    rw [List.foldl_cons, insert_of_mem h hxs (hsub y (by simp))]
    exact ih fun z hz => hsub z (List.mem_cons_of_mem y hz)

/-- Members that are compared by their values under `f` become the set of these. -/
theorem map_union {β : Type} {lt' : β → β → Bool} {f : α → β}
    (h : ∀ a b, lt a b = lt' (f a) (f b)) (xs ys : List α) :
    (union lt xs ys).map f = union lt' (xs.map f) (ys.map f) := by
  have hinsert (x : α) (xs : List α) : (insert lt x xs).map f = insert lt' (f x) (xs.map f) := by
    induction xs with
    | nil => rfl
    | cons y ys ih =>
      rw [insert, List.map_cons, insert, ← h, ← h, ← ih]
      split
      · rfl
      · split <;> rfl
  unfold union
  induction ys generalizing xs with
  | nil => rfl
  | cons y ys ih => rw [List.foldl_cons, ih, hinsert, List.map_cons, List.foldl_cons]

/-- Locations are ordered as the triples of their fields are. -/
theorem locationLt_iff {a b : Location} : Location.lt a b = true ↔
    a.file < b.file ∨ a.file = b.file ∧ (a.line < b.line ∨ a.line = b.line ∧ a.col < b.col) := by
  simp [Location.lt]

theorem strictOrder_locationLt : StrictOrder Location.lt where
  irrefl a := by
    have hnot : ¬ Location.lt a a = true := by simp [locationLt_iff]
    simpa using hnot
  trans a b c hab hbc := by
    rw [locationLt_iff] at hab hbc ⊢
    rcases hab with hab | ⟨hfile, hab⟩
    · rcases hbc with hbc | ⟨hfile', -⟩
      · exact .inl (lt_trans hab hbc)
      · exact .inl (hfile' ▸ hab)
    · rcases hbc with hbc | ⟨hfile', hbc⟩
      · exact .inl (hfile ▸ hbc)
      · exact .inr ⟨hfile.trans hfile', by omega⟩
  trichotomous := trichotomous_locationLt

theorem strictOrder_textLt : StrictOrder textLt where
  irrefl a := by simp [textLt]
  trans a b c hab hbc := by
    simp only [textLt, decide_eq_true_eq] at hab hbc ⊢
    exact lt_trans hab hbc
  trichotomous a b hab hba := by
    simp only [textLt, decide_eq_false_iff_not, not_lt] at hab hba
    exact le_antisymm hba hab

end Sets

/-! ### Sorting -/

section Sorting

variable {le : α → α → Bool}

theorem place_perm (x : α) (xs : List α) : (place le x xs).Perm (x :: xs) := by
  induction xs with
  | nil => exact .refl _
  | cons y ys ih =>
    unfold place
    split
    · exact .refl _
    · exact (ih.cons y).trans (.swap x y ys)

theorem sort_perm (xs : List α) : (sort le xs).Perm xs := by
  induction xs with
  | nil => exact .refl _
  | cons x xs ih => exact (place_perm x _).trans (ih.cons x)

/-- What comes before all of a list is sorted to its front. -/
theorem sort_concat {x : α} {xs : List α} (h : ∀ y ∈ xs, le y x = false) :
    sort le (xs ++ [x]) = x :: sort le xs := by
  induction xs with
  | nil => rfl
  | cons y ys ih =>
    obtain ⟨hy, hys⟩ := List.forall_mem_cons.mp h
    have hsort (zs : List α) : sort le (y :: zs) = place le y (sort le zs) := rfl
    rw [List.cons_append, hsort, hsort, ih hys, place, if_neg (by simp [hy])]

theorem place_pairwise (total : ∀ a b, le a b = false → le b a = true)
    (trans : ∀ a b c, le a b = true → le b c = true → le a c = true) {x : α} {xs : List α}
    (h : xs.Pairwise (le · · = true)) : (place le x xs).Pairwise (le · · = true) := by
  induction xs with
  | nil => simp [place]
  | cons y ys ih =>
    obtain ⟨hy, hys⟩ := List.pairwise_cons.mp h
    unfold place
    by_cases hxy : le x y = true
    · rw [if_pos hxy]
      refine List.pairwise_cons.mpr ⟨fun z hz => ?_, h⟩
      rcases List.mem_cons.mp hz with rfl | hz
      · exact hxy
      · exact trans x y z hxy (hy z hz)
    · rw [if_neg hxy]
      refine List.pairwise_cons.mpr ⟨fun z hz => ?_, ih hys⟩
      rcases List.mem_cons.mp ((place_perm x ys).mem_iff.mp hz) with rfl | hz
      · exact total z y (by simpa using hxy)
      · exact hy z hz

theorem sort_pairwise (total : ∀ a b, le a b = false → le b a = true)
    (trans : ∀ a b c, le a b = true → le b c = true → le a c = true) (xs : List α) :
    (sort le xs).Pairwise (le · · = true) := by
  induction xs with
  | nil => exact .nil
  | cons x xs ih => exact place_pairwise total trans ih

section Stable

variable {p : α → Bool} (h : ∀ a b, p a = true → p b = true → le a b = true)
include h

theorem filter_place (x : α) (xs : List α) :
    (place le x xs).filter p = (x :: xs).filter p := by
  induction xs with
  | nil => rfl
  | cons y ys ih =>
    unfold place
    by_cases hxy : le x y = true
    · rw [if_pos hxy]
    · rw [if_neg hxy, List.filter_cons, ih]
      by_cases hx : p x = true
      · have hy : ¬ p y = true := fun hy => hxy (h x y hx hy)
        simp [hx, hy]
      · simp [List.filter_cons, hx]

/-- Members that are picked by `p` stay in their order when `le` holds between any two of them. -/
theorem filter_sort (xs : List α) : (sort le xs).filter p = xs.filter p := by
  induction xs with
  | nil => rfl
  | cons x xs ih =>
    have hsort : sort le (x :: xs) = place le x (sort le xs) := rfl
    rw [hsort, filter_place h, List.filter_cons, List.filter_cons, ih]

end Stable

end Sorting

end Phrasebook.Sorted
