import Phrasebook.FileTree
import Mathlib.Data.List.Infix
import Mathlib.Order.Basic

/-!
# Contents of a tree

A tree is known from the contents at its addresses. Putting a file at an address that no file and
no directory is in the way of changes the content there and nowhere else (`contentAt_put`); putting
an empty directory where nothing was changes none.
-/

namespace Phrasebook.Entry

/-- What is in the file at an address, if there is one. -/
def contentAt (e : Entry) (a : Address) : Option Content := (e.at? a).bind content?

theorem contentAt_directory_nil (a : Address) : (directory []).contentAt a = none := by
  cases a <;> rfl

/-- Below a name that is not there is what is below an empty directory: nothing. -/
theorem contentAt_cons (e : Entry) (name : String) (a : Address) :
    e.contentAt (name :: a) = ((e.child? name).getD (directory [])).contentAt a := by
  unfold contentAt
  rw [at?]
  cases e.child? name with
  | none => exact (contentAt_directory_nil a).symm
  | some child => rfl

theorem at?_append (e : Entry) (a b : Address) : e.at? (a ++ b) = (e.at? a).bind (at? b) := by
  induction a generalizing e with
  | nil => rfl
  | cons name names ih =>
    rw [List.cons_append, at?, at?]
    cases e.child? name with
    | none => rfl
    | some child => exact ih child

/-- Nothing stands below a file. -/
theorem at?_file (content : Content) {a : Address} (h : a ≠ []) : (file content).at? a = none := by
  cases a with
  | nil => exact absurd rfl h
  | cons name names => rfl

/-- A directory lies in directories only. -/
theorem directory_of_isPrefix {e : Entry} {a : Address} {es : List (String × Entry)}
    (h : e.at? a = some (directory es)) {front : Address} (hfront : front <+: a) :
    ∃ es', e.at? front = some (directory es') := by
  obtain ⟨rest, rfl⟩ := hfront
  rw [at?_append] at h
  obtain ⟨x, hx, hrest⟩ := Option.bind_eq_some_iff.mp h
  cases x with
  | directory es' => exact ⟨es', hx⟩
  | file content =>
    cases rest with
    | nil => cases hrest
    | cons name names => cases hrest

theorem contentAt_of_directory {e : Entry} {a : Address} {es : List (String × Entry)}
    (h : e.at? a = some (directory es)) {front : Address} (hfront : front <+: a) :
    e.contentAt front = none := by
  obtain ⟨es', hfront⟩ := directory_of_isPrefix h hfront
  rw [contentAt, hfront]
  rfl

/-- Below an address where no directory is there is no file. -/
theorem contentAt_of_isPrefix {e : Entry} {a : Address}
    (h : ∀ es, e.at? a ≠ some (directory es)) {b : Address} (hb : a <+: b) (hne : b ≠ a) :
    e.contentAt b = none := by
  obtain ⟨rest, rfl⟩ := hb
  have hrest : rest ≠ [] := by
    rintro rfl
    exact hne (List.append_nil a)
  rw [contentAt, at?_append]
  cases hx : e.at? a with
  | none => rfl
  | some x =>
    cases x with
    | directory es => exact absurd hx (h es)
    | file content => rw [Option.bind_some, at?_file content hrest]; rfl

/-! ### Putting -/

theorem lookup_cons_eq_if (n : String) (e : Entry) (entries : List (String × Entry))
    (name : String) : ((n, e) :: entries).lookup name =
      if name = n then some e else entries.lookup name := by
  rw [List.lookup_cons]
  by_cases h : name = n
  · simp [h]
  · simp [h, beq_eq_false_iff_ne.mpr h]

theorem mem_of_lookup {entries : List (String × Entry)} {name : String}
    {e : Entry} (h : entries.lookup name = some e) : (name, e) ∈ entries := by
  induction entries with
  | nil => cases h
  | cons entry entries ih =>
    rw [lookup_cons_eq_if] at h
    split at h
    · rename_i heq
      rw [heq, ← Option.some.inj h]
      exact List.mem_cons_self
    · exact List.mem_cons_of_mem _ (ih h)

theorem lookup_putChild (name : String) (new : Entry) (entries : List (String × Entry))
    (other : String) : (putChild name new entries).lookup other =
      if other = name then some new else entries.lookup other := by
  induction entries with
  | nil => exact lookup_cons_eq_if name new [] other
  | cons entry entries ih =>
    obtain ⟨n, e⟩ := entry
    unfold putChild
    by_cases hn : n = name
    · subst hn
      rw [if_pos rfl, lookup_cons_eq_if, lookup_cons_eq_if]
      split <;> rfl
    · rw [if_neg hn]
      by_cases hlt : name < n
      · rw [if_pos hlt, lookup_cons_eq_if]
      · rw [if_neg hlt, lookup_cons_eq_if, lookup_cons_eq_if, ih]
        by_cases h : other = n
        · subst h
          rw [if_pos rfl, if_pos rfl, if_neg hn]
        · rw [if_neg h, if_neg h]

theorem child?_put (e : Entry) (name : String) (names : Address) (new : Entry) (other : String) :
    (e.put (name :: names) new).child? other =
      if other = name then some (put ((e.child? name).getD (directory [])) names new)
      else e.child? other := by
  rw [put, child?, children, lookup_putChild]
  rfl

/-- Putting something takes no directory away above its address or beside it. -/
theorem directory_put {e : Entry} (new : Entry) {a c : Address} {es : List (String × Entry)}
    (h : e.at? c = some (directory es)) (ha : ¬ a <+: c) :
    ∃ es', (e.put a new).at? c = some (directory es') := by
  induction a generalizing e c es with
  | nil => exact absurd List.nil_prefix ha
  | cons name names ih =>
    cases c with
    | nil => exact ⟨_, rfl⟩
    | cons other c =>
      rw [at?, child?_put]
      rw [at?] at h
      obtain ⟨child, hchild, hrest⟩ := Option.bind_eq_some_iff.mp h
      by_cases hother : other = name
      · subst hother
        rw [if_pos rfl, hchild]
        exact ih hrest fun hprefix => ha (List.cons_prefix_cons.mpr ⟨rfl, hprefix⟩)
      · rw [if_neg hother, hchild]
        exact ⟨es, hrest⟩

theorem contentAt_put_self (e : Entry) (a : Address) (new : Entry) :
    (e.put a new).contentAt a = new.content? := by
  induction a generalizing e with
  | nil => cases e <;> rfl
  | cons name names ih =>
    rw [contentAt_cons, child?_put, if_pos rfl, Option.getD_some, ih]

/-- What is put at an address with no file on the way to it and none below changes no other
content, if there is none below it either. -/
theorem contentAt_put_of_ne {e new : Entry} {a : Address}
    (hway : ∀ front, front <+: a → front ≠ a → e.contentAt front = none)
    (hbelow : ∀ b, a <+: b → b ≠ a → e.contentAt b = none)
    (hnew : ∀ name b, new.contentAt (name :: b) = none) {b : Address} (hb : b ≠ a) :
    (e.put a new).contentAt b = e.contentAt b := by
  induction a generalizing e b with
  | nil =>
    have hput : e.put [] new = new := by cases e <;> rfl
    obtain ⟨name, names, rfl⟩ := List.exists_cons_of_ne_nil hb
    rw [hput, hnew, hbelow _ (List.nil_prefix) hb]
  | cons name names ih =>
    cases b with
    | nil =>
      -- a directory on the way is made or kept, and neither has a content
      rw [hway [] List.nil_prefix (by simp)]
      rfl
    | cons other b =>
      rw [contentAt_cons, child?_put, contentAt_cons e]
      by_cases h : other = name
      · subst h
        rw [if_pos rfl, Option.getD_some]
        refine ih (fun front hfront hne => ?_) (fun b hprefix hne => ?_) (by simpa using hb)
        · rw [← contentAt_cons]
          exact hway _ (List.cons_prefix_cons.mpr ⟨rfl, hfront⟩) (by simpa using hne)
        · rw [← contentAt_cons]
          exact hbelow _ (List.cons_prefix_cons.mpr ⟨rfl, hprefix⟩) (by simpa using hne)
      · rw [if_neg h]

end Phrasebook.Entry
