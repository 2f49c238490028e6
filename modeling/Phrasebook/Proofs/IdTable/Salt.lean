import Phrasebook.Proofs.IdTable.Candidates
import Mathlib.Data.List.Infix

/-!
# Texts and contexts in one hash

What is hashed for a pair is its text and its context with a separator in between. Where the text
ends is not told, so two pairs are hashed alike if the separator can be found at another place of
the same input: `Recut` are the three ways in which it can, and there is no other one
(`MessageKey.hashInput_eq_iff`). The text that ends further behind contains the separator then, or
it ends with half of it.

Of two pairs with the same first candidate the one that comes first is given it; with different
first candidates the order does not matter (`orderFree_iff`). So ids depend on the order at every
length exactly where the separator can be found at another place, or where the hashes of different
inputs agree in as many digits as ids can have (`collides_iff_recut`).
-/

namespace Phrasebook

namespace MessageKey

variable {k l : MessageKey}

/-! ### Inputs -/

/-- One input is cut further behind for the second pair: not at all, one sign further, or at a
separator further on. -/
inductive Recut : MessageKey → MessageKey → Prop
  | uncut (text context : String) : Recut ⟨text, some context⟩ ⟨text ++ "::" ++ context, none⟩
  | overlapping (text context : String) :
    Recut ⟨text, some (":" ++ context)⟩ ⟨text ++ ":", some context⟩
  | later (text middle context : String) :
    Recut ⟨text, some (middle ++ "::" ++ context)⟩ ⟨text ++ "::" ++ middle, some context⟩

theorem Recut.hashInput_eq (h : Recut k l) : k.hashInput = l.hashInput := by
  cases h with
  | uncut text context => rfl
  | overlapping text context =>
    apply String.toList_inj.mp
    simp [hashInput]
  | later text middle context =>
    apply String.toList_inj.mp
    simp [hashInput]

/-- The text contains the separator, or it ends with half of it. -/
def MayCut (text : String) : Prop := [':', ':'] <:+: text.toList ++ [':']

instance (text : String) : Decidable (MayCut text) :=
  decidable_of_iff (∃ rest ∈ (text.toList ++ [':']).tails, [':', ':'] <+: rest) (by
    simp only [MayCut, List.mem_tails, List.infix_iff_prefix_suffix, and_comm])

theorem Recut.mayCut (h : Recut k l) : MayCut l.text := by
  cases h with
  | uncut text context => exact ⟨text.toList, context.toList ++ [':'], by simp⟩
  | overlapping text context => exact ⟨text.toList, [], by simp⟩
  | later text middle context => exact ⟨text.toList, middle.toList ++ [':'], by simp⟩

/-- What stands between the ends of the two texts begins with the separator, or is half of it. -/
theorem recut_of_append {text context context' : String} {between : List Char}
    (h : ':' :: ':' :: context.toList = between ++ ':' :: ':' :: context'.toList)
    (hne : between ≠ []) :
    Recut ⟨text, some context⟩ ⟨text ++ String.ofList between, some context'⟩ := by
  match between, hne with
  | [c], _ =>
    obtain ⟨rfl, hrest⟩ := List.cons.inj h
    obtain ⟨-, hcontext⟩ := List.cons.inj hrest
    obtain rfl : context = ":" ++ context' := String.toList_inj.mp (by simpa using hcontext)
    exact .overlapping text context'
  | c :: d :: middle, _ =>
    obtain ⟨rfl, hrest⟩ := List.cons.inj h
    obtain ⟨rfl, hcontext⟩ := List.cons.inj hrest
    obtain rfl : context = String.ofList middle ++ "::" ++ context' :=
      String.toList_inj.mp (by simpa using hcontext)
    have htext : text ++ String.ofList (':' :: ':' :: middle) =
        text ++ "::" ++ String.ofList middle := String.toList_inj.mp (by simp)
    rw [htext]
    exact .later text (String.ofList middle) context'

theorem recut_of_hashInput_eq {text text' context context' : String}
    (h : text ++ "::" ++ context = text' ++ "::" ++ context')
    (hne : MessageKey.mk text (some context) ≠ ⟨text', some context'⟩) :
    Recut ⟨text, some context⟩ ⟨text', some context'⟩ ∨
      Recut ⟨text', some context'⟩ ⟨text, some context⟩ := by
  have hlist : text.toList ++ ':' :: ':' :: context.toList =
      text'.toList ++ ':' :: ':' :: context'.toList := by
    simpa using congrArg String.toList h
  -- one of the texts is a beginning of the other; were they equal, the pairs would be
  rcases List.append_eq_append_iff.mp hlist with ⟨between, htext, hrest⟩ | ⟨between, htext, hrest⟩
  · obtain rfl : text' = text ++ String.ofList between := String.toList_inj.mp (by simp [htext])
    refine .inl (recut_of_append hrest fun hnil => hne ?_)
    subst hnil
    obtain rfl : context = context' := String.toList_inj.mp (by simpa using hrest)
    simp
  · obtain rfl : text = text' ++ String.ofList between := String.toList_inj.mp (by simp [htext])
    refine .inr (recut_of_append hrest fun hnil => hne ?_)
    subst hnil
    obtain rfl : context' = context := String.toList_inj.mp (by simpa using hrest)
    simp

/-- Different pairs are hashed alike exactly if one input can be cut in two ways. -/
theorem hashInput_eq_iff (hne : k ≠ l) : k.hashInput = l.hashInput ↔ k.Recut l ∨ l.Recut k := by
  constructor
  · intro h
    obtain ⟨text, context⟩ := k
    obtain ⟨text', context'⟩ := l
    -- a text without context is hashed as it is, so two of them are the same
    cases context with
    | none =>
      cases context' with
      | none =>
        obtain rfl : text = text' := h
        exact absurd rfl hne
      | some context' =>
        obtain rfl : text = text' ++ "::" ++ context' := h
        exact .inr (.uncut text' context')
    | some context =>
      cases context' with
      | none =>
        obtain rfl : text ++ "::" ++ context = text' := h
        exact .inl (.uncut text context)
      | some context' => exact recut_of_hashInput_eq h hne
  · rintro (h | h)
    · exact h.hashInput_eq
    · exact h.hashInput_eq.symm

/-! ### First candidates -/

/-- The pairs have the same first candidate, whatever length is asked for. -/
def Collides (k l : MessageKey) : Prop := ∀ length, k.firstId length = l.firstId length

/-- Different inputs have hashes that agree in as many digits as ids can have. -/
def DigestsMeet (input input' : String) : Prop :=
  input ≠ input' ∧ Digest.truncated input maxIdLength = Digest.truncated input' maxIdLength

theorem firstId_eq (key : MessageKey) (length : Nat) :
    key.firstId length = Digest.truncated key.hashInput (clampIdLength length) := by
  rw [firstId, candidate, candidateLength_zero (clampIdLength_bounds length).2]

/-- Hashes that agree in some digits agree in fewer. -/
theorem truncated_congr {input input' : String} {n m : Nat} (hmn : m ≤ n)
    (h : Digest.truncated input n = Digest.truncated input' n) :
    Digest.truncated input m = Digest.truncated input' m := by
  have htake : (Digest.hexDigest input).take n = (Digest.hexDigest input').take n :=
    String.ofList_inj.mp h
  have htake' := congrArg (List.take m) htake
  rw [List.take_take, List.take_take, Nat.min_eq_left hmn] at htake'
  rw [Digest.truncated, Digest.truncated, htake']

theorem collides_iff : k.Collides l ↔
    Digest.truncated k.hashInput maxIdLength = Digest.truncated l.hashInput maxIdLength := by
  constructor
  · intro h
    have hmax := h maxIdLength
    rwa [firstId_eq, firstId_eq] at hmax
  · intro h length
    rw [firstId_eq, firstId_eq]
    exact truncated_congr (clampIdLength_bounds length).2 h

theorem collides_iff_or : k.Collides l ↔
    k.hashInput = l.hashInput ∨ DigestsMeet k.hashInput l.hashInput := by
  rw [collides_iff, DigestsMeet]
  by_cases h : k.hashInput = l.hashInput
  · simp [h]
  · simp [h]

end MessageKey

/-! ### Two pairs in either order -/

namespace IdCall

variable {t : IdTable} {key : MessageKey} {id : String}

theorem id?_run_assign (h : t.Consistent) (hid : t.id? key = some id) (key' : MessageKey)
    (length : Nat) : ((assign key' length).run t).id? key = some id := by
  cases hassign : t.assign key' length with
  | none => simpa [run, hassign] using hid
  | some found =>
    obtain ⟨id', t'⟩ := found
    simpa [run, hassign] using IdTable.id?_assign_of_id? h hassign hid

/-- A new pair whose first candidate nobody owns is given it. -/
theorem adds_run_assign {length : Nat} (hnew : t.id? key = none)
    (hfree : t.owner? (key.firstId length) = none) :
    t.Adds (key.firstId length) key ((assign key length).run t) := by
  have hisFree : t.isFreeFor key (key.firstId length) = true := by
    simp [IdTable.isFreeFor, hfree]
  simp only [run, IdTable.assign_of_free hnew hisFree]
  exact IdTable.adds_append hfree hnew

end IdCall

/-- Behind the calls, each of the two pairs is given the same id, whichever of them comes first. -/
def OrderFree (calls : List IdCall) (k l : MessageKey) (length : Nat) : Prop :=
  ∀ key ∈ [k, l],
    (runIdCalls (calls ++ [.assign k length, .assign l length])).id? key =
      (runIdCalls (calls ++ [.assign l length, .assign k length])).id? key

section Order

variable {calls : List IdCall} {k l : MessageKey} {length : Nat}

theorem runIdCalls_pair (calls : List IdCall) (a b : IdCall) :
    runIdCalls (calls ++ [a, b]) = b.run (a.run (runIdCalls calls)) := by
  simp [runIdCalls, List.foldl_append]

/-- The pair that comes first has its first candidate in the end. -/
theorem id?_of_first (hk : (runIdCalls calls).id? k = none)
    (hck : (runIdCalls calls).owner? (k.firstId length) = none) :
    (runIdCalls (calls ++ [.assign k length, .assign l length])).id? k =
      some (k.firstId length) := by
  have hadds := IdCall.adds_run_assign hk hck
  have hid : ((IdCall.assign k length).run (runIdCalls calls)).id? k = some (k.firstId length) := by
    rw [hadds.id?, if_pos rfl]
  rw [runIdCalls_pair]
  exact IdCall.id?_run_assign (IdCall.consistent_run (consistent_runIdCalls calls) _) hid l length

/-- The pair that comes second has its own one, if that is another one. -/
theorem id?_of_second (hne : k ≠ l) (hk : (runIdCalls calls).id? k = none)
    (hl : (runIdCalls calls).id? l = none)
    (hck : (runIdCalls calls).owner? (k.firstId length) = none)
    (hcl : (runIdCalls calls).owner? (l.firstId length) = none)
    (hapart : k.firstId length ≠ l.firstId length) :
    (runIdCalls (calls ++ [.assign k length, .assign l length])).id? l =
      some (l.firstId length) := by
  have hadds := IdCall.adds_run_assign hk hck
  have hnew : ((IdCall.assign k length).run (runIdCalls calls)).id? l = none := by
    rw [hadds.id?, if_neg hne.symm, hl]
  have hfree : ((IdCall.assign k length).run (runIdCalls calls)).owner? (l.firstId length) =
      none := by
    rw [hadds.owner?, if_neg hapart.symm, hcl]
  rw [runIdCalls_pair, (IdCall.adds_run_assign hnew hfree).id?, if_pos rfl]

theorem orderFree_iff (hne : k ≠ l) (hk : (runIdCalls calls).id? k = none)
    (hl : (runIdCalls calls).id? l = none)
    (hck : (runIdCalls calls).owner? (k.firstId length) = none)
    (hcl : (runIdCalls calls).owner? (l.firstId length) = none) :
    OrderFree calls k l length ↔ k.firstId length ≠ l.firstId length := by
  constructor
  · intro horder heq
    -- the first candidate of both would belong to both
    have hconsistent := consistent_runIdCalls (calls ++ [.assign k length, .assign l length])
    have hidk := id?_of_first (l := l) hk hck
    have hidl := horder l (by simp)
    rw [id?_of_first (l := k) hl hcl, ← heq] at hidl
    have howner := (IdTable.owner?_iff_id? hconsistent).mpr hidk
    rw [(IdTable.owner?_iff_id? hconsistent).mpr hidl] at howner
    exact hne (Option.some.inj howner).symm
  · intro hapart key hkey
    rcases List.mem_pair.mp hkey with rfl | rfl
    · rw [id?_of_first hk hck, id?_of_second hne.symm hl hk hcl hck hapart.symm]
    · rw [id?_of_first hl hcl, id?_of_second hne hk hl hck hcl hapart]

end Order

/-- Different pairs are hashed alike exactly if the separator can be found at another place of the
same input, which is not so if neither text contains it or ends with half of it. They have the same
first candidate at every length exactly then, or if different inputs have hashes that agree in all
digits that ids can have; and where no other pair interferes, their ids depend on the order exactly
at the lengths at which their first candidates are the same. -/
theorem collides_iff_recut {text text' : String} {context context' : Option String}
    (hne : MessageKey.of text context ≠ .of text' context') :
    let k := MessageKey.of text context
    let l := MessageKey.of text' context'
    (k.hashInput = l.hashInput ↔ k.Recut l ∨ l.Recut k) ∧
    (¬MessageKey.MayCut text → ¬MessageKey.MayCut text' → k.hashInput ≠ l.hashInput) ∧
    (k.Collides l ↔ (k.Recut l ∨ l.Recut k) ∨
      MessageKey.DigestsMeet k.hashInput l.hashInput) ∧
    ∀ (calls : List IdCall) (length : Nat),
      let t := runIdCalls calls
      t.id? k = none → t.id? l = none → t.owner? (k.firstId length) = none →
      t.owner? (l.firstId length) = none →
      (OrderFree calls k l length ↔ k.firstId length ≠ l.firstId length) := by
  intro k l
  have hinput : k.hashInput = l.hashInput ↔ k.Recut l ∨ l.Recut k :=
    MessageKey.hashInput_eq_iff hne
  refine ⟨hinput, fun htext htext' heq => ?_, ?_, fun calls length => orderFree_iff hne⟩
  · rcases hinput.mp heq with h | h
    · exact htext' h.mayCut
    · exact htext h.mayCut
  · rw [MessageKey.collides_iff_or, hinput]

/-- The contexts may contain the separator. -/
theorem collides_iff_recut_menu :
    let k := MessageKey.of "File: Open" (some "menu::main")
    let l := MessageKey.of "File: Open" none
    k.hashInput ≠ l.hashInput ∧ OrderFree [] k l 4 := by
  intro k l
  have hne : k ≠ l := by decide
  have htext : ¬MessageKey.MayCut "File: Open" := by decide
  have hfree : ∀ id, (runIdCalls []).owner? id = none := fun _ => rfl
  have hcandidates : k.firstId 4 ≠ l.firstId 4 := by decide +kernel
  obtain ⟨-, happart, -, horder⟩ := collides_iff_recut hne
  exact ⟨happart htext htext, (horder [] 4 rfl rfl (hfree _) (hfree _)).mpr hcandidates⟩

/-- A text that contains the separator, and its two parts as a text and a context: whatever length
is asked for, their ids depend on which of them comes first. -/
theorem hashInput_separatorInText :
    let k := MessageKey.of "File::Open" none
    let l := MessageKey.of "File" (some "Open")
    k ≠ l ∧ k.hashInput = l.hashInput ∧ ∀ length, ¬OrderFree [] k l length := by
  intro k l
  have hne : k ≠ l := by decide
  have hinput : k.hashInput = l.hashInput := by decide
  have hfree : ∀ id, (runIdCalls []).owner? id = none := fun _ => rfl
  refine ⟨hne, hinput, fun length horder => ?_⟩
  have hcandidates := (orderFree_iff hne rfl rfl (hfree _) (hfree _)).mp horder
  exact hcandidates (by rw [MessageKey.firstId_eq, MessageKey.firstId_eq, hinput])

end Phrasebook
