import Phrasebook.Proofs.Recording
import Mathlib.Data.List.Range

/-!
# Candidates for an id

`MessageKey.candidate` is the chain of hashes that a pair goes through: each next one is the hash of
the text with the one before, two digits longer up to the largest length. A search finds the first
one of a beginning of this chain that is free (`IdTable.search_candidate`), and `triesLeft` is how
far it gets. So a new pair is given the first of these candidates that no other pair owns, and none
if all have other owners (`assign_runIdCalls`).
-/

namespace Phrasebook

/-! ### The chain of candidates -/

namespace MessageKey

/-- The length of the candidate number `i` when ids of `length` digits are asked for. -/
def candidateLength (length i : Nat) : Nat := min (length + 2 * i) maxIdLength

def candidate (key : MessageKey) (length : Nat) : Nat → String
  | 0 => Digest.truncated key.hashInput (candidateLength length 0)
  | i + 1 =>
    Digest.truncated (key.text ++ ":" ++ candidate key length i) (candidateLength length (i + 1))

/-- The id that a pair is given unless another one owns it. -/
def firstId (key : MessageKey) (length : Nat) : String := key.candidate (clampIdLength length) 0

theorem candidateLength_zero {length : Nat} (h : length ≤ maxIdLength) :
    candidateLength length 0 = length :=
  Nat.min_eq_left h

theorem candidateLength_succ (length i : Nat) :
    candidateLength length (i + 1) = min (candidateLength length i + 2) maxIdLength := by
  simp only [candidateLength]
  omega

theorem candidateLength_le (length i : Nat) : candidateLength length i ≤ maxIdLength :=
  Nat.min_le_right _ _

theorem rehash_candidate (key : MessageKey) (length i : Nat) :
    key.rehash (key.candidate length i) (candidateLength length (i + 1)) =
      key.candidate length (i + 1) :=
  rfl

end MessageKey

namespace IdTable

open MessageKey (candidateLength candidateLength_zero candidateLength_succ candidateLength_le)

/-- How many ids are tried from one with `length` digits on, when a pair was hashed again `retries`
times at the largest length. -/
def triesLeft (length retries : Nat) : Nat :=
  (maxIdLength - length + 1) / 2 + (retriesAtMaxLength - retries) + 1

theorem triesLeft_of_lt {length : Nat} (h : length < maxIdLength) (retries : Nat) :
    triesLeft length retries = triesLeft (min (length + 2) maxIdLength) retries + 1 := by
  simp only [triesLeft]
  omega

theorem triesLeft_of_retry {retries : Nat} (h : retries < retriesAtMaxLength) :
    triesLeft maxIdLength retries = triesLeft maxIdLength (retries + 1) + 1 := by
  simp only [triesLeft]
  omega

theorem triesLeft_of_le {retries : Nat} (h : retriesAtMaxLength ≤ retries) :
    triesLeft maxIdLength retries = 1 := by
  simp only [triesLeft]
  omega

section Search

variable {t : IdTable} {key : MessageKey}

/-- The number of the first free candidate of `n`, from the candidate number `i` on. -/
def firstFree? (t : IdTable) (key : MessageKey) (length i n : Nat) : Option Nat :=
  (List.range' i n).find? fun j => t.isFreeFor key (key.candidate length j)

theorem firstFree?_of_free {length i n : Nat}
    (h : t.isFreeFor key (key.candidate length i) = true) :
    t.firstFree? key length i (n + 1) = some i := by
  rw [firstFree?, List.range'_succ]
  exact List.find?_cons_of_pos h

theorem firstFree?_of_not_free {length i n : Nat}
    (h : ¬ t.isFreeFor key (key.candidate length i) = true) :
    t.firstFree? key length i (n + 1) = t.firstFree? key length (i + 1) n := by
  rw [firstFree?, List.range'_succ]
  exact List.find?_cons_of_neg h

/-- A search at a candidate goes on along the chain. -/
theorem search_candidate (t : IdTable) (key : MessageKey) (length i retries : Nat) :
    t.search key (candidateLength length i) retries (key.candidate length i) =
      (t.firstFree? key length i (triesLeft (candidateLength length i) retries)).map
        (key.candidate length) := by
  -- the measure of the search goes down with each candidate
  induction hn : triesLeft (candidateLength length i) retries generalizing i retries with
  | zero => simp [triesLeft] at hn
  | succ n ih =>
    unfold search
    by_cases hfree : t.isFreeFor key (key.candidate length i) = true
    · rw [if_pos hfree, firstFree?_of_free hfree]
      rfl
    rw [if_neg hfree, firstFree?_of_not_free hfree]
    by_cases hlt : candidateLength length i < maxIdLength
    · rw [triesLeft_of_lt hlt, ← candidateLength_succ] at hn
      simp only [if_pos hlt, ← candidateLength_succ, MessageKey.rehash_candidate]
      exact ih (i + 1) retries (Nat.succ.inj hn)
    · have hmax : candidateLength length i = maxIdLength :=
        Nat.le_antisymm (candidateLength_le length i) (Nat.not_lt.mp hlt)
      have hnext : candidateLength length (i + 1) = maxIdLength := by
        rw [candidateLength_succ, hmax]
        rfl
      rw [if_neg hlt]
      by_cases hretries : retries < retriesAtMaxLength
      · rw [hmax, triesLeft_of_retry hretries, ← hnext] at hn
        rw [if_pos hretries, ← hnext, MessageKey.rehash_candidate]
        exact ih (i + 1) (retries + 1) (Nat.succ.inj hn)
      · rw [hmax, triesLeft_of_le (Nat.not_lt.mp hretries)] at hn
        obtain rfl : n = 0 := by omega
        rw [if_neg hretries]
        rfl

end Search

/-! ### Assigning to a new pair -/

section Assign

variable {t : IdTable} {key : MessageKey} {id : String}

/-- Another pair owns the id. -/
def IsTakenFrom (t : IdTable) (key : MessageKey) (id : String) : Prop :=
  ∃ owner, t.owner? id = some owner ∧ owner ≠ key

theorem isTakenFrom_iff : t.IsTakenFrom key id ↔ ¬ t.isFreeFor key id = true := by
  simp [IsTakenFrom, isFreeFor_iff]

/-- One entry more in both directions: the id, which nobody owned, belongs to the pair. -/
structure Adds (t : IdTable) (id : String) (key : MessageKey) (t' : IdTable) : Prop where
  unowned : t.owner? id = none
  owner? : ∀ id', t'.owner? id' = if id' = id then some key else t.owner? id'
  id? : ∀ key', t'.id? key' = if key' = key then some id else t.id? key'

theorem adds_append (hid : t.owner? id = none) (hkey : t.id? key = none) :
    t.Adds id key ⟨t.entries ++ [(id, key)]⟩ where
  unowned := hid
  owner? id' := by
    by_cases h : id' = id
    · subst h
      have hnone := Option.map_eq_none_iff.mp hid
      simp [IdTable.owner?, List.find?_append, hnone]
    · simp [IdTable.owner?, List.find?_append, h, Ne.symm h]
  id? key' := by
    by_cases h : key' = key
    · subst h
      have hnone := Option.map_eq_none_iff.mp hkey
      simp [IdTable.id?, List.find?_append, hnone]
    · simp [IdTable.id?, List.find?_append, h, Ne.symm h]

/-- A new pair is given the first free candidate, if there is one. -/
theorem assign_of_new (h : t.id? key = none) {length n : Nat} (hn : clampIdLength length = n) :
    t.assign key length = (t.firstFree? key n 0 (triesLeft n 0)).map fun i =>
      (key.candidate n i, ⟨t.entries ++ [(key.candidate n i, key)]⟩) := by
  have hfirst : candidateLength n 0 = n :=
    candidateLength_zero (hn ▸ (clampIdLength_bounds length).2)
  have hsearch := search_candidate t key n 0 0
  rw [MessageKey.candidate, hfirst] at hsearch
  simp only [assign, h, hn]
  rw [hsearch, Option.map_map]
  rfl

/-- A new pair is given its first candidate if that is free. -/
theorem assign_of_free (h : t.id? key = none) {length : Nat}
    (hfree : t.isFreeFor key (key.firstId length) = true) :
    t.assign key length =
      some (key.firstId length, ⟨t.entries ++ [(key.firstId length, key)]⟩) := by
  rw [assign_of_new h rfl, triesLeft, firstFree?_of_free hfree]
  rfl

end Assign

end IdTable

/-! ### Runs -/

/-- A call on a table of ids. -/
inductive IdCall where
  | assign (key : MessageKey) (length : Nat)
  | clear

namespace IdCall

/-- The table behind a call; one that fails leaves it as it is. -/
def run (t : IdTable) : IdCall → IdTable
  | assign key length =>
    match t.assign key length with
    | some (_, t') => t'
    | none => t
  | clear => {}

theorem consistent_run {t : IdTable} (h : t.Consistent) (call : IdCall) :
    (call.run t).Consistent := by
  cases call with
  | assign key length =>
    simp only [run]
    split
    · exact IdTable.assign_consistent h ‹_›
    · exact h
  | clear => exact IdTable.consistent_empty

end IdCall

def runIdCalls (calls : List IdCall) : IdTable := calls.foldl IdCall.run {}

theorem consistent_runIdCalls (calls : List IdCall) : (runIdCalls calls).Consistent := by
  induction calls using List.reverseRecOn with
  | nil => exact IdTable.consistent_empty
  | append_singleton calls call ih =>
    rw [runIdCalls, List.foldl_append]
    exact IdCall.consistent_run ih call

/-- A pair without an id is given the first candidate that no other pair owns, among as many as the
length leaves. If others own all of these it is given none, and recording its text is an error; the
table stays as it is. -/
theorem assign_runIdCalls (calls : List IdCall) {key : MessageKey}
    (hnew : (runIdCalls calls).id? key = none) (length : Nat) :
    let t := runIdCalls calls
    let n := clampIdLength length
    let count := (40 - n + 1) / 2 + 17
    (∀ i < count, (∀ j < i, t.IsTakenFrom key (key.candidate n j)) →
      ¬ t.IsTakenFrom key (key.candidate n i) →
      ∃ t', t.assign key length = some (key.candidate n i, t') ∧
        t.Adds (key.candidate n i) key t') ∧
    (t.assign key length = none ↔ ∀ i < count, t.IsTakenFrom key (key.candidate n i)) ∧
    (t.assign key length = none → (IdCall.assign key length).run t = t ∧
      ∀ (s : Store) (filename : String) (c : Candidate), s.ids = t →
        MessageKey.of c.text c.context = key →
        (record filename length c s).1 = .error ⟨key.text⟩ ∧
          (record filename length c s).2.ids = t) := by
  intro t n count
  have hassign : t.assign key length = (t.firstFree? key n 0 count).map _ :=
    IdTable.assign_of_new hnew rfl
  refine ⟨fun i hi hbefore hfree => ?_, ?_, fun hnone => ⟨?_, fun s filename c hs hc => ?_⟩⟩
  · have hfirst : t.firstFree? key n 0 count = some i := by
      rw [IdTable.firstFree?, List.find?_range'_eq_some]
      refine ⟨by simpa [IdTable.isTakenFrom_iff] using hfree, by simpa using hi, fun j _ hj => ?_⟩
      simpa [IdTable.isTakenFrom_iff] using hbefore j hj
    rw [hfirst] at hassign
    -- a number that is given to a new pair is given for an id that nobody owns
    have hunowned : t.owner? (key.candidate n i) = none := by
      obtain ⟨hknown, -⟩ | ⟨-, hunowned, -⟩ :=
        IdTable.assign_cases (consistent_runIdCalls calls) hassign
      · rw [hnew] at hknown
        cases hknown
      · exact hunowned
    exact ⟨_, hassign, IdTable.adds_append hunowned hnew⟩
  · rw [hassign, Option.map_eq_none_iff, IdTable.firstFree?, List.find?_range'_eq_none]
    simp [IdTable.isTakenFrom_iff]
  · simp only [IdCall.run, hnone]
  · have hrecord : record filename length c s = (.error ⟨c.text⟩, s.intern c.text) := by
      simp [record, Store.assignId, Store.intern, hs, hc, hnone]
    rw [hrecord, ← hc]
    exact ⟨rfl, hs⟩

/-- Two texts whose hashes begin with the same four digits. -/
theorem assign_runIdCalls_collision :
    let t := runIdCalls [.assign ⟨"message 72", none⟩ 4]
    let key : MessageKey := ⟨"message 169", none⟩
    t.IsTakenFrom key (key.candidate 4 0) ∧
      ∃ t', t.assign key 4 = some ("cedc09", t') ∧ t.Adds "cedc09" key t' := by
  intro t key
  have hnew : t.id? key = none := by decide +kernel
  have htaken : t.IsTakenFrom key (key.candidate 4 0) :=
    ⟨⟨"message 72", none⟩, by decide +kernel, by decide⟩
  have hfree : ¬ t.IsTakenFrom key (key.candidate 4 1) := by
    rw [IdTable.isTakenFrom_iff, not_not]
    decide +kernel
  have hid : key.candidate 4 1 = "cedc09" := by decide +kernel
  obtain ⟨t', hassign, hadds⟩ := (assign_runIdCalls _ hnew 4).1 1 (by decide)
    (fun j hj => by rwa [Nat.lt_one_iff.mp hj]) hfree
  exact ⟨htaken, t', hid ▸ hassign, hid ▸ hadds⟩

end Phrasebook
