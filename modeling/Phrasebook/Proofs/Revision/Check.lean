import Phrasebook.Proofs.Revision.Tree

/-!
# Checking what a tree has become

Whether a tree has become another one by a revision can be computed. The checks are sound: what
passes them is so related (`reads_of_check`).
-/

namespace Phrasebook

open Collect (functionProperty?)
open Script (Form Module Node foldText)
open Splice (insertedAt outputFrom)

namespace Revision

variable (r : Revision)

def movesCheck (place place' : Nat) : Bool :=
  (insertedAt r.edits place).isEmpty &&
    match Text.takeBytes? place r.source with
    | some before => Text.byteLength (outputFrom r.edits 0 before) == place'
    | none => false

def placeCheck (p p' : Node) : Bool :=
  r.movesCheck p.hi p'.hi &&
    match functionProperty? p, functionProperty? p' with
    | some q, some q' =>
      r.movesCheck q.function.lo q'.function.lo
        && r.new.leadingAt (min q'.key.lo q'.function.lo)
          == r.old.leadingAt (min q.key.lo q.function.lo)
        && r.new.leadingAt q'.function.lo == r.old.leadingAt q.function.lo
    | _, _ => true

def placesCheck : List Node → List Node → Bool
  | [], [] => true
  | p :: ps, p' :: ps' => r.placeCheck p p' && placesCheck ps ps'
  | _, _ => false

/-- A text has given way to a call. -/
def callCheck (e e' : Node) : Bool :=
  (foldText e).isSome && functionFree e
    && (e'.form == .call || e'.form == .template none) && functionFree e'

/-- What is returned at the root of a tree, if anything, stays. -/
def keptCheck (n : Node) : Bool := n.returned?.all fun e => (e.lo, e.hi) ∉ r.calls

mutual

def becomesCheck : Node → Node → Bool
  | .mk form lo hi parts, .mk form' lo' _ parts' =>
    (form' == form && becomesAllCheck parts parts' &&
      if form = .object then r.movesCheck (lo + 1) (lo' + 1) && r.placesCheck parts parts'
      else r.keptCheck (.mk form lo hi parts)) ||
    match form, parts, parts' with
    | .returnStatement, [e], [e'] =>
      decide ((e.lo, e.hi) ∈ r.calls) && callCheck e e'
        && (form' == .returnStatement || form' == .expressionStatement)
    | .arrow flow, ps :: e :: types, ps' :: e' :: types' =>
      decide ((e.lo, e.hi) ∈ r.calls) && callCheck e e' && form' == .arrow flow
        && becomesCheck ps ps' && becomesAllCheck types types'
    | _, _, _ => false

def becomesAllCheck : List Node → List Node → Bool
  | [], [] => true
  | n :: ns, n' :: ns' => becomesCheck n n' && becomesAllCheck ns ns'
  | _, _ => false

end

/-- The new items are what the first `k` old ones have become, with the item number `i` added. -/
def readsCheck (k i : Nat) : Bool :=
  r.new.items[i]?.any functionFree &&
    r.becomesAllCheck (r.old.items.take k) (r.new.items.take i ++ r.new.items.drop (i + 1))

/-! ### The checks are sound -/

variable {r}

theorem moves_of_check {place place' : Nat} (h : r.movesCheck place place' = true) :
    Moves r.edits r.source place place' := by
  unfold movesCheck at h
  rw [Bool.and_eq_true, List.isEmpty_iff] at h
  cases htake : Text.takeBytes? place r.source with
  | none => simp [htake] at h
  | some before =>
    obtain ⟨after, hsource, hbefore⟩ := Text.exists_of_takeBytes? htake
    refine ⟨h.1, before, ⟨after, hsource.symm⟩, hbefore, ?_⟩
    simpa [htake] using h.2

theorem keepsPlace_of_check {p p' : Node} (h : r.placeCheck p p' = true) : r.KeepsPlace p p' := by
  unfold placeCheck at h
  rw [Bool.and_eq_true] at h
  refine ⟨moves_of_check h.1, fun q q' hq hq' => ?_⟩
  have hfunction := h.2
  rw [hq, hq'] at hfunction
  simp only [Bool.and_eq_true, beq_iff_eq] at hfunction
  exact ⟨moves_of_check hfunction.1.1, hfunction.1.2, hfunction.2⟩

theorem keepsPlaces_of_check {ps ps' : List Node} (h : r.placesCheck ps ps' = true) :
    List.Forall₂ r.KeepsPlace ps ps' := by
  induction ps generalizing ps' with
  | nil =>
    cases ps' with
    | nil => exact .nil
    | cons => cases h
  | cons p ps ih =>
    cases ps' with
    | nil => cases h
    | cons p' ps' =>
      rw [placesCheck, Bool.and_eq_true] at h
      exact .cons (keepsPlace_of_check h.1) (ih h.2)

theorem call_of_check {e e' : Node} (h : callCheck e e' = true) : e.IsText ∧ e'.IsCall := by
  simp only [callCheck, Bool.and_eq_true, Bool.or_eq_true, beq_iff_eq] at h
  exact ⟨⟨h.1.1.1, h.1.1.2⟩, ⟨h.1.2, h.2⟩⟩

mutual

theorem becomes_of_check : (n : Node) → {n' : Node} → r.becomesCheck n n' = true → r.Becomes n n'
  | .mk form lo hi parts, .mk form' lo' hi' parts', h => by
    unfold becomesCheck at h
    rw [Bool.or_eq_true] at h
    rcases h with h | h
    · simp only [Bool.and_eq_true, beq_iff_eq] at h
      obtain ⟨⟨rfl, hparts⟩, h⟩ := h
      have hparts := becomesAll_of_check parts hparts
      split at h
      · rename_i hform
        subst hform
        rw [Bool.and_eq_true] at h
        exact .object (moves_of_check h.1) (keepsPlaces_of_check h.2) hparts
      · rename_i hform
        refine .other hform (fun e he => ?_) hparts
        rw [keptCheck, Option.mem_def.mp he] at h
        simpa using h
    · split at h
      · rename_i e e'
        simp only [Bool.and_eq_true, Bool.or_eq_true, beq_iff_eq, decide_eq_true_eq] at h
        obtain ⟨⟨hcalls, hcall⟩, hform⟩ := h
        exact .returned hcalls (call_of_check hcall).1 (call_of_check hcall).2 hform
      · rename_i flow ps e types ps' e' types'
        simp only [Bool.and_eq_true, beq_iff_eq, decide_eq_true_eq] at h
        obtain ⟨⟨⟨⟨hcalls, hcall⟩, rfl⟩, hps⟩, htypes⟩ := h
        exact .arrow hcalls (call_of_check hcall).1 (call_of_check hcall).2
          (becomes_of_check ps hps) (becomesAll_of_check types htypes)
      · cases h

theorem becomesAll_of_check : (ns : List Node) → {ns' : List Node} →
    r.becomesAllCheck ns ns' = true → r.BecomesAll ns ns'
  | [], [], _ => .nil
  | n :: ns, n' :: ns', h => by
    rw [becomesAllCheck, Bool.and_eq_true] at h
    exact .cons (becomes_of_check n h.1) (becomesAll_of_check ns h.2)

end

theorem reads_of_check {k i : Nat} (h : r.readsCheck k i = true) : r.Reads k := by
  rw [readsCheck, Bool.and_eq_true] at h
  obtain ⟨added, hadded, hfree⟩ := (Option.any_eq_true ..).mp h.1
  refine ⟨_, becomesAll_of_check _ h.2, .inr ⟨_, _, added, rfl, ?_, hfree⟩⟩
  obtain ⟨hi, rfl⟩ := List.getElem?_eq_some_iff.mp hadded
  rw [List.getElem_cons_drop, List.take_append_drop]

end Revision

end Phrasebook
