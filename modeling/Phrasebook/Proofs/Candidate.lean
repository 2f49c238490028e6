import Phrasebook.Proofs.MessageFunction
import Phrasebook.Proofs.Script.Marks

/-!
# Message functions are sites

What a message function returns is a site of its tree. Functions that are found in different
places return different sites: there are not more message functions at a site than the tree has
marks for it.
-/

namespace Phrasebook

open Script (Lead Mark Node Site foldText markOf marks marksOf marks_mk marksOf_cons marksOf_nil
  ownMarks)

/-- What the text of a message function stands behind. -/
def Shape.lead : Shape → Lead
  | .arrowExpression => .arrow
  | _ => .returnWord

theorem Shape.lead_eq_arrow_iff (shape : Shape) : shape.lead = .arrow ↔
    shape = .arrowExpression := by
  cases shape <;> decide

def Candidate.site (c : Candidate) : Site := ⟨c.shape.lead, c.start, c.stop, c.text⟩

def MessageFunction.site (f : MessageFunction) : Site :=
  ⟨f.shape.lead, f.result.lo, f.result.hi, f.text⟩

namespace Collect

/-! ### The marks of message functions -/

/-- The mark of what a property returns if it is a message function. -/
def propertyMarks (p : Node) : List Mark :=
  match functionProperty? p with
  | some f => markOf f.returning.shape.lead f.returning.result
  | none => []

/-- The places of the properties of an object literal and what they return. -/
def objectMarks (object : Node) : List Mark :=
  ownMarks .object object.parts ++ object.parts.flatMap propertyMarks

/-- The marks of all message functions in a node. -/
def foundIn (n : Node) : List Mark := (objects n).flatMap objectMarks

def foundInAll (ns : List Node) : List Mark := (objectsOf ns).flatMap objectMarks

theorem foundInAll_nil : foundInAll [] = [] := by
  rw [foundInAll, objectsOf]
  rfl

theorem foundInAll_cons (n : Node) (ns : List Node) :
    foundInAll (n :: ns) = foundIn n ++ foundInAll ns := by
  rw [foundInAll, objectsOf, List.flatMap_append]
  rfl

theorem foundIn_mk (form : Script.Form) (lo hi : Nat) (parts : List Node) (h : form ≠ .object) :
    foundIn (.mk form lo hi parts) = foundInAll parts := by
  rw [foundIn, objects, if_neg h]
  rfl

theorem foundIn_object (lo hi : Nat) (parts : List Node) :
    foundIn (.mk .object lo hi parts) =
      ownMarks .object parts ++ (parts.flatMap propertyMarks ++ foundInAll parts) := by
  rw [foundIn, objects, if_pos rfl, List.flatMap_cons, objectMarks, List.append_assoc]
  rfl

/-- The marks that are found in a node are marks of it. -/
def Covered (n : Node) : Prop := ∀ m, (foundIn n).count m ≤ (marks n).count m

theorem sizeOf_lt_of_mem_parts {form : Script.Form} {lo hi : Nat} {n : Node} {parts : List Node}
    (h : n ∈ parts) : sizeOf n < sizeOf (Node.mk form lo hi parts) := by
  have := List.sizeOf_lt_of_mem h
  simp
  omega

theorem count_foundInAll {ns : List Node} (h : ∀ n ∈ ns, Covered n) (m : Mark) :
    (foundInAll ns).count m ≤ (marksOf ns).count m := by
  induction ns with
  | nil => simp [foundInAll_nil]
  | cons n ns ih =>
    obtain ⟨hn, hns⟩ := List.forall_mem_cons.mp h
    have := hn m
    have := ih hns
    simp only [foundInAll_cons, marksOf_cons, List.count_append]
    omega

/-- A function returns what its body is or returns, and its other parts are searched besides. -/
theorem count_returns {kind shape : Shape} (hkind : kind.lead = .returnWord) {f e : Node}
    (h : Returns kind f shape e) (hf : ∀ n, sizeOf n < sizeOf f → Covered n) (m : Mark) :
    (markOf shape.lead e).count m + (foundIn f).count m ≤ (marks f).count m := by
  have htypes (types : List Node) (hle : ∀ n ∈ types, sizeOf n < sizeOf f) :
      (foundInAll types).count m ≤ (marksOf types).count m :=
    count_foundInAll (fun n hn => hf n (hle n hn)) m
  cases h with
  | @arrowExpression _ _ ps e types _ =>
    have hps := hf ps (by simp; omega) m
    have he := hf e (by simp; omega) m
    have htypes := htypes types fun n hn => sizeOf_lt_of_mem_parts (by simp [hn])
    simp [foundIn_mk, foundInAll_cons, ownMarks, Shape.lead]
    omega
  | @arrowBlock _ _ _ _ _ _ ps e types =>
    have hps := hf ps (by simp; omega) m
    have he := hf e (by simp; omega) m
    have htypes := htypes types fun n hn => sizeOf_lt_of_mem_parts (by simp [hn])
    simp [foundIn_mk, foundInAll_cons, foundInAll_nil, ownMarks, Shape.lead]
    omega
  | @function _ _ _ _ _ _ ps e types =>
    have hps := hf ps (by simp; omega) m
    have he := hf e (by simp; omega) m
    have htypes := htypes types fun n hn => sizeOf_lt_of_mem_parts (by simp [hn])
    simp [foundIn_mk, foundInAll_cons, foundInAll_nil, ownMarks, hkind]
    omega

/-- A property that holds a function adds nothing to it and its key. -/
theorem count_holds {p key f : Node} {kind : Shape} (h : Holds p kind key f) (m : Mark) :
    kind.lead = .returnWord ∧ (foundIn p).count m = (foundIn key).count m + (foundIn f).count m ∧
      (marks p).count m = (marks key).count m + (marks f).count m := by
  cases h <;>
    simp [Shape.lead, foundIn_mk, foundInAll_cons, foundInAll_nil, ownMarks]

theorem count_property {p : Node} (hp : ∀ n, sizeOf n ≤ sizeOf p → Covered n) (m : Mark) :
    (propertyMarks p).count m + (foundIn p).count m ≤ (marks p).count m := by
  unfold propertyMarks
  split
  · rename_i found hfound
    obtain ⟨kind, hheld, hreturning⟩ := exists_holds_of_functionProperty? hfound
    have hsizes : sizeOf found.key < sizeOf p ∧ sizeOf found.function < sizeOf p := by
      obtain ⟨key, f, rf⟩ := found
      cases hheld <;> simp <;> omega
    obtain ⟨hkind, hfoundIn, hmarks⟩ := count_holds hheld m
    have hkey := hp found.key hsizes.1.le m
    have hfunction := count_returns hkind (returns_of_returning? hreturning)
      (fun n hn => hp n (hn.trans hsizes.2).le) m
    omega
  · have := hp p (Nat.le_refl _) m
    simpa using this

theorem count_properties {ps : List Node} (h : ∀ p ∈ ps, ∀ n, sizeOf n ≤ sizeOf p → Covered n)
    (m : Mark) :
    (ps.flatMap propertyMarks).count m + (foundInAll ps).count m ≤ (marksOf ps).count m := by
  induction ps with
  | nil => simp [foundInAll_nil]
  | cons p ps ih =>
    obtain ⟨hp, hps⟩ := List.forall_mem_cons.mp h
    have := count_property hp m
    have := ih hps
    simp only [List.flatMap_cons, foundInAll_cons, marksOf_cons, List.count_append]
    omega

theorem covered (n : Node) : Covered n := by
  induction hsize : sizeOf n using Nat.strongRecOn generalizing n with
  | ind size ih =>
    obtain ⟨form, lo, hi, parts⟩ := n
    -- the result of a function stands inside one of its parts, so parts of parts are needed as well
    have hparts : ∀ p ∈ parts, ∀ n, sizeOf n ≤ sizeOf p → Covered n := by
      intro p hp n hn
      have := List.sizeOf_lt_of_mem hp
      refine ih _ ?_ n rfl
      rw [← hsize]
      simp
      omega
    intro m
    by_cases hform : form = .object
    · subst hform
      rw [foundIn_object, marks_mk, List.count_append, List.count_append, List.count_append]
      exact Nat.add_le_add_left (count_properties hparts m) _
    · rw [foundIn_mk _ _ _ _ hform, marks_mk, List.count_append]
      have := count_foundInAll (fun p hp => hparts p hp p (Nat.le_refl _)) m
      omega

/-! ### What is found -/

/-- The site of a message function is the mark of its property. -/
theorem propertyMarks_of_messageFunction? {m : Script.Module} {source : List Char} {brace : Nat}
    {previousEnd : Option Nat} {p : Node} {f : MessageFunction}
    (h : messageFunction? m source brace previousEnd p = some f) :
    propertyMarks p = [.site f.site] := by
  simp only [messageFunction?, Option.bind_eq_bind, Option.bind_eq_some_iff] at h
  obtain ⟨q, hq, text, htext, h⟩ := h
  cases h
  simp only [propertyMarks, hq, markOf, htext]
  rfl

theorem count_messageFunctionsIn (md : Script.Module) (source : List Char) (path : List Nat)
    (object : Node) (m : Mark) :
    ((messageFunctionsIn md source path object).map fun a => Mark.site a.2.site).count m ≤
      (objectMarks object).count m := by
  rw [objectMarks, List.count_append]
  refine Nat.le_trans ?_ (Nat.le_add_left _ _)
  unfold messageFunctionsIn
  -- the walk carries the end of the property before and the number of this one
  generalize object.lo = brace
  generalize (none : Option Nat) = previousEnd
  generalize 0 = k
  induction object.parts generalizing previousEnd k with
  | nil => exact Nat.le_refl _
  | cons p ps ih =>
    have hps := ih (some p.hi) (k + 1)
    rw [withPrevious, List.zipIdx_cons, List.flatMap_cons, List.count_append]
    cases hf : messageFunction? md source brace previousEnd p with
    | none =>
      rw [List.filterMap_cons_none (by simp only [hf, Option.map_none])]
      exact Nat.le_trans hps (Nat.le_add_left _ _)
    | some f =>
      rw [List.filterMap_cons_some (b := (path ++ [k], f)) (by simp only [hf, Option.map_some]),
        propertyMarks_of_messageFunction? hf, List.map_cons, List.count_cons, List.count_cons,
        List.count_nil, Nat.zero_add, Nat.add_comm]
      exact Nat.add_le_add_left hps _

theorem count_messageFunctions (md : Script.Module) (source : List Char) (m : Mark) :
    ((messageFunctions md source).map fun a => Mark.site a.2.site).count m ≤
      (marksOf md.items).count m := by
  have hitems : ∀ n ∈ md.items, Covered n := fun n _ => covered n
  refine Nat.le_trans ?_ (count_foundInAll hitems m)
  unfold messageFunctions foundInAll
  rw [← map_snd_locatedOf 0, List.flatMap_map]
  induction locatedOf 0 md.items with
  | nil => exact Nat.le_refl _
  | cons a as ih =>
    have := count_messageFunctionsIn md source a.1 a.2 m
    rw [List.flatMap_cons, List.flatMap_cons, List.count_append, List.map_append,
      List.count_append]
    exact Nat.add_le_add this ih

end Collect

theorem MessageFunction.Yields.site_eq {f : MessageFunction} {c : Candidate} (h : f.Yields c) :
    c.site = f.site := by
  rw [Candidate.site, MessageFunction.site, h.shape, h.start, h.stop, h.text]

theorem map_site_of_forall₂ {as : List (List Nat × MessageFunction)} {cs : List Candidate}
    (h : List.Forall₂ (fun a c => a.2.Yields c) as cs) :
    cs.map Candidate.site = as.map fun a => a.2.site := by
  induction h with
  | nil => rfl
  | cons h hrest ih => rw [List.map_cons, List.map_cons, h.site_eq, ih]

/-- The sites of candidates are sites of message functions. -/
theorem sublist_site_candidates (md : Script.Module) (source : List Char) :
    ((collect md source).candidates.map Candidate.site).Sublist
      ((Collect.messageFunctions md source).map fun a => a.2.site) := by
  rw [map_site_of_forall₂ (Collect.forall₂_candidates md source).1]
  exact List.filter_sublist.map _

end Phrasebook
