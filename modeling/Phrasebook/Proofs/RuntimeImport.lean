import Phrasebook.Proofs.Exempt
import Phrasebook.Proofs.Splice.Insertion

/-!
# The import of the runtime

The runtime is imported in front of the first item that is no directive, in a line of its own,
unless the module binds its name to an imported value. What a file needs of this is known from its
items alone, and it suits all candidates: they stand in items that are no directives.
-/

namespace Phrasebook

open Collect (messageFunctions)
open Script (Form ItemRow Module Node)
open Splice (IsBoundary splitBytes)
open Text (byteLength)

/-! ### Imported values -/

/-- An import of a module, not of its types only, binds the name to something that is no type. -/
def ImportsValue (items : List Node) (name : String) : Prop :=
  ∃ lo hi parts, .mk (.importItem false) lo hi parts ∈ items ∧
    ∃ part ∈ parts, part.form = .importBinding false name

theorem bindsValue_iff {name : String} {item : Node} : bindsValue name item = true ↔
    ∃ lo hi parts, item = .mk (.importItem false) lo hi parts ∧
      ∃ part ∈ parts, part.form = .importBinding false name := by
  unfold bindsValue
  split
  · simp
  · rename_i hform
    simp only [Bool.false_eq_true, false_iff, not_exists, not_and]
    rintro lo hi parts rfl
    exact absurd rfl (hform lo hi parts)

theorem any_bindsValue_iff {name : String} {items : List Node} :
    items.any (bindsValue name) = true ↔ ImportsValue items name := by
  simp only [List.any_eq_true, bindsValue_iff, ImportsValue]
  constructor
  · rintro ⟨_, hmem, lo, hi, parts, rfl, hpart⟩
    exact ⟨lo, hi, parts, hmem, hpart⟩
  · rintro ⟨lo, hi, parts, hmem, hpart⟩
    exact ⟨_, hmem, lo, hi, parts, rfl, hpart⟩

/-! ### The place of the import -/

section

variable {source filename : String} {m : Module} {o : Options}

theorem exists_of_importPlace {items : List Node} {n : Nat} (h : importPlace items = .before n)
    (hne : items ≠ []) : ∃ ds item rest, items = ds ++ item :: rest ∧
      (∀ d ∈ ds, isDirective d = true) ∧ isDirective item = false ∧ item.lo = n := by
  unfold importPlace at h
  cases hfind : items.find? (!isDirective ·) with
  | none =>
    obtain ⟨last, hlast⟩ := Option.isSome_iff_exists.mp (List.getLast?_isSome.mpr hne)
    rw [hfind, hlast] at h
    cases h
  | some item =>
    obtain ⟨hitem, ds, rest, hitems, hds⟩ := List.find?_eq_some_iff_append.mp hfind
    rw [hfind] at h
    exact ⟨ds, item, rest, hitems, fun d hd => by simpa using hds d hd, by simpa using hitem,
      ImportPlace.before.inj h⟩

/-- A candidate is what a message function returns, behind the place of the import. -/
theorem importPlace_of_mem (h : readModule source filename = some m) {c : Candidate}
    (hc : c ∈ (prepare source filename o).candidates) :
    m.items ≠ [] ∧ ∃ n, importPlace m.items = .before n ∧ n ≤ c.start ∧ c.start < c.stop := by
  have hrange : c.range ∈ (messageFunctions m source.toList).map fun a => a.2.range :=
    (perm_ranges h o).subset (List.mem_append_left _ (List.mem_map_of_mem hc))
  obtain ⟨a, ha, heq⟩ := List.mem_map.mp hrange
  obtain ⟨hlt, -, -, hle⟩ := range_of_mem h ha
  obtain ⟨-, _, _, _, -, -, himport⟩ := exists_row_of_readModule h
  obtain ⟨n, hn, -⟩ := himport (List.ne_nil_of_mem ha)
  rw [heq] at hlt hle
  rw [hn] at hle
  refine ⟨fun hnil => ?_, n, hn, hle, hlt⟩
  have hcount := Collect.count_messageFunctions m source.toList (.site a.2.site)
  rw [hnil, Script.marksOf_nil, List.count_nil, Nat.le_zero, List.count_eq_zero] at hcount
  exact hcount (List.mem_map_of_mem ha)

theorem hi_le_of_isDirective {text : List Char} {a b : Nat} {ds rest : List Node} {d item : Node}
    (h : ItemRow text a b (ds ++ item :: rest)) (hd : d ∈ ds) (hdirective : isDirective d = true) :
    d.hi ≤ item.lo := by
  unfold isDirective at hdirective
  split at hdirective
  · exact h.hi_le_lo hd rfl (List.cons_ne_nil _ _)
  · cases hdirective

end

/-! ### The line in the text -/

theorem byteLength_of_isBoundary {n : Nat} {cs front after : List Char} (h : IsBoundary 0 cs n)
    (hcut : splitBytes n cs = (front, after)) : byteLength front = n := by
  obtain ⟨before, ⟨rest, rfl⟩, rfl⟩ := h
  rw [Nat.zero_add, Splice.splitBytes_byteLength] at hcut
  rw [Nat.zero_add, (Prod.mk.inj hcut).1]

section

variable {p : Prepared} {source : String} {o : Options} {s : Store} {out : Output}

theorem Prepared.candidates_ne_nil_of_isChanged (hok : (p.apply source o s).1 = .ok out)
    (hchanged : out.isChanged = true) : p.candidates ≠ [] := by
  intro hnil
  rw [apply_of_nil p source o hnil] at hok
  cases hok
  cases hchanged

theorem Prepared.apply_edits_before {n : Nat} (hplace : p.importAt = some (.before n))
    (hle : ∀ c ∈ p.candidates, n ≤ c.start ∧ c.start < c.stop) (ids : List String) (file : String) :
    ∃ front after back, splitBytes n source.toList = (front, after) ∧
      (Splice.apply source (List.zipWith (callEdit o) p.candidates ids) file).1.toList =
        front ++ back ∧
      (Splice.apply source (p.edits o ids) file).1.toList =
        front ++ ((importLine o ++ "\n").toList ++ back) := by
  have hcalls : ∀ e ∈ List.zipWith (callEdit o) p.candidates ids,
      n ≤ e.start ∧ e.start < e.stop := by
    intro e he
    obtain ⟨c, hc, hstart, hstop⟩ := exists_of_mem_calls he
    rw [hstart, hstop]
    exact hle c hc
  rw [edits, hplace]
  exact Splice.apply_concat _ file hcalls

end

/-- The name of the runtime is imported as a type only, behind a directive. One candidate is in a
parameter of the other. -/
def typeImport : String :=
  "'use client';\nimport x, \x7b type i18next \x7d from 'x';\n"
    ++ "const m = \x7b b(p = \x7b a: () => \"A\" \x7d) \x7b return \"B\"; \x7d \x7d;"

set_option maxRecDepth 100000 in
theorem prepare_typeImport :
    (readModule typeImport "a.ts").map (fun m => m.items.any (bindsValue "i18next")) = some false ∧
      (prepare typeImport "a.ts" {}).importAt = some (.before 14) ∧
      (prepare typeImport "a.ts" {}).candidates.map (·.text) = ["B", "A"] ∧
      (transform typeImport "a.ts" {} {}).1.map (fun out => (out.isChanged, out.messageCount)) =
        .ok (true, 2) := by
  decide +kernel

end Phrasebook
