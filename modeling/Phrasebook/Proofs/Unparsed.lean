import Phrasebook.Proofs.Slice
import Phrasebook.Proofs.Splice.Kept
import Phrasebook.Proofs.Substitution

/-!
# Files that cannot be parsed

Of a file that cannot be parsed only the lines in front of the last cut are looked at. All its edits
lie there, and what is behind the cut is kept. A file without a cut is kept as it is.
-/

namespace Phrasebook

open Script (IsCut IsLastCut Module limitOf longestPrefix withItems)
open Text (byteLength)

theorem byteLength_skipByteOrderMark_le (cs : List Char) :
    byteLength (Script.skipByteOrderMark cs) ≤ byteLength cs := by
  obtain ⟨mark, hcs, -⟩ := exists_byteOrderMark cs
  conv_rhs => rw [hcs, Text.byteLength_append]
  omega

/-- All edits of a file lie within what has been parsed of it. -/
theorem Prepared.Cuts.le {p : Prepared} {text : List Char} (h : p.Cuts text) {o : Options}
    {ids : List String} : ∀ e ∈ p.edits o ids,
      e.start ≤ byteLength text ∧ e.stop ≤ byteLength text := by
  intro e he
  rcases List.mem_append.mp he with he | he
  · obtain ⟨c, hc, hstart, hstop⟩ := exists_of_mem_calls he
    have := (h.start c hc).le
    have := (h.stop c hc).le
    omega
  · obtain ⟨place, hplace, rfl⟩ := exists_of_mem_import he
    have := (h.importAt place hplace).le
    rw [importEdit_start, importEdit_stop]
    omega

/-- What stands behind the part of a file that has been parsed is kept. -/
theorem suffix_transform {source filename : String} {m : Module} {jsx : Bool}
    {parsed rest : List Char} (hread : readModule source filename = some m)
    (hparse : Script.parse jsx parsed = .ok m) (hsource : source.toList = parsed ++ rest)
    {o : Options} {s : Store} {out : Output} (hok : (transform source filename o s).1 = .ok out) :
    rest <:+ out.code.toList := by
  by_cases hne : (prepare source filename o).candidates = []
  · rw [transform, Prepared.apply_of_nil _ source o hne] at hok
    obtain rfl := Except.ok.inj hok
    exact ⟨parsed, hsource.symm⟩
  · obtain ⟨ids, -, rfl⟩ := Prepared.exists_recordAll_of_apply hne hok
    have hcuts := (placed_prepare_of_readModule hread o).cuts hne
    have htext : byteLength m.text ≤ byteLength parsed := by
      rw [(Script.itemRow_of_parse hparse).1]
      exact byteLength_skipByteOrderMark_le parsed
    -- all edits lie in what has been parsed
    have hedits : ∀ e ∈ Splice.sortEdits ((prepare source filename o).edits o ids),
        e.start ≤ 0 + byteLength parsed ∧ e.stop ≤ 0 + byteLength parsed := by
      intro e he
      have := hcuts.le e ((Splice.sortEdits_perm _).mem_iff.mp he)
      omega
    obtain ⟨new, hnew⟩ := Splice.exists_code_pieces rest hedits
    refine ⟨new, ?_⟩
    rw [Prepared.output_code, Splice.apply, hsource, hnew, String.toList_ofList]

/-- Whatever `read` is: what is parsed in front of an offset is what stands in front of the last
line feed there for which `read` finds items, and nothing is parsed only if there is none. So when a
file cannot be parsed, what stands behind this line feed is kept, and without one the file is. -/
theorem longestPrefix_and_transform :
    (∀ {ε : Type} (read : List Char → Except ε Module) (text : List Char) (offset : Nat),
      (∀ m, longestPrefix (withItems read) text offset = some m ↔
        ∃ head rest, IsLastCut (withItems read) text (limitOf text offset) head rest m) ∧
      (longestPrefix (withItems read) text offset = none ↔
        ∀ head rest m, ¬IsCut (withItems read) text (limitOf text offset) head rest m)) ∧
    ∀ (source filename : String) (o : Options) (s : Store) (e : Script.SyntaxFailure),
      Script.parse (Script.allowsTags filename) source.toList = .error e →
      let parse := withItems (Script.parse (Script.allowsTags filename))
      let limit := limitOf source.toList e.offset
      (∀ head rest m, IsLastCut parse source.toList limit head rest m →
        ∀ out, (transform source filename o s).1 = .ok out → rest <:+ out.code.toList) ∧
      ((∀ head rest m, ¬IsCut parse source.toList limit head rest m) →
        transform source filename o s = (.ok { filename, code := source }, s)) := by
  refine ⟨fun read text offset => Script.longestPrefix_iff _ text offset, ?_⟩
  intro source filename o s e herror parse limit
  have hread : readModule source filename =
      Script.parsePrefix (Script.allowsTags filename) source.toList e.offset :=
    readModule_of_parse_eq_error herror
  obtain ⟨hsome, hnone⟩ := Script.longestPrefix_iff parse source.toList e.offset
  constructor
  · intro head rest m hcut out hok
    have hm : readModule source filename = some m := hread.trans ((hsome m).mpr ⟨head, rest, hcut⟩)
    have hparse := (Script.withItems_eq_some_iff.mp hcut.value).1
    refine suffix_transform hm hparse ?_ hok
    rw [hcut.eq, List.append_assoc]
    rfl
  · intro hcuts
    have hm : readModule source filename = none := hread.trans (hnone.mpr hcuts)
    rw [transform, prepare_of_readModule_eq_none hm]
    exact Prepared.apply_of_nil _ source o rfl

/-- The second line cannot be parsed from its second word on. -/
def brokenLine : String := "const m = \x7b a: () => \"A\" \x7d;\nconst = \x7b\n"

set_option maxRecDepth 100000 in
theorem parse_brokenLine :
    (match Script.parse (Script.allowsTags "a.ts") brokenLine.toList with
      | .ok _ => none
      | .error e => some e.offset) = some 34 ∧
    (withItems (Script.parse (Script.allowsTags "a.ts"))
      ("const m = \x7b a: () => \"A\" \x7d;".toList ++ ['\n'])).isSome = true ∧
    (transform brokenLine "a.ts" {} {}).1.isOk = true := by
  decide +kernel

theorem longestPrefix_and_transform_brokenLine : ∃ out,
    (transform brokenLine "a.ts" {} {}).1 = .ok out ∧
      "const = \x7b\n".toList <:+ out.code.toList := by
  obtain ⟨herror, hitems, hok⟩ := parse_brokenLine
  obtain ⟨m, hm⟩ := Option.isSome_iff_exists.mp hitems
  have hends : ∀ front ∈ brokenLine.toList.inits, front.getLast? = some '\n' →
      byteLength front ≤ 34 → byteLength front ≤ 28 := by
    decide +kernel
  have hlast : IsLastCut (withItems (Script.parse (Script.allowsTags "a.ts"))) brokenLine.toList
      34 "const m = \x7b a: () => \"A\" \x7d;".toList "const = \x7b\n".toList m := by
    refine ⟨⟨by decide +kernel, by decide +kernel, hm⟩, fun {head rest m'} h => ?_⟩
    have hmem : head ++ ['\n'] ∈ brokenLine.toList.inits :=
      (List.mem_inits _ _).mpr ⟨rest, by rw [h.eq, List.append_assoc]; rfl⟩
    have hlength : byteLength (head ++ ['\n']) = byteLength head + 1 :=
      Text.byteLength_append head ['\n']
    have hlt := h.lt
    have hle := hends _ hmem (by simp) (by omega)
    have hhead : byteLength "const m = \x7b a: () => \"A\" \x7d;".toList = 27 := by decide +kernel
    omega
  cases hparse : Script.parse (Script.allowsTags "a.ts") brokenLine.toList with
  | ok m' =>
    rw [hparse] at herror
    cases herror
  | error e =>
    rw [hparse] at herror
    have hlimit : limitOf brokenLine.toList e.offset = 34 := by
      rw [Option.some.inj herror]
      decide +kernel
    rw [← hlimit] at hlast
    cases hout : (transform brokenLine "a.ts" {} {}).1 with
    | error x =>
      rw [hout] at hok
      cases hok
    | ok out =>
      exact ⟨out, rfl, (longestPrefix_and_transform.2 brokenLine "a.ts" {} {} e hparse).1 _ _ m
        hlast out hout⟩

end Phrasebook
