import Phrasebook.Proofs.Substitution

/-!
# Exempt functions stay as they are

The expressions that message functions return do not reach into each other, be they translated or
not, and the runtime is imported in front of all of them. So the edits of a file never overlap, and
what an exempt function returns is part of a piece of the text that is kept (`exempt_kept`).
-/

namespace Phrasebook

open Collect (messageFunctions)
open Script (Module Row)
open Splice (IsBoundary KeptIn)
open Text (byteLength)

/-! ### Ranges -/

/-- Two ranges of bytes, each by its first byte and the one behind it, do not overlap. -/
def Apart (r s : Nat × Nat) : Prop := r.2 ≤ s.1 ∨ s.2 ≤ r.1

theorem Apart.symm {r s : Nat × Nat} (h : Apart r s) : Apart s r := Or.symm h

def Edit.range (e : Edit) : Nat × Nat := (e.start, e.stop)

def Candidate.range (c : Candidate) : Nat × Nat := (c.start, c.stop)

namespace MessageFunction

def range (f : MessageFunction) : Nat × Nat := (f.result.lo, f.result.hi)

theorem Yields.range_eq {f : MessageFunction} {c : Candidate} (h : f.Yields c) :
    c.range = f.range := by
  rw [Candidate.range, MessageFunction.range, h.start, h.stop]

end MessageFunction

theorem map_range_of_forall₂ {as : List (List Nat × MessageFunction)} {cs : List Candidate}
    (h : List.Forall₂ (fun a c => a.2.Yields c) as cs) :
    cs.map Candidate.range = as.map fun a => a.2.range := by
  induction h with
  | nil => rfl
  | cons h hrest ih => rw [List.map_cons, List.map_cons, h.range_eq, ih]

/-! ### Message functions of a module -/

section

variable {source filename : String} {m : Module}

theorem exists_row_of_readModule (h : readModule source filename = some m) :
    m.text <+: Script.skipByteOrderMark source.toList ∧ ∃ a b ss, Row m.text a b ss ∧
      ((messageFunctions m source.toList).map fun f => f.2.site).Subperm ss ∧
      (messageFunctions m source.toList ≠ [] → ∃ n, importPlace m.items = .before n ∧ n ≤ a) := by
  obtain ⟨jsx, cs, hcs, hparse⟩ := exists_of_readModule h
  obtain ⟨htext, b, hrow⟩ := Script.itemRow_of_parse hparse
  obtain ⟨a, b, ss, hrow, hsub, himport⟩ := exists_row_messageFunctions hrow source.toList
  refine ⟨htext ▸ prefix_skipByteOrderMark hcs, a, b, ss, hrow, hsub, fun hne => ?_⟩
  obtain ⟨n, hn, hle, -⟩ := himport hne
  exact ⟨n, hn, hle⟩

/-- What a message function returns are some characters of the module, behind the place where the
runtime is imported. -/
theorem range_of_mem (h : readModule source filename = some m) {a : List Nat × MessageFunction}
    (ha : a ∈ messageFunctions m source.toList) :
    a.2.range.1 < a.2.range.2 ∧ IsBoundary 0 m.text a.2.range.1 ∧
      IsBoundary 0 m.text a.2.range.2 ∧ (importPlace m.items).offset ≤ a.2.range.1 := by
  obtain ⟨-, lo, b, ss, hrow, hsub, himport⟩ := exists_row_of_readModule h
  have hmem : a.2.site ∈ ss := hsub.subset (List.mem_map_of_mem ha)
  obtain ⟨place, hle, hstands, -⟩ := hrow.exists_place hmem
  obtain ⟨n, hn, hnle⟩ := himport (List.ne_nil_of_mem ha)
  refine ⟨hstands.lt, hstands.lead.isBoundary, hstands.isPlace_hi.isBoundary, ?_⟩
  rw [hn]
  exact Nat.le_trans hnle (Nat.le_trans hle hstands.lead.le)

/-- Without a byte order mark they are characters of the source. -/
theorem isBoundary_of_mem (h : readModule source filename = some m)
    (hmark : source.toList.head? ≠ some '\uFEFF') {a : List Nat × MessageFunction}
    (ha : a ∈ messageFunctions m source.toList) :
    IsBoundary 0 source.toList a.2.range.1 ∧ IsBoundary 0 source.toList a.2.range.2 := by
  obtain ⟨-, hlo, hhi, -⟩ := range_of_mem h ha
  have htext := (exists_row_of_readModule h).1
  rw [skipByteOrderMark_eq hmark] at htext
  exact ⟨hlo.of_prefix htext, hhi.of_prefix htext⟩

theorem exempted_eq_length (h : readModule source filename = some m) (o : Options) :
    (prepare source filename o).exempted =
      ((messageFunctions m source.toList).filter fun a => a.2.doc.isExempt).length := by
  rw [exempted_prepare h, ← (Collect.forall₂_candidates m source.toList).2,
    List.countP_eq_length_filter]

theorem pairwise_ranges (h : readModule source filename = some m) :
    ((messageFunctions m source.toList).map fun a => a.2.range).Pairwise Apart := by
  obtain ⟨-, a, b, ss, hrow, ⟨ts, hperm, hsub⟩, -⟩ := exists_row_of_readModule h
  have hapart : ts.Pairwise fun s t => Apart (s.lo, s.hi) (t.lo, t.hi) :=
    (hrow.pairwise.sublist hsub).imp .inl
  have hsites := List.pairwise_map.mp (hperm.pairwise hapart Apart.symm)
  exact List.pairwise_map.mpr hsites

/-- The ranges of the candidates and those of the exempt functions are those of all message
functions. -/
theorem perm_ranges (h : readModule source filename = some m) (o : Options) :
    ((prepare source filename o).candidates.map Candidate.range ++
      ((messageFunctions m source.toList).filter fun a => a.2.doc.isExempt).map
        fun a => a.2.range).Perm ((messageFunctions m source.toList).map fun a => a.2.range) := by
  rw [candidates_prepare h, map_range_of_forall₂ (Collect.forall₂_candidates m source.toList).1,
    ← List.map_append]
  refine List.Perm.map _ (List.perm_append_comm.trans ?_)
  simpa using List.filter_append_perm (fun a => a.2.doc.isExempt) (messageFunctions m source.toList)

end

/-! ### Edits -/

/-- What an edit changes is a candidate, or it is where the runtime is imported. -/
theorem Prepared.range_of_mem_edits {p : Prepared} {o : Options} {ids : List String} {e : Edit}
    (he : e ∈ p.edits o ids) : e.range ∈ p.candidates.map Candidate.range ∨
      ∃ place ∈ p.importAt, e.range = (place.offset, place.offset) := by
  rcases List.mem_append.mp he with he | he
  · obtain ⟨c, hc, hstart, hstop⟩ := exists_of_mem_calls he
    exact .inl (List.mem_map.mpr ⟨c, hc, by rw [Candidate.range, Edit.range, hstart, hstop]⟩)
  · obtain ⟨place, hplace, rfl⟩ := exists_of_mem_import he
    refine .inr ⟨place, hplace, ?_⟩
    rw [Edit.range, importEdit_start, importEdit_stop]

theorem pairwise_edits {source filename : String} (o : Options) (ids : List String) :
    ((prepare source filename o).edits o ids).Pairwise fun e e' => Apart e.range e'.range := by
  by_cases hne : (prepare source filename o).candidates = []
  · rw [Prepared.edits, hne, List.zipWith_nil_left, List.nil_append]
    cases (prepare source filename o).importAt with
    | none => exact .nil
    | some place => exact List.pairwise_singleton _ _
  · exact ((placed_prepare_text source filename o).apart hne o ids).2

/-- What lies behind the import and apart from the candidates of a file is kept when the file is
transformed. -/
theorem exists_pieces_transform {source filename : String} {o : Options} {s : Store} {out : Output}
    (hok : (transform source filename o s).1 = .ok out)
    (hcuts : source.toList.head? = some '\uFEFF' →
      (prepare source filename o).Cuts source.toList) :
    ∃ ps, ps.flatMap Piece.old = source.toList ∧ ps.flatMap Piece.new = out.code.toList ∧
      ∀ before cs after, source.toList = before ++ (cs ++ after) →
        (∀ r ∈ (prepare source filename o).candidates.map Candidate.range,
          Apart r (byteLength before, byteLength before + byteLength cs)) →
        (∀ place ∈ (prepare source filename o).importAt, place.offset ≤ byteLength before) →
        KeptIn ps before cs := by
  by_cases hne : (prepare source filename o).candidates = []
  · rw [transform, Prepared.apply_of_nil _ source o hne] at hok
    obtain rfl := Except.ok.inj hok
    refine ⟨[.kept source.toList], by simp [Piece.old], by simp [Piece.new], ?_⟩
    intro before cs after hsource _ _
    exact ⟨[], before, after, [], by rw [hsource]; rfl, rfl⟩
  · obtain ⟨ids, -, hout⟩ := Prepared.exists_recordAll_of_apply hne hok
    obtain ⟨ps, hold, hnew, -, hkept⟩ :=
      Splice.exists_pieces_apply (applicable_edits_prepare hne hcuts ids)
        (prepare source filename o).filename
    refine ⟨ps, hold, by rw [hout]; exact hnew, fun before cs after hsource hcalls hruntime => ?_⟩
    refine hkept before cs after hsource fun e he => ?_
    rcases Prepared.range_of_mem_edits he with hcall | ⟨place, hplace, hrange⟩
    · exact hcalls _ hcall
    · have hstop : e.stop = place.offset := congrArg Prod.snd hrange
      exact .inl (hstop ▸ hruntime place hplace)

/-- The ranges of the candidates of a file and those of what exempt functions return do not
overlap, and the runtime is imported in front of them, so that edits do not overlap either. What
exempt functions return is kept where the text is transformed. Behind a byte order mark the ranges
have to be ranges of the text. -/
theorem exempt_kept {source filename : String} {m : Module}
    (h : readModule source filename = some m) (o : Options) :
    let p := prepare source filename o
    ∃ exempt : List (List Nat × MessageFunction), (exempt.map Prod.fst).Nodup ∧
      exempt.length = p.exempted ∧
      (∀ path f, (path, f) ∈ exempt ↔
        MessageFunctionAt m source.toList path f ∧ f.doc.isExempt = true) ∧
      (∀ r ∈ p.candidates.map Candidate.range ++ exempt.map fun a => a.2.range,
        r.1 < r.2 ∧ ∀ place ∈ p.importAt, place.offset ≤ r.1) ∧
      (p.candidates.map Candidate.range ++ exempt.map fun a => a.2.range).Pairwise Apart ∧
      (∀ ids, (p.edits o ids).Pairwise fun e e' => Apart e.range e'.range) ∧
      ∀ s out, (transform source filename o s).1 = .ok out →
        (source.toList.head? = some '\uFEFF' → p.Cuts source.toList ∧ ∀ a ∈ exempt,
          IsBoundary 0 source.toList a.2.range.1 ∧ IsBoundary 0 source.toList a.2.range.2) →
        ∃ ps, ps.flatMap Piece.old = source.toList ∧ ps.flatMap Piece.new = out.code.toList ∧
          ∀ a ∈ exempt, ∃ before cs after, source.toList = before ++ (cs ++ after) ∧
            byteLength before = a.2.range.1 ∧ a.2.range.1 + byteLength cs = a.2.range.2 ∧
            KeptIn ps before cs := by
  intro p
  -- candidates and exempt functions are apart because all message functions are
  have hperm := perm_ranges h o
  have hranges : ∀ r ∈ (messageFunctions m source.toList).map fun a => a.2.range,
      r.1 < r.2 ∧ ∀ place ∈ p.importAt, place.offset ≤ r.1 := by
    intro r hr
    obtain ⟨a, ha, rfl⟩ := List.mem_map.mp hr
    obtain ⟨hlt, -, -, hle⟩ := range_of_mem h ha
    exact ⟨hlt, fun place hplace => eq_importPlace h hplace ▸ hle⟩
  have hapart := hperm.symm.pairwise (pairwise_ranges h) Apart.symm
  refine ⟨(messageFunctions m source.toList).filter fun a => a.2.doc.isExempt,
    (Collect.nodup_messageFunctions m _).sublist (List.filter_sublist.map _),
    (exempted_eq_length h o).symm, ?_, fun r hr => hranges r (hperm.mem_iff.mp hr), hapart,
    pairwise_edits o, ?_⟩
  · intro path f
    rw [List.mem_filter, Collect.mem_messageFunctions]
  · intro s out hok hsource
    obtain ⟨ps, hold, hnew, hkept⟩ := exists_pieces_transform hok fun hmark => (hsource hmark).1
    refine ⟨ps, hold, hnew, fun a ha => ?_⟩
    have hmem := (List.mem_filter.mp ha).1
    obtain ⟨hlt, himport⟩ := hranges _ (List.mem_map_of_mem hmem)
    -- behind a mark the places are those of another text, so they are asked for
    have hboundary : IsBoundary 0 source.toList a.2.range.1 ∧
        IsBoundary 0 source.toList a.2.range.2 := by
      by_cases hmark : source.toList.head? = some '\uFEFF'
      · exact (hsource hmark).2 a ha
      · exact isBoundary_of_mem h hmark hmem
    obtain ⟨before, cs, after, htext, hbefore, hcs⟩ :=
      hboundary.1.exists_between hboundary.2 (Nat.le_of_lt hlt)
    have hrange : a.2.range = (byteLength before, byteLength before + byteLength cs) := by
      rw [hbefore, hcs]
    refine ⟨before, cs, after, htext, hbefore, hcs, hkept before cs after htext (fun r hr => ?_) ?_⟩
    · rw [← hrange]
      exact (List.pairwise_append.mp hapart).2.2 r hr _ (List.mem_map_of_mem ha)
    · rw [hbefore]
      exact himport

set_option maxRecDepth 100000 in
theorem transform_nestedMessages : (transform nestedMessages "a.ts" {} {}).1.isOk = true := by
  decide +kernel

theorem exempt_kept_nestedMessages : ∃ m out ps, ∃ exempt : List (List Nat × MessageFunction),
    readModule nestedMessages "a.ts" = some m ∧
    (transform nestedMessages "a.ts" {} {}).1 = .ok out ∧
    ps.flatMap Piece.new = out.code.toList ∧ exempt.length = 1 ∧
    ∀ a ∈ exempt, MessageFunctionAt m nestedMessages.toList a.1 a.2 ∧
      ∃ before cs, byteLength before = a.2.range.1 ∧
        a.2.range.1 + byteLength cs = a.2.range.2 ∧ KeptIn ps before cs := by
  obtain ⟨hread, -, hexempted⟩ := prepare_nestedMessages
  obtain ⟨m, hm⟩ := Option.isSome_iff_exists.mp hread
  cases hout : (transform nestedMessages "a.ts" {} {}).1 with
  | error e =>
    have hisOk := transform_nestedMessages
    rw [hout] at hisOk
    cases hisOk
  | ok out =>
    obtain ⟨exempt, -, hlength, hmem, -, -, -, hkept⟩ := exempt_kept hm {}
    obtain ⟨ps, -, hnew, hkept⟩ :=
      hkept {} out hout fun hmark => absurd hmark (by decide +kernel)
    refine ⟨m, out, ps, exempt, hm, rfl, hnew, hlength.trans hexempted, fun a ha => ?_⟩
    obtain ⟨before, cs, -, -, hbefore, hcs, hin⟩ := hkept a ha
    exact ⟨((hmem a.1 a.2).mp ha).1, before, cs, hbefore, hcs, hin⟩

end Phrasebook
