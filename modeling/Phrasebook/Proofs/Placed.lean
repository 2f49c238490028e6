import Phrasebook.Proofs.Candidate
import Phrasebook.Proofs.Preparing
import Phrasebook.Proofs.Script.Module
import Phrasebook.Proofs.Splice.Pieces

/-!
# Where the edits of a file stand

The candidates of a prepared file are sites in a row of the text, and the runtime is imported in
front of the row (`Prepared.Placed`). So the edits of a file can always be applied, and in front of
a call nothing is edited up to its lead.
-/

namespace Phrasebook

open Script (IsPlace Lead LeadAt Mark Node Row Site isSpace kindAt marks marksOf)
open Splice (Applicable IsBoundary)
open Text (byteLength)

/-! ### Longer texts -/

section

variable {text : List Char}

theorem Script.IsPlace.extend {n : Nat} (h : IsPlace text n) (rest : List Char) :
    IsPlace (text ++ rest) n := by
  obtain ⟨d, ⟨cs, hcs, hpos⟩, rfl⟩ := h
  refine ⟨⟨d.rest ++ rest, d.pos⟩, ⟨cs, ?_, hpos⟩, rfl⟩
  change text ++ rest = cs ++ (d.rest ++ rest)
  rw [← List.append_assoc]
  exact congrArg (· ++ rest) hcs

theorem Script.IsPlace.isBoundary {n : Nat} (h : IsPlace text n) : IsBoundary 0 text n := by
  obtain ⟨d, ⟨cs, hcs, hpos⟩, rfl⟩ := h
  exact ⟨cs, ⟨d.rest, hcs.symm⟩, hpos.symm⟩

theorem Script.LeadAt.isBoundary {lead : Lead} {place next : Nat}
    (h : LeadAt text lead place next) : IsBoundary 0 text next := by
  obtain ⟨before, gap, after, rfl, -, -, rfl, rfl⟩ := h
  refine ⟨before ++ (lead.spelling ++ gap), ⟨after, by simp⟩, ?_⟩
  rw [Text.byteLength_append, Nat.zero_add]

/-- The text goes on behind what follows the lead. -/
theorem Script.LeadAt.extend {lead : Lead} {place next : Nat} (h : LeadAt text lead place next)
    (hnext : next < byteLength text) (rest : List Char) :
    LeadAt (text ++ rest) lead place next := by
  obtain ⟨before, gap, after, rfl, hstops, hgap, rfl, rfl⟩ := h
  refine ⟨before, gap, after ++ rest, by simp, fun hlead => ?_, hgap, rfl, rfl⟩
  have hne : gap ++ after ≠ [] := by
    rintro hnil
    rw [(List.append_eq_nil_iff.mp hnil).2, List.append_nil, Text.byteLength_append before] at hnext
    exact Nat.lt_irrefl _ hnext
  rw [← List.append_assoc]
  exact (hstops hlead).append hne rest

theorem Script.IsPlace.le {n : Nat} (h : IsPlace text n) : n ≤ byteLength text :=
  Nat.zero_add (byteLength text) ▸ h.isBoundary.le

theorem Script.Row.extend {a b : Nat} {ss : List Site} (h : Row text a b ss) (rest : List Char) :
    Row (text ++ rest) a b ss := by
  induction h with
  | nil h => exact .nil h
  | cons h hs hss ih =>
    have hlead := hs.lead.extend (Nat.lt_of_lt_of_le hs.lt hs.isPlace_hi.le) rest
    exact .cons h ⟨hlead, hs.spelled.extend rest⟩ ih

/-- A site in the text behind its lead. -/
theorem Script.Site.StandsAt.exists_split {s : Site} {place : Nat} (h : s.StandsAt text place) :
    ∃ before gap old after, text = before ++ (s.lead.spelling ++ gap ++ (old ++ after)) ∧
      kindAt before (s.lead.spelling ++ (gap ++ (old ++ after))) = s.lead.kind ∧
      (∀ x ∈ gap.head?, isSpace x = true ∨ x = '/') ∧ old ≠ [] ∧ byteLength before = place ∧
      s.lo = place + byteLength (s.lead.spelling ++ gap) ∧ s.hi = s.lo + byteLength old := by
  have hlt := h.lt
  have hboundary := h.isPlace_hi.isBoundary
  obtain ⟨⟨before, gap, rest, rfl, hstops, hgap, rfl, hlo⟩, -⟩ := h
  rw [← List.append_assoc] at hboundary
  have hlength : 0 + byteLength (before ++ (s.lead.spelling ++ gap)) = s.lo := by
    rw [Text.byteLength_append, Nat.zero_add, hlo]
  obtain ⟨old, ⟨after, rfl⟩, hold⟩ :=
    hboundary.of_append (by rw [hlength]; exact Nat.le_of_lt hlt)
  rw [hlength] at hold
  refine ⟨before, gap, old, after, rfl, s.lead.kindAt_of_stopsWord before hstops, hgap,
    fun hnil => ?_, rfl, hlo.symm, hold.symm⟩
  rw [hnil, byteLength] at hold
  omega

/-! ### Rows -/

theorem Script.Row.le_lo {a b : Nat} {ss : List Site} (h : Row text a b ss) :
    ∀ s ∈ ss, a ≤ s.lo := by
  induction h with
  | nil h => simp
  | cons h hs hss ih =>
    have := hs.lead.le
    have := hs.lt
    intro t ht
    rcases List.mem_cons.mp ht with rfl | ht
    · omega
    · have := ih t ht
      omega

theorem Script.Row.pairwise {a b : Nat} {ss : List Site} (h : Row text a b ss) :
    ss.Pairwise (·.hi ≤ ·.lo) := by
  induction h with
  | nil h => exact .nil
  | cons h hs hss ih => exact .cons hss.le_lo ih

/-- A site of a row has its lead, and the others of the row do not reach in between. -/
theorem Script.Row.exists_place {a b : Nat} {ss : List Site} (h : Row text a b ss) {s : Site}
    (hs : s ∈ ss) : ∃ place, a ≤ place ∧ s.StandsAt text place ∧
      ∀ t ∈ ss, t.hi ≤ place ∨ t = s ∨ s.hi ≤ t.lo := by
  induction h with
  | nil h => simp at hs
  | @cons a b place s' ss h hs' hss ih =>
    rcases List.mem_cons.mp hs with rfl | hs
    · refine ⟨place, h, hs', fun t ht => ?_⟩
      rcases List.mem_cons.mp ht with rfl | ht
      · exact .inr (.inl rfl)
      · exact .inr (.inr (hss.le_lo t ht))
    · obtain ⟨place', hle, hstands, hothers⟩ := ih hs
      have := hs'.lead.le
      have := hs'.lt
      refine ⟨place', by omega, hstands, fun t ht => ?_⟩
      rcases List.mem_cons.mp ht with rfl | ht
      · exact .inl hle
      · exact hothers t ht

end

/-! ### Prepared files -/

/-- The candidates of a prepared file are sites of a row in a text, and if there are any, the
runtime is imported in front of the row or not at all. -/
def Prepared.Placed (p : Prepared) (text : List Char) : Prop :=
  ∃ a b ss, Row text a b ss ∧ (p.candidates.map Candidate.site).Subperm ss ∧
    (p.candidates ≠ [] → ∀ place ∈ p.importAt, ∃ n, place = .before n ∧ n ≤ a ∧ IsPlace text n)

theorem Prepared.Placed.extend {p : Prepared} {text : List Char} (h : p.Placed text)
    (rest : List Char) : p.Placed (text ++ rest) := by
  obtain ⟨a, b, ss, hrow, hsub, himport⟩ := h
  refine ⟨a, b, ss, hrow.extend rest, hsub, fun hne place hplace => ?_⟩
  obtain ⟨n, heq, hle, hn⟩ := himport hne place hplace
  exact ⟨n, heq, hle, hn.extend rest⟩

/-- A directive has no site in it. -/
theorem marks_of_isDirective {n : Node} (hn : isDirective n = true) (hstray : .stray ∉ marks n) :
    marks n = [] := by
  unfold isDirective at hn
  split at hn
  · rename_i lo hi value lo' hi' parts
    cases parts with
    | nil => simp [Script.ownMarks]
    | cons p ps => simp [Script.ownMarks] at hstray
  · cases hn

theorem marksOf_of_isDirective {ns : List Node} (hns : ∀ n ∈ ns, isDirective n = true)
    (hstray : .stray ∉ marksOf ns) : marksOf ns = [] := by
  induction ns with
  | nil => exact Script.marksOf_nil
  | cons n ns ih =>
    obtain ⟨hn, hns⟩ := List.forall_mem_cons.mp hns
    rw [Script.marksOf_cons, List.mem_append, not_or] at hstray
    rw [Script.marksOf_cons, marks_of_isDirective hn hstray.1, ih hns hstray.2]
    rfl

/-- Marks that are accounted for are those of sites. -/
theorem subperm_of_accounted {text : List Char} {a b : Nat} {ms : List Mark} {sites : List Site}
    (h : Script.Accounted text a b ms) (hle : ∀ m, (sites.map Mark.site).count m ≤ ms.count m) :
    ∃ ss, Row text a b ss ∧ sites.Subperm ss := by
  obtain ⟨ss, places, hcount, hrow, -⟩ := h
  refine ⟨ss, hrow, List.subperm_ext_iff.mpr fun s _ => ?_⟩
  have hinj : Function.Injective Mark.site := fun _ _ => Mark.site.inj
  have hzero : (places.map Mark.key).count (.site s) = 0 := by
    rw [List.count_eq_zero]
    simp
  have := Nat.le_trans (hle (.site s)) (hcount (.site s))
  rwa [List.count_append, hzero, Nat.add_zero, List.count_map_of_injective _ _ hinj,
    List.count_map_of_injective _ _ hinj] at this

/-- Properties that are accounted for have different places. -/
theorem nodup_of_accounted {text : List Char} {a b : Nat} {ms : List Mark} {places : List Nat}
    (h : Script.Accounted text a b ms) (hle : ∀ m, (places.map Mark.key).count m ≤ ms.count m) :
    places.Nodup ∧ ∀ n ∈ places, IsPlace text n := by
  obtain ⟨ss, others, hcount, -, hkeys⟩ := h
  have hinj : Function.Injective Mark.key := fun _ _ => Mark.key.inj
  have hzero (n : Nat) : (ss.map Mark.site).count (.key n) = 0 := by
    rw [List.count_eq_zero]
    simp
  have hothers (n : Nat) : places.count n ≤ others.count n := by
    have := Nat.le_trans (hle (.key n)) (hcount (.key n))
    rwa [List.count_append, hzero, Nat.zero_add, List.count_map_of_injective _ _ hinj,
      List.count_map_of_injective _ _ hinj] at this
  have hsub : places.Subperm others := List.subperm_ext_iff.mpr fun n _ => hothers n
  refine ⟨?_, fun n hn => hkeys.isPlace n (hsub.subset hn)⟩
  obtain ⟨ns, hperm, hsub⟩ := hsub
  exact hperm.nodup (hsub.nodup hkeys.nodup)

/-- What is in a module behind its directives stands in a row, and nothing is in the directives. -/
theorem exists_row_messageFunctions {m : Script.Module} {b : Nat}
    (h : Script.ItemRow m.text 0 b m.items) (source : List Char) :
    ∃ a b ss, Row m.text a b ss ∧
      ((Collect.messageFunctions m source).map fun f => f.2.site).Subperm ss ∧
      (Collect.messageFunctions m source ≠ [] →
        ∃ n, importPlace m.items = .before n ∧ n ≤ a ∧ IsPlace m.text n) := by
  have hstray := h.accounted.stray_notMem
  have hcount (mark : Mark) : (((Collect.messageFunctions m source).map fun f => f.2.site).map
      Mark.site).count mark ≤ (marksOf m.items).count mark := by
    rw [List.map_map]
    exact Collect.count_messageFunctions m source mark
  cases hfind : m.items.find? (!isDirective ·) with
  | none =>
    -- a module of directives only has no marks, so it has no message functions
    have hdirectives : ∀ n ∈ m.items, isDirective n = true := by
      simpa using List.find?_eq_none.mp hfind
    rw [marksOf_of_isDirective hdirectives hstray] at hcount
    have hnone : Script.Accounted m.text 0 0 [] := .nil (Nat.le_refl 0)
    obtain ⟨ss, hrow, hsub⟩ := subperm_of_accounted hnone hcount
    refine ⟨0, 0, ss, hrow, hsub, fun hne => absurd ?_ hne⟩
    cases hfound : Collect.messageFunctions m source with
    | nil => rfl
    | cons f fs =>
      rw [hfound] at hcount
      have := hcount (.site f.2.site)
      simp at this
  | some item =>
    obtain ⟨hitem, ds, rest, hitems, hds⟩ := List.find?_eq_some_iff_append.mp hfind
    rw [hitems, Script.marksOf_append, List.mem_append, not_or] at hstray
    have hdirectives : marksOf ds = [] :=
      marksOf_of_isDirective (fun d hd => by simpa using hds d hd) hstray.1
    rw [hitems] at h
    obtain ⟨hplace, hrest⟩ := h.suffix
    rw [hitems, Script.marksOf_append, hdirectives, List.nil_append] at hcount
    obtain ⟨ss, hrow, hsub⟩ := subperm_of_accounted hrest hcount
    refine ⟨item.lo, b, ss, hrow, hsub, fun _ => ⟨item.lo, ?_, Nat.le_refl _, hplace⟩⟩
    rw [importPlace, hfind]

theorem placed_collect {m : Script.Module} {b : Nat} (h : Script.ItemRow m.text 0 b m.items)
    (source : List Char) (filename : String) (exempted : Nat) {importAt : Option ImportPlace}
    (hat : ∀ place ∈ importAt, place = importPlace m.items) :
    Prepared.Placed ⟨filename, (collect m source).candidates, exempted, importAt⟩ m.text := by
  obtain ⟨a, b, ss, hrow, hsub, himport⟩ := exists_row_messageFunctions h source
  have hsites := sublist_site_candidates m source
  refine ⟨a, b, ss, hrow, hsites.subperm.trans hsub, fun hne place hplace => ?_⟩
  have hfound : Collect.messageFunctions m source ≠ [] := by
    intro hnil
    rw [hnil] at hsites
    exact hne (List.map_eq_nil_iff.mp (List.sublist_nil.mp hsites))
  obtain ⟨n, hn, hle, hplaceN⟩ := himport hfound
  exact ⟨n, (hat place hplace).trans hn, hle, hplaceN⟩

theorem skipByteOrderMark_eq {cs : List Char} (h : cs.head? ≠ some '\uFEFF') :
    Script.skipByteOrderMark cs = cs := by
  cases cs with
  | nil => rfl
  | cons c cs =>
    have hne : c.toNat ≠ 0xfeff := fun hc => h (congrArg some (Char.toNat_inj.mp hc))
    rw [Script.skipByteOrderMark, if_neg hne]

/-- A beginning of a text stays one when a byte order mark is skipped. -/
theorem prefix_skipByteOrderMark {cs text : List Char} (h : cs <+: text) :
    Script.skipByteOrderMark cs <+: Script.skipByteOrderMark text := by
  obtain ⟨rest, rfl⟩ := h
  cases cs with
  | nil => exact List.nil_prefix
  | cons c cs =>
    rw [List.cons_append, Script.skipByteOrderMark, Script.skipByteOrderMark]
    split
    · exact List.prefix_append _ _
    · exact List.prefix_append (c :: cs) rest

/-- A file is prepared with its sites in a row of what has been parsed of it. -/
theorem placed_prepare_of_readModule {source filename : String} {m : Script.Module}
    (h : readModule source filename = some m) (o : Options) :
    (prepare source filename o).Placed m.text := by
  obtain ⟨jsx, cs, -, hparse⟩ := exists_of_readModule h
  obtain ⟨-, b, hrow⟩ := Script.itemRow_of_parse hparse
  have hplaced := placed_collect hrow source.toList filename (collect m source.toList).exempted
    fun place hplace => eq_importPlace (o := o) h (by rwa [importAt_prepare h])
  rwa [prepare_of_readModule h]

/-- A file is prepared with its sites in a row of the text behind a byte order mark. -/
theorem placed_prepare_text (source filename : String) (o : Options) :
    (prepare source filename o).Placed (Script.skipByteOrderMark source.toList) := by
  cases hread : readModule source filename with
  | none =>
    rw [prepare_of_readModule_eq_none hread]
    exact ⟨0, 0, [], .nil (Nat.le_refl 0), List.Subperm.refl _, fun hne => absurd rfl hne⟩
  | some m =>
    obtain ⟨jsx, cs, hcs, hparse⟩ := exists_of_readModule hread
    obtain ⟨rest, hrest⟩ := prefix_skipByteOrderMark hcs
    rw [← hrest, ← (Script.itemRow_of_parse hparse).1]
    exact (placed_prepare_of_readModule hread o).extend rest

/-- A file that does not begin with a byte order mark is prepared with its sites in a row. -/
theorem placed_prepare (source filename : String) (o : Options)
    (hmark : source.toList.head? ≠ some '\uFEFF') :
    (prepare source filename o).Placed source.toList := by
  have h := placed_prepare_text source filename o
  rwa [skipByteOrderMark_eq hmark] at h

/-! ### Edits -/

/-- The byte at which something is imported. -/
def ImportPlace.offset : ImportPlace → Nat
  | before n => n
  | after n => n

/-- The places of a prepared file are places between the characters of a text. -/
structure Prepared.Cuts (p : Prepared) (text : List Char) : Prop where
  start : ∀ c ∈ p.candidates, IsBoundary 0 text c.start
  stop : ∀ c ∈ p.candidates, IsBoundary 0 text c.stop
  importAt : ∀ place ∈ p.importAt, IsBoundary 0 text place.offset

@[simp] theorem Prepared.importEdit_start (place : ImportPlace) (o : Options) :
    (importEdit place o).start = place.offset := by
  cases place <;> rfl

@[simp] theorem Prepared.importEdit_stop (place : ImportPlace) (o : Options) :
    (importEdit place o).stop = place.offset := by
  cases place <;> rfl

section

variable {p : Prepared} {text : List Char} {o : Options} {ids : List String}

theorem Prepared.exists_of_mem_calls {cs : List Candidate} {e : Edit}
    (he : e ∈ List.zipWith (callEdit o) cs ids) :
    ∃ c ∈ cs, e.start = c.start ∧ e.stop = c.stop := by
  obtain ⟨i, hi, rfl⟩ := List.mem_iff_getElem.mp he
  rw [List.getElem_zipWith]
  exact ⟨_, List.getElem_mem _, rfl, rfl⟩

theorem Prepared.exists_of_mem_import {e : Edit}
    (he : e ∈ (p.importAt.map fun place => importEdit place o).toList) :
    ∃ place ∈ p.importAt, e = importEdit place o := by
  obtain ⟨place, hplace, heq⟩ := Option.map_eq_some_iff.mp (Option.mem_toList.mp he)
  exact ⟨place, hplace, heq.symm⟩

/-- Edits of what is apart are apart. -/
theorem Prepared.pairwise_calls {cs : List Candidate}
    (h : cs.Pairwise fun c d => c.stop ≤ d.start ∨ d.stop ≤ c.start) (o : Options)
    (ids : List String) : (List.zipWith (callEdit o) cs ids).Pairwise fun a b =>
      a.stop ≤ b.start ∨ b.stop ≤ a.start := by
  induction h generalizing ids with
  | nil => exact .nil
  | @cons c cs hc hcs ih =>
    cases ids with
    | nil => exact .nil
    | cons id ids =>
      refine .cons (fun e he => ?_) (ih ids)
      obtain ⟨d, hd, hstart, hstop⟩ := exists_of_mem_calls he
      rw [hstart, hstop]
      exact hc d hd

namespace Prepared.Placed

/-- No two candidates reach into each other. -/
theorem pairwise_candidates (h : p.Placed text) :
    p.candidates.Pairwise fun c d => c.stop ≤ d.start ∨ d.stop ≤ c.start := by
  obtain ⟨a, b, ss, hrow, ⟨ts, hperm, hsub⟩, -⟩ := h
  have hapart : ts.Pairwise fun s t => s.hi ≤ t.lo ∨ t.hi ≤ s.lo :=
    (hrow.pairwise.sublist hsub).imp .inl
  exact List.pairwise_map.mp (hperm.pairwise hapart fun h => h.symm)

/-- The places of a row are places of its text. -/
theorem cuts (h : p.Placed text) (hne : p.candidates ≠ []) : p.Cuts text := by
  obtain ⟨a, b, ss, hrow, hsub, himport⟩ := h
  have hcall : ∀ c ∈ p.candidates, IsBoundary 0 text c.start ∧ IsBoundary 0 text c.stop := by
    intro c hc
    obtain ⟨place, -, hstands, -⟩ := hrow.exists_place (hsub.subset (List.mem_map_of_mem hc))
    exact ⟨hstands.lead.isBoundary, hstands.isPlace_hi.isBoundary⟩
  refine ⟨fun c hc => (hcall c hc).1, fun c hc => (hcall c hc).2, fun place hplace => ?_⟩
  obtain ⟨n, rfl, -, hn⟩ := himport hne place hplace
  exact hn.isBoundary

/-- The edits of a file do not overlap, whatever text they are meant for. -/
theorem apart (h : p.Placed text) (hne : p.candidates ≠ []) (o : Options) (ids : List String) :
    (∀ e ∈ p.edits o ids, e.start ≤ e.stop) ∧
      (p.edits o ids).Pairwise fun a b => a.stop ≤ b.start ∨ b.stop ≤ a.start := by
  have hpairwise := h.pairwise_candidates
  obtain ⟨a, b, ss, hrow, hsub, himport⟩ := h
  have hcall : ∀ c ∈ p.candidates, a ≤ c.start ∧ c.start ≤ c.stop := by
    intro c hc
    obtain ⟨place, hle, hstands, -⟩ := hrow.exists_place (hsub.subset (List.mem_map_of_mem hc))
    exact ⟨Nat.le_trans hle hstands.lead.le, Nat.le_of_lt hstands.lt⟩
  have hruntime : ∀ place ∈ p.importAt, (importEdit place o).stop ≤ a := by
    intro place hplace
    obtain ⟨n, rfl, hle, -⟩ := himport hne place hplace
    exact hle
  constructor
  · intro e he
    rcases List.mem_append.mp he with he | he
    · obtain ⟨c, hc, hstart, hstop⟩ := exists_of_mem_calls he
      rw [hstart, hstop]
      exact (hcall c hc).2
    · obtain ⟨place, -, rfl⟩ := exists_of_mem_import he
      rw [importEdit_start, importEdit_stop]
  · refine List.pairwise_append.mpr ⟨pairwise_calls hpairwise o ids, ?_, fun e he e' he' => ?_⟩
    · cases p.importAt with
      | none => exact .nil
      | some place => exact List.pairwise_singleton _ _
    · obtain ⟨c, hc, hstart, -⟩ := exists_of_mem_calls he
      obtain ⟨place, hplace, rfl⟩ := exists_of_mem_import he'
      have := (hcall c hc).1
      have := hruntime place hplace
      omega

/-- The edits of a file can be applied to every text that has their places. -/
theorem applicable_of_cuts (h : p.Placed text) (hne : p.candidates ≠ []) {source : List Char}
    (hcuts : p.Cuts source) (o : Options) (ids : List String) :
    Applicable (p.edits o ids) source := by
  obtain ⟨hle, hapart⟩ := h.apart hne o ids
  refine ⟨hle, fun e he => ?_, fun e he => ?_, hapart⟩
  · rcases List.mem_append.mp he with he | he
    · obtain ⟨c, hc, hstart, -⟩ := exists_of_mem_calls he
      rw [hstart]
      exact hcuts.start c hc
    · obtain ⟨place, hplace, rfl⟩ := exists_of_mem_import he
      rw [importEdit_start]
      exact hcuts.importAt place hplace
  · rcases List.mem_append.mp he with he | he
    · obtain ⟨c, hc, -, hstop⟩ := exists_of_mem_calls he
      rw [hstop]
      exact hcuts.stop c hc
    · obtain ⟨place, hplace, rfl⟩ := exists_of_mem_import he
      rw [importEdit_stop]
      exact hcuts.importAt place hplace

theorem applicable (h : p.Placed text) (hne : p.candidates ≠ []) (o : Options)
    (ids : List String) : Applicable (p.edits o ids) text :=
  h.applicable_of_cuts hne (h.cuts hne) o ids

/-- A candidate stands behind its lead and a gap, and no edit reaches in between. -/
theorem exists_lead (h : p.Placed text) {c : Candidate} (hc : c ∈ p.candidates) :
    ∃ before gap old after, text = before ++ (c.shape.lead.spelling ++ gap ++ (old ++ after)) ∧
      kindAt before (c.shape.lead.spelling ++ (gap ++ (old ++ after))) = c.shape.lead.kind ∧
      (∀ x ∈ gap.head?, isSpace x = true ∨ x = '/') ∧ old ≠ [] ∧
      c.start = byteLength before + byteLength (c.shape.lead.spelling ++ gap) ∧
      c.stop = c.start + byteLength old ∧
      ∀ o ids, ∀ e ∈ p.edits o ids,
        e.stop ≤ byteLength before ∨ (c.start ≤ e.start ∧ c.start < e.stop) := by
  obtain ⟨a, b, ss, hrow, hsub, himport⟩ := h
  have hmem : ∀ d ∈ p.candidates, d.site ∈ ss := fun d hd => hsub.subset (List.mem_map_of_mem hd)
  obtain ⟨place, hle, hstands, hothers⟩ := hrow.exists_place (hmem c hc)
  obtain ⟨before, gap, old, after, htext, hread, hgap, hold, rfl, hstart, hstop⟩ :=
    hstands.exists_split
  refine ⟨before, gap, old, after, htext, hread, hgap, hold, hstart, hstop, fun o ids e he => ?_⟩
  rcases List.mem_append.mp he with he | he
  · obtain ⟨d, hd, hstart', hstop'⟩ := exists_of_mem_calls he
    obtain ⟨_, -, hstands', -⟩ := hrow.exists_place (hmem d hd)
    have hlt : c.start < c.stop := hstands.lt
    have hlt' : d.start < d.stop := hstands'.lt
    rw [hstart', hstop']
    -- another candidate lies in front of the lead or behind the old text
    rcases hothers d.site (hmem d hd) with hbefore | heq | hbehind
    · exact .inl hbefore
    · obtain ⟨-, heq, heq', -⟩ := Site.mk.inj heq
      exact .inr ⟨Nat.le_of_eq heq.symm, heq' ▸ hlt⟩
    · exact .inr ⟨Nat.le_trans (Nat.le_of_lt hlt) hbehind,
        Nat.lt_of_lt_of_le hlt (Nat.le_trans hbehind (Nat.le_of_lt hlt'))⟩
  · obtain ⟨place, hplace, rfl⟩ := exists_of_mem_import he
    obtain ⟨n, rfl, hn, -⟩ := himport (List.ne_nil_of_mem hc) place hplace
    exact .inl (Nat.le_trans hn hle)

end Prepared.Placed

end

end Phrasebook
