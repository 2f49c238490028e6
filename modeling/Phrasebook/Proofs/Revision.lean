import Phrasebook.Proofs.Revision.Check

/-!
# Transforming a file again

A second run reads the text that the first one has made. Where calls have taken the places of texts,
nothing is left to translate; what remains are the functions that the first run has exempted, and
each of them is exempt again as long as its mark is found in the text in front of it. A mark can get
lost: the text that is searched may hold another message function, in a computed key, and a mark in
its text gives way to a call with that text. `transform_again` says exactly what a second run finds,
and `transform_keyedMark` is a file that is changed by it.

How the new text is read is taken as given (`ReadAgain`); `readAgainCheck` computes it.
-/

namespace Phrasebook

open Collect (front searched)
open Script (Module)
open Splice (Applicable insertedAt outputFrom)
open Text (slice?)

/-! ### What is found in a module -/

theorem forall₂_comp {α β γ : Type} {R : α → β → Prop} {S : β → γ → Prop} {T : α → γ → Prop}
    (hT : ∀ a b c, R a b → S b c → T a c) {as : List α} {bs : List β} {cs : List γ}
    (h : List.Forall₂ R as bs) (h' : List.Forall₂ S bs cs) : List.Forall₂ T as cs := by
  induction h generalizing cs with
  | nil =>
    cases h'
    exact .nil
  | cons h hs ih =>
    cases h' with
    | cons h' hs' => exact .cons (hT _ _ _ h h') (ih hs')

section

variable {source filename : String} {m : Module}

theorem filter_messageFunctions (m : Module) (source : List Char) (p : MessageFunction → Bool) :
    ((Collect.messageFunctions m source).filter fun a => p a.2).map Prod.snd =
      ((placedOf m.items).filter fun f => p (f.messageFunction m source)).map
        fun f => f.messageFunction m source := by
  calc ((Collect.messageFunctions m source).filter fun a => p a.2).map Prod.snd
      = ((Collect.messageFunctions m source).map Prod.snd).filter p := by
        rw [List.filter_map]
        rfl
    _ = _ := by
        rw [map_snd_messageFunctions, List.filter_map]
        rfl

theorem map_range_filter (m : Module) (source : List Char) (p : MessageFunction → Bool) :
    ((Collect.messageFunctions m source).filter fun a => p a.2).map (fun a => a.2.range) =
      ((placedOf m.items).filter fun f => p (f.messageFunction m source)).map
        PlacedFunction.range := by
  have h := congrArg (List.map MessageFunction.range) (filter_messageFunctions m source p)
  rw [List.map_map, List.map_map] at h
  exact h

/-- The candidates of a file are its message functions that are not exempt; the others are
counted. -/
theorem forall₂_candidates_prepare (h : readModule source filename = some m) (o : Options) :
    List.Forall₂ (fun f c => (f.messageFunction m source.toList).Yields c)
        ((placedOf m.items).filter fun f => !(f.doc m source.toList).isExempt)
        (prepare source filename o).candidates ∧
      (prepare source filename o).exempted =
        ((placedOf m.items).filter fun f => (f.doc m source.toList).isExempt).length := by
  constructor
  · have hyields : List.Forall₂ MessageFunction.Yields
        (((Collect.messageFunctions m source.toList).filter fun a => !a.2.doc.isExempt).map
          Prod.snd) (collect m source.toList).candidates :=
      List.forall₂_map_left_iff.mpr (Collect.forall₂_candidates m source.toList).1
    rw [filter_messageFunctions m source.toList fun f => !f.doc.isExempt] at hyields
    rw [candidates_prepare h]
    exact List.forall₂_map_left_iff.mp hyields
  · have hlength := congrArg List.length
      (filter_messageFunctions m source.toList fun f => f.doc.isExempt)
    rw [List.length_map, List.length_map] at hlength
    exact (exempted_eq_length h o).trans hlength

theorem map_range_candidates (h : readModule source filename = some m) (o : Options) :
    (prepare source filename o).candidates.map Candidate.range =
      ((placedOf m.items).filter fun f => !(f.doc m source.toList).isExempt).map
        PlacedFunction.range := by
  rw [candidates_prepare h, map_range_of_forall₂ (Collect.forall₂_candidates m source.toList).1]
  exact map_range_filter m source.toList fun f => !f.doc.isExempt

/-- The ranges of the candidates are those of the message functions that are not exempt, and no
others: no range belongs to two functions. -/
theorem range_mem_candidates_iff (h : readModule source filename = some m) (o : Options)
    {f : PlacedFunction} (hf : f ∈ placedOf m.items) :
    f.range ∈ (prepare source filename o).candidates.map Candidate.range ↔
      (f.doc m source.toList).isExempt = false := by
  constructor
  · intro hmem
    by_contra hexempt
    rw [Bool.not_eq_false] at hexempt
    have hmem' : f.range ∈ ((Collect.messageFunctions m source.toList).filter
        fun a => a.2.doc.isExempt).map fun a => a.2.range := by
      rw [map_range_filter m source.toList fun f => f.doc.isExempt]
      exact List.mem_map_of_mem (List.mem_filter.mpr ⟨hf, hexempt⟩)
    -- the range would stand apart from itself, but it is not empty
    have hpairwise := (perm_ranges h o).symm.pairwise (pairwise_ranges h) Apart.symm
    have hapart : Apart f.range f.range :=
      (List.pairwise_append.mp hpairwise).2.2 _ hmem _ hmem'
    obtain ⟨a, ha, hrange⟩ := List.mem_map.mp hmem'
    have hlt := (range_of_mem h (List.mem_filter.mp ha).1).1
    rw [hrange] at hlt
    rcases hapart with hle | hle <;> omega
  · intro hexempt
    rw [map_range_candidates h o]
    exact List.mem_map_of_mem (List.mem_filter.mpr ⟨hf, by rw [hexempt]; rfl⟩)

end

/-! ### Documentation after the edits -/

namespace PlacedFunction

/-- The documentation of a message function when the text in front of it is searched with the edits
in it. -/
def docAfter (edits : List Edit) (m : Module) (source : List Char) (f : PlacedFunction) :
    ResolvedDoc :=
  DocLookup.resolve [m.leadingAt f.propertyLo, m.leadingAt f.functionLo]
    (searched f.previousEnd.isSome
      (outputFrom edits f.frontLo (front source f.previousEnd f.brace f.functionLo)))

variable (m : Module) (source : List Char) (f : PlacedFunction)

theorem doc_eq : f.doc m source = DocLookup.resolve
    [m.leadingAt f.propertyLo, m.leadingAt f.functionLo]
    (searched f.previousEnd.isSome (front source f.previousEnd f.brace f.functionLo)) := by
  rw [doc, Collect.docOf_eq, Nat.max_eq_left f.propertyLo_le]

theorem docAfter_nil : f.docAfter [] m source = f.doc m source := by
  rw [docAfter, Splice.outputFrom_nil, doc_eq]

/-- Edits elsewhere do not change it. -/
theorem docAfter_of_apart {edits : List Edit} (hlo : insertedAt edits f.frontLo = [])
    (hhi : insertedAt edits f.functionLo = [])
    (h : ∀ e ∈ edits, Apart e.range (f.frontLo, f.functionLo)) :
    f.docAfter edits m source = f.doc m source := by
  have hfront : outputFrom edits f.frontLo (front source f.previousEnd f.brace f.functionLo) =
      front source f.previousEnd f.brace f.functionLo := by
    rw [front, ← frontLo]
    cases hslice : slice? source f.frontLo f.functionLo with
    | none => exact hlo
    | some text =>
      obtain ⟨-, -, -, -, hlength⟩ := Text.exists_of_slice? hslice
      rw [← hlength] at hhi h
      exact outputFrom_of_apart hlo hhi h
  rw [docAfter, hfront, doc_eq]

end PlacedFunction

namespace Revision

variable {r : Revision} {f f' : PlacedFunction}

theorem Again.frontLo (h : r.Again f f') : Moves r.edits r.source f.frontLo f'.frontLo := by
  have hprevious := h.previousEnd
  unfold PlacedFunction.frontLo
  generalize f.previousEnd = e at hprevious ⊢
  generalize f'.previousEnd = e' at hprevious ⊢
  cases hprevious with
  | none => exact h.brace
  | some hend => exact hend

theorem Again.isSome_previousEnd (h : r.Again f f') :
    f'.previousEnd.isSome = f.previousEnd.isSome := by
  have hprevious := h.previousEnd
  generalize f.previousEnd = e at hprevious ⊢
  generalize f'.previousEnd = e' at hprevious ⊢
  cases hprevious <;> rfl

theorem Again.doc_eq (h : r.Again f f') :
    f'.doc r.new (outputFrom r.edits 0 r.source) = f.docAfter r.edits r.old r.source := by
  have hfront := front_outputFrom h.frontLo h.functionLo
  rw [PlacedFunction.doc_eq, PlacedFunction.docAfter, h.leadingProperty, h.leadingFunction,
    h.isSome_previousEnd, front, ← PlacedFunction.frontLo, hfront]
  rfl

/-! ### What is found in the new text -/

variable {new filename : String} {fs : List PlacedFunction}

/-- Of the functions that are found again those are candidates whose mark is not found any more. -/
theorem forall₂_candidates (hnew : new.toList = outputFrom r.edits 0 r.source)
    (hread : readModule new filename = some r.new)
    (h : List.Forall₂ r.Again fs (placedOf r.new.items)) (o : Options) :
    let lost := fs.filter fun f => !(f.docAfter r.edits r.old r.source).isExempt
    List.Forall₂ (fun f c => c.shape = f.shape ∧ c.text = f.text ∧
        c.doc = (f.docAfter r.edits r.old r.source).doc) lost (prepare new filename o).candidates ∧
      (prepare new filename o).exempted + lost.length = fs.length := by
  intro lost
  have hdocs : ∀ f f', r.Again f f' →
      f'.doc r.new new.toList = f.docAfter r.edits r.old r.source := by
    intro f f' h
    rw [hnew]
    exact h.doc_eq
  obtain ⟨hcandidates, hexempted⟩ := forall₂_candidates_prepare hread o
  -- both lists are cut by the same question, asked in the old text and in the new one
  have hlost : List.Forall₂ r.Again lost
      ((placedOf r.new.items).filter fun f => !(f.doc r.new new.toList).isExempt) := by
    refine List.rel_filter (fun f f' h => ?_) h
    simp only [hdocs f f' h]
  have hstill : List.Forall₂ r.Again
      (fs.filter fun f => (f.docAfter r.edits r.old r.source).isExempt)
      ((placedOf r.new.items).filter fun f => (f.doc r.new new.toList).isExempt) := by
    refine List.rel_filter (fun f f' h => ?_) h
    simp only [hdocs f f' h]
  constructor
  · refine forall₂_comp (fun f f' c h hc => ?_) hlost hcandidates
    refine ⟨hc.shape.trans h.shape, hc.text.trans h.text, hc.doc.trans ?_⟩
    rw [← hdocs f f' h]
    rfl
  · rw [fs.length_eq_length_filter_add fun f => (f.docAfter r.edits r.old r.source).isExempt,
      hstill.length_eq]
    exact congrArg (· + lost.length) hexempted

/-- The mark of a function can only be lost by an edit in the text in front of it. -/
theorem exists_edit_of_lost (h : List.Forall₂ r.Again fs (placedOf r.new.items))
    (hf : f ∈ fs) (hexempt : (f.doc r.old r.source).isExempt = true)
    (hlost : (f.docAfter r.edits r.old r.source).isExempt = false) :
    ∃ e ∈ r.edits, ¬ Apart e.range (f.frontLo, f.functionLo) := by
  by_contra hnone
  have hapart : ∀ e ∈ r.edits, Apart e.range (f.frontLo, f.functionLo) := by
    simpa only [not_exists, not_and, not_not] using hnone
  obtain ⟨i, hi, rfl⟩ := List.getElem_of_mem hf
  have hagain := h.get hi (h.length_eq ▸ hi)
  have hdoc := PlacedFunction.docAfter_of_apart r.old r.source fs[i] hagain.frontLo.1
    hagain.functionLo.1 hapart
  rw [hdoc, hexempt] at hlost
  cases hlost

end Revision

/-! ### The second run -/

/-- The exempt message functions in the first `k` items of a module. -/
def exemptFunctions (m : Module) (source : List Char) (k : Nat) : List PlacedFunction :=
  (placedOf (m.items.take k)).filter fun f => (f.doc m source).isExempt

/-- Those whose mark is not found any more when the edits have been made. -/
def lostFunctions (edits : List Edit) (m : Module) (source : List Char) (k : Nat) :
    List PlacedFunction :=
  (exemptFunctions m source k).filter fun f => !(f.docAfter edits m source).isExempt

/-- The edits that an application makes, none if nothing is to be translated. -/
def Prepared.appliedEdits (p : Prepared) (o : Options) (s : Store) : List Edit :=
  if p.candidates = [] then []
  else
    match (recordAll p.filename o.idLength p.candidates s).1 with
    | .ok ids => p.edits o ids
    | .error _ => []

/-- The revision that a run makes of a file. -/
def revisionOf (source filename : String) (o : Options) (s : Store) (old new : Module) :
    Revision where
  source := source.toList
  edits := (prepare source filename o).appliedEdits o s
  calls := (prepare source filename o).candidates.map Candidate.range
  old
  new

/-- The first `k` items of a file, and no others, are read again in the text that a run has made of
it. That text may be one that cannot be read up to its end. -/
structure ReadAgain (source filename : String) (o : Options) (s : Store) (m : Module)
    (code : String) (k : Nat) : Prop where
  all : (prepare source filename o).candidates = [] → m.items.length ≤ k
  read : (prepare source filename o).candidates ≠ [] →
    ∀ m' ∈ readModule code filename, (revisionOf source filename o s m m').Reads k
  unread : (prepare source filename o).candidates ≠ [] → readModule code filename = none → k = 0

/-- Whether they are read again with candidates among them and an import as item number `i`. -/
def readAgainCheck (source filename : String) (o : Options) (s : Store) (m : Module)
    (code : String) (k i : Nat) : Bool :=
  !(prepare source filename o).candidates.isEmpty &&
    (readModule code filename).any fun m' =>
      (revisionOf source filename o s m m').readsCheck k i

theorem readAgain_of_check {source filename code : String} {o : Options} {s : Store} {m : Module}
    {k i : Nat} (h : readAgainCheck source filename o s m code k i = true) :
    ReadAgain source filename o s m code k := by
  rw [readAgainCheck, Bool.and_eq_true, Bool.not_eq_true', List.isEmpty_eq_false_iff] at h
  obtain ⟨m', hm', hcheck⟩ := (Option.any_eq_true ..).mp h.2
  refine ⟨fun hnil => absurd hnil h.1, fun _ m'' hm'' => ?_, fun _ hnone => ?_⟩
  · obtain rfl : m'' = m' := Option.some.inj (hm''.symm.trans hm')
    exact Revision.reads_of_check hcheck
  · rw [hm'] at hnone
    cases hnone

theorem toList_code_of_transform {source filename : String} {o : Options} {s : Store} {out : Output}
    (hmark : source.toList.head? ≠ some '\uFEFF')
    (hok : (transform source filename o s).1 = .ok out) :
    out.code.toList =
      outputFrom ((prepare source filename o).appliedEdits o s) 0 source.toList := by
  by_cases hne : (prepare source filename o).candidates = []
  · rw [transform, Prepared.apply_of_nil _ source o hne] at hok
    rw [← Except.ok.inj hok, Prepared.appliedEdits, if_pos hne, Splice.outputFrom_nil]
  · obtain ⟨ids, hids, hout⟩ := Prepared.exists_recordAll_of_apply hne hok
    have happlicable := applicable_edits_prepare hne (fun h => absurd h hmark) ids
    rw [hout, Prepared.appliedEdits, if_neg hne, hids]
    exact Splice.toList_apply happlicable (prepare source filename o).filename

/-- The functions that the first run has exempted, in the items that are read again. -/
theorem filter_range_notMem_calls {source filename : String} {m : Module}
    (hm : readModule source filename = some m) (o : Options) (k : Nat) :
    (placedOf (m.items.take k)).filter
        (fun f => f.range ∉ (prepare source filename o).candidates.map Candidate.range) =
      exemptFunctions m source.toList k := by
  refine List.filter_congr fun f hf => ?_
  have hmem : f ∈ placedOf m.items := by
    rw [← List.take_append_drop k m.items, placedOf_append]
    exact List.mem_append_left _ hf
  have hiff := range_mem_candidates_iff hm o hmem
  cases hdoc : (f.doc m source.toList).isExempt with
  | false => simpa using hiff.mpr hdoc
  | true =>
    rw [hdoc] at hiff
    simpa using hiff

theorem ReadAgain.again {source filename code : String} {o : Options} {s : Store} {m m' : Module}
    {k : Nat} (h : ReadAgain source filename o s m code k)
    (hm : readModule source filename = some m)
    (hne : (prepare source filename o).candidates ≠ []) (hm' : readModule code filename = some m') :
    List.Forall₂ (revisionOf source filename o s m m').Again (exemptFunctions m source.toList k)
      (placedOf m'.items) := by
  have hagain := (h.read hne m' hm').again
  have hkept : (placedOf ((revisionOf source filename o s m m').old.items.take k)).filter
      (fun f => f.range ∉ (revisionOf source filename o s m m').calls) =
        exemptFunctions m source.toList k := filter_range_notMem_calls hm o k
  rwa [hkept] at hagain

/-- A second run finds the functions that the first one has exempted and divides them anew. -/
theorem prepare_again {source filename : String} {o : Options} {s : Store} {out : Output}
    (hmark : source.toList.head? ≠ some '\uFEFF')
    (hok : (transform source filename o s).1 = .ok out) {m : Module}
    (hm : readModule source filename = some m) {k : Nat}
    (hread : ReadAgain source filename o s m out.code k) :
    let edits := (prepare source filename o).appliedEdits o s
    let lost := lostFunctions edits m source.toList k
    let again := prepare out.code filename o
    (List.Forall₂ (fun f c => c.shape = f.shape ∧ c.text = f.text ∧
        c.doc = (f.docAfter edits m source.toList).doc) lost again.candidates ∧
      again.exempted + lost.length = (exemptFunctions m source.toList k).length) ∧
      ∀ f ∈ lost, ∃ e ∈ edits, ¬ Apart e.range (f.frontLo, f.functionLo) := by
  intro edits lost again
  have hexempt : ∀ f ∈ exemptFunctions m source.toList k,
      (f.doc m source.toList).isExempt = true := fun f hf => (List.mem_filter.mp hf).2
  by_cases hne : (prepare source filename o).candidates = []
  · -- without a candidate the second run is the first one over again
    have hcode : out.code = source := by
      rw [transform, Prepared.apply_of_nil _ source o hne] at hok
      rw [← Except.ok.inj hok]
    have hnone : lost = [] := by
      refine List.filter_eq_nil_iff.mpr fun f hf => ?_
      have hedits : edits = [] := if_pos hne
      rw [hedits, f.docAfter_nil, hexempt f hf]
      decide
    have hagain : again = prepare source filename o := by rw [← hcode]
    have hitems : m.items.take k = m.items := List.take_of_length_le (hread.all hne)
    have hexempted := (forall₂_candidates_prepare hm o).2
    rw [← hitems, ← hagain, ← exemptFunctions] at hexempted
    rw [hnone]
    refine ⟨⟨?_, hexempted⟩, fun f hf => by cases hf⟩
    rw [hagain, hne]
    exact .nil
  · cases hm' : readModule out.code filename with
    | none =>
      obtain rfl : k = 0 := hread.unread hne hm'
      have hagain : again = { filename } := prepare_of_readModule_eq_none hm' o
      rw [hagain]
      exact ⟨⟨.nil, rfl⟩, fun f hf => absurd (show f ∈ [] from hf) List.not_mem_nil⟩
    | some m' =>
      have hcode := toList_code_of_transform hmark hok
      have hagain := hread.again hm hne hm'
      refine ⟨Revision.forall₂_candidates hcode hm' hagain o, fun f hf => ?_⟩
      obtain ⟨hmem, hlost⟩ := List.mem_filter.mp hf
      rw [Bool.not_eq_true'] at hlost
      exact Revision.exists_edit_of_lost hagain hmem (hexempt f hmem) hlost

/-- A message function in the key of another one, whose text is a comment with a mark as long as it
stands there. -/
def keyedMark : String :=
  "const m = \x7b [f(\x7b x: () => \"/** @notranslate */\" \x7d)]: () => \"Hello\" \x7d;"

set_option maxRecDepth 100000 in
theorem readAgain_keyedMark :
    ((transform keyedMark "a.ts" {} {}).1.toOption.any fun out =>
      (readModule keyedMark "a.ts").any fun m =>
        readAgainCheck keyedMark "a.ts" {} {} m out.code 1 0 &&
          (lostFunctions ((prepare keyedMark "a.ts" {}).appliedEdits {} {}) m keyedMark.toList
            1).map PlacedFunction.text == ["Hello"]) = true := by
  decide +kernel

theorem eq_ok_of_toOption {ε α : Type} {x : Except ε α} {a : α} (h : x.toOption = some a) :
    x = .ok a := by
  cases x with
  | ok b => exact congrArg _ (Option.some.inj h)
  | error e => cases h

theorem map_text_of_forall₂ {R : PlacedFunction → Candidate → Prop} {fs : List PlacedFunction}
    {cs : List Candidate} (h : List.Forall₂ R fs cs) (hR : ∀ f c, R f c → c.text = f.text) :
    cs.map Candidate.text = fs.map PlacedFunction.text := by
  induction h with
  | nil => rfl
  | cons h hs ih => rw [List.map_cons, List.map_cons, hR _ _ h, ih]

end Phrasebook
