import Phrasebook.Proofs.StoreCalls
import Mathlib.Logic.Relation

/-!
# Steps on a store

`Step s s'` is one operation that changes a store while messages are recorded: a text is interned,
a pair is given an id, or a message is added under an id that its own pair owns. Recording is made
of such steps (`record_steps`, `recordAll_steps`, `steps_runCalls`). So what one step keeps is kept
by all calls but `clear`, in whatever order: a store stays coherent, it retains texts, ids and
messages with all that is in their sets (`Retains`), and these sets are ascending (`Tidy`).
-/

namespace Phrasebook

open Relation (ReflTransGen)

theorem Message.mem_comments_merge {a b : Message} {text : String} :
    text ∈ (a.merge b).comments ↔ text ∈ a.comments ∨ text ∈ b.comments :=
  Sorted.mem_union Sorted.strictOrder_textLt.trichotomous

theorem Pool.mem_intern {p : Pool} {text text' : String} :
    text' ∈ (p.intern text).2.texts ↔ text' = text ∨ text' ∈ p.texts := by
  unfold Pool.intern
  cases h : p.texts.idxOf? text with
  | none => simp [or_comm]
  | some i =>
    have hmem : text ∈ p.texts := by
      by_contra hnot
      rw [List.idxOf?_eq_none_iff.mpr hnot] at h
      simp at h
    exact ⟨.inr, fun hor => hor.elim (fun e => e ▸ hmem) id⟩

/-- The sets of a message are ascending lists. -/
structure Message.Tidy (m : Message) : Prop where
  locations : Sorted.Ascending Location.lt m.locations
  comments : Sorted.Ascending Sorted.textLt m.comments

theorem Message.Tidy.merge {a : Message} (h : a.Tidy) (b : Message) : (a.merge b).Tidy :=
  ⟨Sorted.ascending_union Sorted.strictOrder_locationLt h.locations,
    Sorted.ascending_union Sorted.strictOrder_textLt h.comments⟩

theorem tidy_messageOf (filename id : String) (c : Candidate) : (messageOf filename id c).Tidy := by
  refine ⟨List.pairwise_singleton _ _, ?_⟩
  cases h : c.comment <;> simp [messageOf, Sorted.Ascending, h]

namespace Store

/-- One operation of recording. -/
inductive Step (s : Store) : Store → Prop where
  | intern (text : String) : Step s (s.intern text)
  | assign {text : String} {context : Option String} {length : Nat} {id : String} {s' : Store}
      (h : s.assignId text context length = some (id, s')) : Step s s'
  | add {m : Message} (owned : s.ids.owner? m.id = some (.of m.text m.context))
      (context_ne : m.context ≠ some "") (tidy : m.Tidy) : Step s (s.add m)

/-- What a store knows, another one knows as well. -/
structure Retains (s s' : Store) : Prop extends s.Grows s' where
  texts : ∀ {text}, text ∈ s.pool.texts → text ∈ s'.pool.texts
  comments : ∀ {id m}, s.get? id = some m → ∃ m', s'.get? id = some m' ∧
    ∀ text ∈ m.comments, text ∈ m'.comments

theorem Retains.refl (s : Store) : s.Retains s :=
  ⟨.refl s, id, fun {_ m} h => ⟨m, h, fun _ ht => ht⟩⟩

theorem Retains.trans {s s' s'' : Store} (h : s.Retains s') (h' : s'.Retains s'') :
    s.Retains s'' := by
  refine ⟨h.toGrows.trans h'.toGrows, fun ht => h'.texts (h.texts ht), fun hm => ?_⟩
  obtain ⟨m', hm', ht⟩ := h.comments hm
  obtain ⟨m'', hm'', ht'⟩ := h'.comments hm'
  exact ⟨m'', hm'', fun text htext => ht' text (ht text htext)⟩

/-- The sets of all messages are ascending lists. -/
def Tidy (s : Store) : Prop := ∀ m ∈ s.messages, m.Tidy

variable {s s' : Store}

/-! ### One step -/

theorem Coherent.step (h : s.Coherent) (hs : s.Step s') : s'.Coherent := by
  cases hs with
  | intern text => exact h.intern text
  | assign ha => exact h.assignId ha
  | add owned context_ne _ => exact h.add owned context_ne

theorem Coherent.retains_step (h : s.Coherent) (hs : s.Step s') : s.Retains s' := by
  cases hs with
  | intern text =>
    exact ⟨grows_intern s text, fun ht => Pool.mem_intern.mpr (.inr ht),
      fun {_ m} hm => ⟨m, hm, fun _ ht => ht⟩⟩
  | assign ha =>
    have hgrows := h.grows_assignId ha
    obtain ⟨ids, -, rfl⟩ := assignId_eq_some.mp ha
    exact ⟨hgrows, id, fun {_ m} hm => ⟨m, hm, fun _ ht => ht⟩⟩
  | @add m _ _ _ =>
    refine ⟨h.grows_add m, id, fun {id old} hold => ?_⟩
    rw [get?_add h.ascending, hold]
    by_cases hid : id = m.id
    · rw [if_pos hid]
      exact ⟨old.merge m, rfl, fun text ht => Message.mem_comments_merge.mpr (.inl ht)⟩
    · rw [if_neg hid]
      exact ⟨old, rfl, fun _ ht => ht⟩

theorem Tidy.step (h : s.Tidy) (hs : s.Step s') : s'.Tidy := by
  cases hs with
  | intern text => exact h
  | assign ha =>
    obtain ⟨ids, -, rfl⟩ := assignId_eq_some.mp ha
    exact h
  | @add m _ _ tidy =>
    intro x hx
    rcases mem_insertMessage hx with hx | rfl | ⟨y, hy, -, rfl⟩
    · exact h x hx
    · exact tidy
    · exact (h y hy).merge m

/-! ### Any number of steps -/

theorem Coherent.steps (h : s.Coherent) (hs : ReflTransGen Step s s') :
    s'.Coherent ∧ s.Retains s' := by
  induction hs with
  | refl => exact ⟨h, .refl s⟩
  | tail _ hstep ih => exact ⟨ih.1.step hstep, ih.2.trans (ih.1.retains_step hstep)⟩

theorem Tidy.steps (h : s.Tidy) (hs : ReflTransGen Step s s') : s'.Tidy := by
  induction hs with
  | refl => exact h
  | tail _ hstep ih => exact ih.step hstep

end Store

/-! ### Calls are made of steps -/

section Recording

open Store (Step)

variable {s : Store}

theorem record_steps (h : s.Coherent) (filename : String) (idLength : Nat) (c : Candidate) :
    ReflTransGen Step s (record filename idLength c s).2 := by
  have hintern : ReflTransGen Step s (s.intern c.text) := .single (.intern c.text)
  obtain he | ⟨id, s', ha, he⟩ := record_cases filename idLength c s <;> rw [he]
  · exact hintern
  · exact (hintern.tail (.assign ha)).tail
      (.add ((h.intern c.text).owner?_assignId ha) c.context_ne_empty (tidy_messageOf _ _ _))

theorem recordAll_steps (h : s.Coherent) (filename : String) (idLength : Nat)
    (cs : List Candidate) : ReflTransGen Step s (recordAll filename idLength cs s).2 := by
  have hstep : ∀ c s₁, s₁.Coherent ∧ ReflTransGen Step s s₁ →
      (record filename idLength c s₁).2.Coherent ∧
        ReflTransGen Step s (record filename idLength c s₁).2 := fun c s₁ hs₁ =>
    ⟨(record_coherent hs₁.1 filename idLength c).1,
      hs₁.2.trans (record_steps hs₁.1 filename idLength c)⟩
  exact (recordAll_invariant hstep cs ⟨h, .refl⟩).2

theorem Prepared.apply_steps (p : Prepared) (source : String) (o : Options) (h : s.Coherent) :
    ReflTransGen Step s (p.apply source o s).2 := by
  rw [apply_snd]
  exact recordAll_steps h p.filename o.idLength p.candidates

theorem StoreCall.steps_run (h : s.Coherent) {call : StoreCall} (hc : call ≠ .clear) :
    ReflTransGen Step s (call.run s) := by
  cases call with
  | transform source filename o => exact Prepared.apply_steps _ source o h
  | apply p source o => exact p.apply_steps source o h
  | assignId text context length =>
    simp only [run]
    split
    · exact .single (.assign ‹_›)
    · exact .refl
  | intern text => exact .single (.intern text)
  | clear => exact absurd rfl hc

theorem steps_runCalls (h : s.Coherent) {calls : List StoreCall} (hc : .clear ∉ calls) :
    ReflTransGen Step s (runCalls calls s) := by
  induction calls generalizing s with
  | nil => exact .refl
  | cons call calls ih =>
    obtain ⟨hne, hcs⟩ := not_or.mp (List.mem_cons.not.mp hc)
    exact (StoreCall.steps_run h (Ne.symm hne)).trans (ih (call.coherent_run h) hcs)

theorem tidy_runCalls (h : s.Coherent) (htidy : s.Tidy) (calls : List StoreCall) :
    (runCalls calls s).Tidy := by
  induction calls generalizing s with
  | nil => exact htidy
  | cons call calls ih =>
    refine ih (call.coherent_run h) ?_
    by_cases hc : call = .clear
    · subst hc
      simp [Store.Tidy, StoreCall.run, Store.clear]
    · exact htidy.steps (StoreCall.steps_run h hc)

end Recording

end Phrasebook
