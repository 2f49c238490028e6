import Phrasebook.Proofs.Store.Steps

/-!
# Applying a prepared file again

A candidate is settled under an id when the store has all that recording it would bring: its text,
its id, and its location and comment in the message with that id. Recording settles a candidate
(`record_settledAs`), later steps keep it settled (`Retains.settledAs`), and recording it once more
changes nothing and gives the same id, whatever length is asked for (`record_of_settledAs`). Hence
an application that went well can be repeated at any time before the store is cleared: its result
is the same and the store stays as it is (`apply_runCalls_again`).
-/

namespace Phrasebook

/-! ### Settled candidates -/

structure Candidate.SettledAs (c : Candidate) (id filename : String) (s : Store) : Prop where
  pooled : c.text ∈ s.pool.texts
  assigned : s.ids.id? (.of c.text c.context) = some id
  recorded : ∃ m, s.get? id = some m ∧ (⟨filename, c.line, c.col⟩ : Location) ∈ m.locations ∧
    ∀ comment ∈ c.comment.toList, comment ∈ m.comments

theorem Store.Retains.settledAs {s s' : Store} (h : s.Retains s') {c : Candidate}
    {id filename : String} (hc : c.SettledAs id filename s) : c.SettledAs id filename s' := by
  obtain ⟨htext, hid, m, hm, hl, hcomment⟩ := hc
  obtain ⟨m', hm', -, -, hl'⟩ := h.messages hm
  obtain ⟨m'', hm'', hcomment'⟩ := h.comments hm
  obtain rfl : m' = m'' := Option.some.inj (hm'.symm.trans hm'')
  exact ⟨h.texts htext, h.ids hid, m', hm', hl' _ hl, fun t ht => hcomment' t (hcomment t ht)⟩

variable {s s' : Store} {filename id : String} {idLength : Nat} {c : Candidate}

theorem record_settledAs (h : s.Coherent) (hr : record filename idLength c s = (.ok id, s')) :
    c.SettledAs id filename s' := by
  obtain ⟨s₁, ha, rfl⟩ := record_eq_ok_iff.mp hr
  have hi := h.intern c.text
  have hs₁ := hi.assignId ha
  refine ⟨?_, ?_, ?_⟩
  · obtain ⟨ids, -, rfl⟩ := Store.assignId_eq_some.mp ha
    exact Pool.mem_intern.mpr (.inl rfl)
  · exact (IdTable.owner?_iff_id? hs₁.consistent).mp (hi.owner?_assignId ha)
  · refine ⟨_, (Store.get?_add hs₁.ascending _ id).trans (if_pos rfl), ?_⟩
    cases s₁.get? id with
    | none => simp [Message.absorb, messageOf]
    | some old =>
      refine ⟨Message.mem_locations_merge.mpr (.inr (by simp [messageOf])), fun t ht => ?_⟩
      exact Message.mem_comments_merge.mpr (.inr ht)

/-! ### Recording once more -/

/-- A message that brings nothing to the one that absorbs it. -/
theorem Message.merge_eq_self {a b : Message} (h : a.Tidy) (hl : ∀ l ∈ b.locations, l ∈ a.locations)
    (hc : ∀ t ∈ b.comments, t ∈ a.comments) : a.merge b = a := by
  unfold Message.merge
  rw [Sorted.union_of_subset Sorted.strictOrder_locationLt h.locations hl,
    Sorted.union_of_subset Sorted.strictOrder_textLt h.comments hc]

theorem insertMessage_eq_self {m x : Message} {ms : List Message} (h : AscendingIds ms)
    (hx : ms.find? (·.id == m.id) = some x) (hmerge : x.merge m = x) :
    insertMessage m ms = ms := by
  induction ms with
  | nil => simp at hx
  | cons y ys ih =>
    obtain ⟨hy, hys⟩ := List.pairwise_cons.mp h
    by_cases heq : m.id = y.id
    · obtain rfl : y = x := by simpa [heq] using hx
      rw [insertMessage_cons_of_eq heq, hmerge]
    · rw [List.find?_cons_of_neg (by simpa using Ne.symm heq)] at hx
      -- the message with the id stands further behind, so its id is greater
      have hxid : x.id = m.id := by simpa using List.find?_some hx
      have hlt := hy x (List.mem_of_find?_eq_some hx)
      rw [insertMessage_cons_of_gt (hxid ▸ hlt), ih hys hx]

theorem Pool.intern_of_mem {p : Pool} {text : String} (h : text ∈ p.texts) :
    (p.intern text).2 = p := by
  unfold Pool.intern
  cases hi : p.texts.idxOf? text with
  | none => exact absurd h (List.idxOf?_eq_none_iff.mp hi)
  | some i => rfl

theorem record_of_settledAs (h : s.Coherent) (htidy : s.Tidy) (hc : c.SettledAs id filename s)
    (idLength : Nat) : record filename idLength c s = (.ok id, s) := by
  obtain ⟨htext, hid, m, hm, hl, hcomment⟩ := hc
  have hintern : s.intern c.text = s := by
    unfold Store.intern
    rw [Pool.intern_of_mem htext]
  have hassign : s.assignId c.text c.context idLength = some (id, s) :=
    Store.assignId_eq_some.mpr ⟨s.ids, IdTable.assign_of_id? hid idLength, rfl⟩
  have hmerge : m.merge (messageOf filename id c) = m :=
    Message.merge_eq_self (htidy m (Store.mem_of_get? hm)) (by simpa [messageOf] using hl) hcomment
  have hget : s.messages.find? (·.id == (messageOf filename id c).id) = some m := hm
  have hadd : s.add (messageOf filename id c) = s := by
    unfold Store.add
    rw [insertMessage_eq_self h.ascending hget hmerge]
  simp only [record, hintern, hassign, hadd]

theorem recordAll_settledAs (h : s.Coherent) {cs : List Candidate} {ids : List String}
    (hr : recordAll filename idLength cs s = (.ok ids, s')) :
    List.Forall₂ (fun c id => c.SettledAs id filename s') cs ids := by
  induction cs generalizing s ids with
  | nil =>
    obtain ⟨rfl, rfl⟩ := recordAll_nil_eq_ok_iff.mp hr
    exact .nil
  | cons c cs ih =>
    obtain ⟨id, s₁, rest, hfirst, hrest, rfl⟩ := recordAll_cons_eq_ok_iff.mp hr
    have hcoherent := h.of_record hfirst
    have hretains := (hcoherent.steps (recordAll_steps hcoherent filename idLength cs)).2
    rw [hrest] at hretains
    exact .cons (hretains.settledAs (record_settledAs h hfirst)) (ih hcoherent hrest)

theorem recordAll_of_settledAs (h : s.Coherent) (htidy : s.Tidy) {cs : List Candidate}
    {ids : List String} (hc : List.Forall₂ (fun c id => c.SettledAs id filename s) cs ids)
    (idLength : Nat) : recordAll filename idLength cs s = (.ok ids, s) := by
  induction hc with
  | nil => rfl
  | cons hc _ ih =>
    rw [recordAll_cons_of_ok (record_of_settledAs h htidy hc idLength), ih]
    rfl

/-! ### Applying once more -/

namespace Prepared

theorem apply_of_retains (p : Prepared) (source : String) (o : Options) {out : Output}
    (h : s.Coherent) (hok : (p.apply source o s).1 = .ok out) (h' : s'.Coherent)
    (htidy : s'.Tidy) (hretains : (p.apply source o s).2.Retains s') :
    p.apply source o s' = (.ok out, s') := by
  by_cases hne : p.candidates = []
  · rw [apply_of_nil p source o hne] at hok ⊢
    rw [← hok]
  obtain ⟨ids, hrecord, rfl⟩ := exists_recordAll_of_apply hne hok
  have hsettled := recordAll_settledAs h hrecord
  have hagain := recordAll_of_settledAs h' htidy
    (hsettled.imp fun _ _ hc => hretains.settledAs hc) o.idLength
  rw [apply_of_ne_nil p source o hne, hagain]
  rfl

end Prepared

/-- An application that went well can be repeated: behind any calls that do not clear the store it
gives the same output and leaves the store as it is. -/
theorem apply_runCalls_again (earlier : List StoreCall) (p : Prepared) (source : String)
    (o : Options) {out : Output} (hok : (p.apply source o (runCalls earlier {})).1 = .ok out)
    {later : List StoreCall} (hlater : .clear ∉ later) :
    p.apply source o (runCalls (earlier ++ .apply p source o :: later) {}) =
      (.ok out, runCalls (earlier ++ .apply p source o :: later) {}) := by
  have h := coherent_runCalls Store.coherent_empty earlier
  have happlied := (p.apply_coherent source o h).1
  have hlast := happlied.steps (steps_runCalls happlied hlater)
  have htidy := tidy_runCalls Store.coherent_empty (by simp [Store.Tidy])
    (earlier ++ .apply p source o :: later)
  rw [runCalls_append] at htidy ⊢
  exact p.apply_of_retains source o h hok hlast.1 htidy hlast.2

/-- A pair keeps the longer id that it got because another one owned its first choice. -/
theorem apply_runCalls_again_taken :
    let c : Candidate := ⟨.arrowExpression, "undo", "Undo OK", 24, 33, [], none, 1, 13⟩
    let p : Prepared := { filename := "menu.ts", candidates := [c] }
    let o : Options := { idLength := 4 }
    let source := "const m = \x7b undo: () => \"Undo OK\" \x7d;"
    let earlier := [StoreCall.assignId "Open File" none 4]
    let later := [StoreCall.apply { p with filename := "copy.ts" } source {}, .intern "Open File"]
    let s := runCalls (earlier ++ .apply p source o :: later) {}
    ∃ out, (p.apply source o (runCalls earlier {})).1 = .ok out ∧
      out.code = "const m = \x7b undo: () => i18next.t(\"f9f3c0\") \x7d;" ∧
      p.apply source o s = (.ok out, s) := by
  intro c p o source earlier later s
  have hcode : (p.apply source o (runCalls earlier {})).1.toOption.map Output.code =
      some "const m = \x7b undo: () => i18next.t(\"f9f3c0\") \x7d;" := by decide +kernel
  have hlater : .clear ∉ later := by simp [later]
  cases hout : (p.apply source o (runCalls earlier {})).1 with
  | error e =>
    rw [hout] at hcode
    simp [Except.toOption] at hcode
  | ok out =>
    rw [hout] at hcode
    exact ⟨out, rfl, Option.some.inj hcode, apply_runCalls_again earlier p source o hout hlater⟩

end Phrasebook
