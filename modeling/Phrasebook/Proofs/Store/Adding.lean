import Phrasebook.Proofs.Reapplication
import Phrasebook.Proofs.Workers

/-!
# Adding messages to a store

`get?_addAll` says what stands under an id when any messages were added one after the other: the
first one of those that were there or were added with this id, with what all others add to its sets
(`Message.joined?`). So the messages are those of the store and the added ones, united id by id
(`Store.Unites`), which depends on the order only in what the first message of an id decides. What
operations do to the messages of a store, `clear` apart, is to add some (`exists_added_runOps`).
-/

namespace Phrasebook

/-! ### Messages joined to one -/

namespace Message

/-- The first of some messages, when it has absorbed the others. -/
def joined? : List Message → Option Message
  | [] => none
  | m :: ms => some (ms.foldl merge m)

instance (m : Message) : Decidable m.Tidy :=
  decidable_of_iff (m.locations.Pairwise (Location.lt · · = true) ∧
      m.comments.Pairwise (Sorted.textLt · · = true))
    ⟨fun h => ⟨h.1, h.2⟩, fun h => ⟨h.locations, h.comments⟩⟩

/-- Only the sets of a message change when it absorbs others. -/
theorem foldl_merge_eq (m : Message) (ms : List Message) :
    ∃ locations comments, ms.foldl merge m = { m with locations, comments } := by
  induction ms generalizing m with
  | nil => exact ⟨m.locations, m.comments, rfl⟩
  | cons x xs ih =>
    obtain ⟨locations, comments, h⟩ := ih (m.merge x)
    exact ⟨locations, comments, by rw [List.foldl_cons, h]; rfl⟩

theorem Tidy.foldl_merge {m : Message} (h : m.Tidy) (ms : List Message) :
    (ms.foldl Message.merge m).Tidy := by
  induction ms generalizing m with
  | nil => exact h
  | cons x xs ih => exact ih (h.merge x)

theorem Additive.foldl_merge {P : Message → Prop} (hP : Additive P) (m : Message)
    (ms : List Message) : P (ms.foldl Message.merge m) ↔ ∃ x ∈ m :: ms, P x := by
  induction ms generalizing m with
  | nil => simp
  | cons x xs ih =>
    rw [List.foldl_cons, ih]
    simp only [List.mem_cons, exists_eq_or_imp, hP.merge, or_assoc]

variable {m : Message} {ms ms' : List Message}

theorem joined?_eq_none_iff : joined? ms = none ↔ ms = [] := by
  cases ms <;> simp [joined?]

/-- A joined message has the sets of all and everything else from the first one. -/
theorem of_joined? (h : joined? ms = some m) :
    (∃ first, ms.head? = some first ∧ m.id = first.id ∧ m.text = first.text ∧
      m.context = first.context ∧ m.parameters = first.parameters) ∧
    ∀ P, Additive P → (P m ↔ ∃ x ∈ ms, P x) := by
  cases ms with
  | nil => cases h
  | cons first rest =>
    obtain rfl : rest.foldl merge first = m := Option.some.inj h
    refine ⟨⟨first, rfl, ?_⟩, fun P hP => hP.foldl_merge first rest⟩
    obtain ⟨locations, comments, heq⟩ := foldl_merge_eq first rest
    rw [heq]
    exact ⟨rfl, rfl, rfl, rfl⟩

theorem Tidy.of_joined? (h : joined? ms = some m) (hms : ∀ x ∈ ms, x.Tidy) : m.Tidy := by
  cases ms with
  | nil => cases h
  | cons first rest =>
    obtain rfl : rest.foldl Message.merge first = m := Option.some.inj h
    exact (hms first List.mem_cons_self).foldl_merge rest

/-- What of a message does not depend on which one came first. -/
def contents (m : Message) : String × List Location × List String :=
  (m.id, m.locations, m.comments)

/-- In whatever order messages with one id are joined, the result has the same sets. -/
theorem map_contents_joined? (hperm : ms.Perm ms') (htidy : ∀ x ∈ ms, x.Tidy) {id : String}
    (hid : ∀ x ∈ ms, x.id = id) : (joined? ms).map contents = (joined? ms').map contents := by
  cases hm : joined? ms with
  | none =>
    have hnil : ms' = [] := by
      rw [joined?_eq_none_iff.mp hm] at hperm
      exact hperm.nil_eq.symm
    rw [joined?_eq_none_iff.mpr hnil]
  | some m =>
    cases hm' : joined? ms' with
    | none =>
      rw [joined?_eq_none_iff.mp hm'] at hperm
      rw [hperm.eq_nil] at hm
      cases hm
    | some m' =>
      obtain ⟨⟨first, hfirst, hmid, -⟩, hadditive⟩ := of_joined? hm
      obtain ⟨⟨first', hfirst', hmid', -⟩, hadditive'⟩ := of_joined? hm'
      have htidy' : ∀ x ∈ ms', x.Tidy := fun x hx => htidy x (hperm.mem_iff.mpr hx)
      have hids : m.id = m'.id := by
        rw [hmid, hmid', hid first (List.mem_of_head? hfirst),
          hid first' (hperm.mem_iff.mpr (List.mem_of_head? hfirst'))]
      -- a member of the sets is one of some message that was joined, which does not depend on the
      -- order
      have hsame (P : Message → Prop) (hP : Additive P) : P m ↔ P m' := by
        rw [hadditive P hP, hadditive' P hP]
        simp only [hperm.mem_iff]
      have hlocations : m.locations = m'.locations :=
        Sorted.Ascending.ext Sorted.strictOrder_locationLt (Tidy.of_joined? hm htidy).locations
          (Tidy.of_joined? hm' htidy').locations fun l => hsame _ (additive_location l)
      have hcomments : m.comments = m'.comments :=
        Sorted.Ascending.ext Sorted.strictOrder_textLt (Tidy.of_joined? hm htidy).comments
          (Tidy.of_joined? hm' htidy').comments fun text => hsame _ (additive_comment text)
      simp only [Option.map_some, contents, hids, hlocations, hcomments]

/-- All that a message says is said by another one with its id. -/
structure IsPartOf (m m' : Message) : Prop where
  id : m.id = m'.id
  text : m.text = m'.text
  context : m.context = m'.context
  parameters : m.parameters = m'.parameters
  locations : m.locations ⊆ m'.locations
  comments : m.comments ⊆ m'.comments

end Message

/-! ### Lists with ascending ids -/

theorem mem_map_id_iff {ms : List Message} {id : String} :
    id ∈ ms.map (·.id) ↔ (ms.find? (·.id == id)).isSome := by
  simp [List.find?_isSome]

/-- What is the same under each id is the same in the lists. -/
theorem map_eq_of_find? {α : Type} {f : Message → α} {ms ms' : List Message} (h : AscendingIds ms)
    (h' : AscendingIds ms')
    (hfind : ∀ id, (ms.find? (·.id == id)).map f = (ms'.find? (·.id == id)).map f) :
    ms.map f = ms'.map f := by
  have hids : ms.map (·.id) = ms'.map (·.id) := by
    have hmem (id : String) : id ∈ ms.map (·.id) ↔ id ∈ ms'.map (·.id) := by
      have hsome := congrArg Option.isSome (hfind id)
      rw [Option.isSome_map, Option.isSome_map] at hsome
      rw [mem_map_id_iff, mem_map_id_iff, hsome]
    have hpairwise := List.pairwise_map.mpr h
    have hpairwise' := List.pairwise_map.mpr h'
    have hperm := (List.perm_ext_iff_of_nodup (hpairwise.imp fun hlt => hlt.ne)
      (hpairwise'.imp fun hlt => hlt.ne)).mpr hmem
    exact hperm.eq_of_pairwise (fun _ _ _ _ hlt hlt' => absurd hlt' (lt_asymm hlt)) hpairwise
      hpairwise'
  -- each list is what stands under its ids, one after the other
  have hlist {xs : List Message} (hxs : AscendingIds xs) :
      (xs.map f).map some = (xs.map (·.id)).map fun id => (xs.find? (·.id == id)).map f := by
    have hnodup : (xs.map (·.id)).Nodup := List.pairwise_map.mpr (hxs.imp fun hlt => hlt.ne)
    rw [List.map_map, List.map_map]
    refine List.map_congr_left fun x hx => ?_
    have hfound := IdTable.find?_label_eq (f := Message.id) hnodup hx
    show some (f x) = (xs.find? (·.id == x.id)).map f
    rw [hfound, Option.map_some]
  refine List.map_injective_iff.mpr (fun _ _ => Option.some.inj) ?_
  rw [hlist h, hlist h', hids]
  exact List.map_congr_left fun id _ => hfind id

/-! ### Adding one message after the other -/

namespace Store

def addAll (s : Store) (ms : List Message) : Store := ms.foldl add s

/-- The messages of a store as a finite map with finite sets in it: ascending by their ids, and
with ascending sets. -/
structure Ordered (s : Store) : Prop where
  ascending : AscendingIds s.messages
  tidy : s.Tidy

/-- The messages of `s'` are those of `s` and the messages `ms`, united id by id. -/
structure Unites (s : Store) (ms : List Message) (s' : Store) : Prop where
  ordered : s'.Ordered
  ids : ∀ id, id ∈ s'.messages.map (·.id) ↔ id ∈ s.messages.map (·.id) ∨ id ∈ ms.map (·.id)
  locations : ∀ m ∈ s'.messages, ∀ l, l ∈ m.locations ↔
    ∃ x, (x ∈ s.messages ∨ x ∈ ms) ∧ x.id = m.id ∧ l ∈ x.locations
  comments : ∀ m ∈ s'.messages, ∀ text, text ∈ m.comments ↔
    ∃ x, (x ∈ s.messages ∨ x ∈ ms) ∧ x.id = m.id ∧ text ∈ x.comments
  /-- What was stored wins over what was added, and what was added first over the rest. -/
  first : ∀ m ∈ s'.messages, ∃ x, (s.get? m.id).or (ms.find? (·.id == m.id)) = some x ∧
    m.text = x.text ∧ m.context = x.context ∧ m.parameters = x.parameters

/-- No message is lost and none loses anything. -/
def Keeps (s s' : Store) : Prop := ∀ m ∈ s.messages, ∃ m' ∈ s'.messages, m.IsPartOf m'

/-- The ids of the messages with the sets of each. -/
def contents (s : Store) : List (String × List Location × List String) :=
  s.messages.map Message.contents

variable {s s' : Store} {m : Message} {ms ms' : List Message}

theorem ordered_empty : ({} : Store).Ordered := ⟨.nil, by simp [Tidy]⟩

theorem Ordered.add (h : s.Ordered) (hm : m.Tidy) : (s.add m).Ordered := by
  refine ⟨ascendingIds_insertMessage h.ascending, fun x hx => ?_⟩
  rcases mem_insertMessage hx with hx | rfl | ⟨y, hy, -, rfl⟩
  · exact h.tidy x hx
  · exact hm
  · exact (h.tidy y hy).merge m

theorem Ordered.addAll (h : s.Ordered) (hms : ∀ m ∈ ms, m.Tidy) : (s.addAll ms).Ordered := by
  induction ms generalizing s with
  | nil => exact h
  | cons m ms ih =>
    obtain ⟨hm, hms⟩ := List.forall_mem_cons.mp hms
    exact ih (h.add hm) hms

theorem messages_addAll_congr (h : s.messages = s'.messages) (ms : List Message) :
    (s.addAll ms).messages = (s'.addAll ms).messages := by
  induction ms generalizing s s' with
  | nil => exact h
  | cons m ms ih =>
    refine ih ?_
    show insertMessage m s.messages = insertMessage m s'.messages
    rw [h]

theorem get?_addAll (h : AscendingIds s.messages) (ms : List Message) (id : String) :
    (s.addAll ms).get? id =
      Message.joined? ((s.get? id).toList ++ ms.filter (·.id == id)) := by
  induction ms generalizing s with
  | nil =>
    show s.get? id = _
    cases s.get? id <;> rfl
  | cons m ms ih =>
    have hadd := get?_add h m id
    have hrest := ih (s := s.add m) (ascendingIds_insertMessage h)
    rw [hadd] at hrest
    refine hrest.trans ?_
    by_cases hid : id = m.id
    · rw [if_pos hid, List.filter_cons_of_pos (by simpa using hid.symm)]
      cases s.get? id <;> rfl
    · rw [if_neg hid, List.filter_cons_of_neg (by simpa using Ne.symm hid)]

theorem mem_of_mem_joined {id : String} {x : Message}
    (hx : x ∈ (s.get? id).toList ++ ms.filter (·.id == id)) :
    (x ∈ s.messages ∨ x ∈ ms) ∧ x.id = id := by
  rcases List.mem_append.mp hx with hx | hx
  · have hget := Option.mem_toList.mp hx
    exact ⟨.inl (mem_of_get? hget), id_of_get? hget⟩
  · have hfilter := List.mem_filter.mp hx
    exact ⟨.inr hfilter.1, by simpa using hfilter.2⟩

theorem mem_joined_iff (h : AscendingIds s.messages) {id : String} {x : Message} :
    x ∈ (s.get? id).toList ++ ms.filter (·.id == id) ↔
      (x ∈ s.messages ∨ x ∈ ms) ∧ x.id = id := by
  refine ⟨mem_of_mem_joined, ?_⟩
  rintro ⟨hx | hx, rfl⟩
  · exact List.mem_append_left _ (Option.mem_toList.mpr ((mem_messages_iff h).mp hx))
  · exact List.mem_append_right _ (List.mem_filter.mpr ⟨hx, by simp⟩)

/-- Adding messages unites them with those of the store. -/
theorem Ordered.unites_addAll (h : s.Ordered) (hms : ∀ m ∈ ms, m.Tidy) :
    s.Unites ms (s.addAll ms) := by
  have hordered := h.addAll hms
  -- a message is what is joined under its id, and what it has comes from there
  have hjoined : ∀ m ∈ (s.addAll ms).messages,
      Message.joined? ((s.get? m.id).toList ++ ms.filter (·.id == m.id)) = some m := by
    intro m hm
    rw [← get?_addAll h.ascending, ← mem_messages_iff hordered.ascending]
    exact hm
  have hadditive : ∀ m ∈ (s.addAll ms).messages, ∀ P, Message.Additive P →
      (P m ↔ ∃ x, (x ∈ s.messages ∨ x ∈ ms) ∧ x.id = m.id ∧ P x) := by
    intro m hm P hP
    rw [(Message.of_joined? (hjoined m hm)).2 P hP]
    simp only [mem_joined_iff h.ascending, and_assoc]
  refine ⟨hordered, fun id => ?_, fun m hm l => hadditive m hm _ (Message.additive_location l),
    fun m hm text => hadditive m hm _ (Message.additive_comment text), fun m hm => ?_⟩
  · have hnone : (s.addAll ms).get? id = none ↔
        (s.get? id).toList ++ ms.filter (·.id == id) = [] := by
      rw [get?_addAll h.ascending, Message.joined?_eq_none_iff]
    show id ∈ (s.addAll ms).messages.map (·.id) ↔ _
    rw [mem_map_id_iff, mem_map_id_iff, ← not_iff_not]
    show ¬ ((s.addAll ms).get? id).isSome ↔ ¬ ((s.get? id).isSome ∨ _)
    rw [Option.not_isSome_iff_eq_none, hnone]
    simp
  · obtain ⟨⟨first, hfirst, -, htext, hcontext, hparameters⟩, -⟩ :=
      Message.of_joined? (hjoined m hm)
    refine ⟨first, ?_, htext, hcontext, hparameters⟩
    rw [← hfirst, List.head?_append, List.head?_filter]
    cases s.get? m.id <;> rfl

theorem Unites.keeps (h : s.Unites ms s') (hs : AscendingIds s.messages) : s.Keeps s' := by
  intro m hm
  have hid := (h.ids m.id).mpr (.inl (List.mem_map_of_mem hm))
  obtain ⟨m', hm', heq⟩ := List.mem_map.mp hid
  have hget : s.get? m'.id = some m := by
    rw [heq]
    exact (mem_messages_iff hs).mp hm
  obtain ⟨x, hx, htext, hcontext, hparameters⟩ := h.first m' hm'
  rw [hget, Option.some_or, Option.some.injEq] at hx
  subst hx
  exact ⟨m', hm', heq.symm, htext.symm, hcontext.symm, hparameters.symm,
    fun l hl => (h.locations m' hm' l).mpr ⟨m, .inl hm, heq.symm, hl⟩,
    fun text ht => (h.comments m' hm' text).mpr ⟨m, .inl hm, heq.symm, ht⟩⟩

/-- Messages of which nothing is new change nothing. -/
theorem Ordered.addAll_eq_self (h : s.Ordered) (hms : ∀ m ∈ ms, ∃ x, s.get? m.id = some x ∧
    m.locations ⊆ x.locations ∧ m.comments ⊆ x.comments) : s.addAll ms = s := by
  induction ms with
  | nil => rfl
  | cons m ms ih =>
    obtain ⟨⟨x, hx, hlocations, hcomments⟩, hms⟩ := List.forall_mem_cons.mp hms
    have htidy := h.tidy x (mem_of_get? hx)
    have hmerge : x.merge m = x :=
      Message.merge_eq_self htidy (fun _ hl => hlocations hl) fun _ ht => hcomments ht
    have hadd : s.add m = s := by
      unfold Store.add
      rw [insertMessage_eq_self h.ascending hx hmerge]
    show (s.add m).addAll ms = s
    rw [hadd]
    exact ih hms

theorem Ordered.addAll_addAll (h : s.Ordered) (hms : ∀ m ∈ ms, m.Tidy) :
    (s.addAll ms).addAll ms = s.addAll ms := by
  have hunites := h.unites_addAll hms
  refine hunites.ordered.addAll_eq_self fun m hm => ?_
  obtain ⟨x, hx, hid⟩ := List.mem_map.mp ((hunites.ids m.id).mpr (.inr (List.mem_map_of_mem hm)))
  have hget : (s.addAll ms).get? m.id = some x := by
    rw [← hid]
    exact (mem_messages_iff hunites.ordered.ascending).mp hx
  exact ⟨x, hget, fun l hl => (hunites.locations x hx l).mpr ⟨m, .inr hm, hid.symm, hl⟩,
    fun text ht => (hunites.comments x hx text).mpr ⟨m, .inr hm, hid.symm, ht⟩⟩

/-- The order in which messages are added makes no difference to ids and sets. -/
theorem Ordered.contents_addAll (h : s.Ordered) (hms : ∀ m ∈ ms, m.Tidy) (hperm : ms.Perm ms') :
    (s.addAll ms').contents = (s.addAll ms).contents := by
  have hms' : ∀ m ∈ ms', m.Tidy := fun m hm => hms m (hperm.mem_iff.mpr hm)
  refine map_eq_of_find? (h.addAll hms').ascending (h.addAll hms).ascending fun id => ?_
  show ((s.addAll ms').get? id).map _ = ((s.addAll ms).get? id).map _
  rw [get?_addAll h.ascending, get?_addAll h.ascending]
  have hjoin : ((s.get? id).toList ++ ms'.filter (·.id == id)).Perm
      ((s.get? id).toList ++ ms.filter (·.id == id)) := (hperm.symm.filter _).append_left _
  refine Message.map_contents_joined? hjoin (fun x hx => ?_) fun x hx => (mem_of_mem_joined hx).2
  exact (mem_of_mem_joined hx).1.elim (h.tidy x) (hms' x)

end Store

/-! ### Operations -/

/-- What recording does to the messages is to add those of the candidates that are given ids. -/
theorem messages_recordAll (filename : String) (idLength : Nat) (cs : List Candidate) (s : Store) :
    ∃ ids, (recordAll filename idLength cs s).2.messages =
        (s.addAll (List.zipWith (messageOf filename) ids cs)).messages ∧
      ∀ ids', (recordAll filename idLength cs s).1 = .ok ids' → ids' = ids := by
  induction cs generalizing s with
  | nil =>
    refine ⟨[], rfl, fun ids' h => ?_⟩
    exact (Except.ok.inj h).symm
  | cons c cs ih =>
    obtain he | ⟨id, s', ha, he⟩ := record_cases filename idLength c s
    · rw [recordAll_cons_of_error he]
      exact ⟨[], rfl, fun ids' h => by cases h⟩
    · rw [recordAll_cons_of_ok he]
      obtain ⟨ids, hmessages, hids⟩ := ih (s'.add (messageOf filename id c))
      have hs' : s'.messages = s.messages := by
        obtain ⟨table, -, rfl⟩ := Store.assignId_eq_some.mp ha
        rfl
      have hadd : (s'.add (messageOf filename id c)).messages =
          (s.add (messageOf filename id c)).messages := by
        show insertMessage _ s'.messages = insertMessage _ s.messages
        rw [hs']
      refine ⟨id :: ids, hmessages.trans (Store.messages_addAll_congr hadd _), fun ids' h => ?_⟩
      rcases hr : (recordAll filename idLength cs (s'.add (messageOf filename id c))).1 with
        e | ids₁ <;> rw [hr] at h hids <;> cases h
      rw [hids ids₁ rfl]

theorem tidy_zipWith_messageOf (filename : String) (ids : List String) (cs : List Candidate) :
    ∀ m ∈ List.zipWith (messageOf filename) ids cs, m.Tidy := by
  intro m hm
  obtain ⟨i, hi, rfl⟩ := List.mem_iff_getElem.mp hm
  rw [List.getElem_zipWith]
  exact tidy_messageOf filename _ _

/-- An operation on a store. The sets of a message that is added are ascending lists. -/
inductive StoreOp where
  | call (call : StoreCall)
  | add (m : Message) (tidy : m.Tidy)

def StoreOp.run (s : Store) : StoreOp → Store
  | call c => c.run s
  | add m _ => s.add m

def runOps (ops : List StoreOp) (s : Store) : Store := ops.foldl StoreOp.run s

/-- What an operation does to the messages, unless it clears the store, is to add some. -/
theorem StoreOp.exists_added_run {op : StoreOp} (hop : op ≠ .call .clear) (s : Store) :
    ∃ ms, (∀ m ∈ ms, m.Tidy) ∧ (op.run s).messages = (s.addAll ms).messages := by
  have hnothing : ∃ ms : List Message, (∀ m ∈ ms, m.Tidy) ∧
      s.messages = (s.addAll ms).messages := ⟨[], by simp, rfl⟩
  have hrecord (p : Prepared) (source : String) (o : Options) : ∃ ms : List Message,
      (∀ m ∈ ms, m.Tidy) ∧ (p.apply source o s).2.messages = (s.addAll ms).messages := by
    obtain ⟨ids, hmessages, -⟩ := messages_recordAll p.filename o.idLength p.candidates s
    rw [Prepared.apply_snd]
    exact ⟨_, tidy_zipWith_messageOf _ _ _, hmessages⟩
  cases op with
  | add m tidy => exact ⟨[m], by simpa using tidy, rfl⟩
  | call call =>
    cases call with
    | transform source filename o => exact hrecord _ source o
    | apply p source o => exact hrecord p source o
    | intern text => exact hnothing
    | clear => exact absurd rfl hop
    | assignId text context length =>
      simp only [run, StoreCall.run]
      split
      · rename_i id s' ha
        obtain ⟨ids, -, rfl⟩ := Store.assignId_eq_some.mp ha
        exact hnothing
      · exact hnothing

theorem exists_added_runOps {ops : List StoreOp} (hops : .call .clear ∉ ops) (s : Store) :
    ∃ ms, (∀ m ∈ ms, m.Tidy) ∧ (runOps ops s).messages = (s.addAll ms).messages := by
  induction ops generalizing s with
  | nil => exact ⟨[], by simp, rfl⟩
  | cons op ops ih =>
    obtain ⟨hop, hops⟩ := not_or.mp (List.mem_cons.not.mp hops)
    obtain ⟨ms, htidy, hmessages⟩ := op.exists_added_run (Ne.symm hop) s
    obtain ⟨later, htidy', hmessages'⟩ := ih hops (op.run s)
    refine ⟨ms ++ later, List.forall_mem_append.mpr ⟨htidy, htidy'⟩, ?_⟩
    have hboth : s.addAll (ms ++ later) = (s.addAll ms).addAll later := List.foldl_append
    rw [hboth, ← Store.messages_addAll_congr hmessages]
    exact hmessages'

/-- Every store that operations make is ordered. -/
theorem ordered_runOps {s : Store} (h : s.Ordered) (ops : List StoreOp) :
    (runOps ops s).Ordered := by
  induction ops generalizing s with
  | nil => exact h
  | cons op ops ih =>
    refine ih ?_
    by_cases hop : op = .call .clear
    · subst hop
      exact ⟨Store.ordered_empty.ascending, Store.ordered_empty.tidy⟩
    · obtain ⟨ms, htidy, hmessages⟩ := op.exists_added_run hop s
      have hadded := h.addAll htidy
      exact ⟨hmessages ▸ hadded.ascending, fun m hm => hadded.tidy m (hmessages ▸ hm)⟩

/-- Behind any additions there is a message for each id that was stored or added, with the sets of
all messages with this id and all else from the first of them. Hence no operation but `clear` takes
anything from the messages, the same additions made again change nothing, and their order makes no
difference to ids and sets. -/
theorem addAll_unites {s : Store} (h : s.Ordered) {ms : List Message} (hms : ∀ m ∈ ms, m.Tidy) :
    s.Unites ms (s.addAll ms) ∧
    (∀ ops : List StoreOp, .call .clear ∉ ops → s.Keeps (runOps ops s)) ∧
    (s.addAll ms).addAll ms = s.addAll ms ∧
    ∀ ms', ms.Perm ms' → (s.addAll ms').contents = (s.addAll ms).contents := by
  refine ⟨h.unites_addAll hms, fun ops hops => ?_, h.addAll_addAll hms,
    fun ms' hperm => h.contents_addAll hms hperm⟩
  obtain ⟨added, htidy, hmessages⟩ := exists_added_runOps hops s
  have hkeeps := (h.unites_addAll htidy).keeps h.ascending
  intro m hm
  rw [hmessages]
  exact hkeeps m hm

/-- Three messages are added to a store that has one of them under the same id. The two others have
one id and different texts. -/
theorem addAll_unites_shared :
    let stored : Message :=
      { id := "b1", text := "Save", parameters := ["n"], locations := [⟨"b.ts", 2, 1⟩] }
    let again : Message :=
      { id := "b1", text := "Save", locations := [⟨"a.ts", 9, 1⟩, ⟨"b.ts", 2, 1⟩]
        comments := ["Toolbar"] }
    let undo : Message := { id := "a0", text := "Undo", locations := [⟨"c.ts", 1, 1⟩] }
    let redo : Message := { id := "a0", text := "Redo", locations := [⟨"a.ts", 3, 4⟩] }
    let s := runOps [.call (.intern "Save"), .add stored (by decide +kernel)] {}
    s.Ordered ∧ (∀ m ∈ [undo, again, redo], m.Tidy) ∧
      s.Unites [undo, again, redo] (s.addAll [undo, again, redo]) ∧
      (s.addAll [undo, again, redo]).messages =
        [{ undo with locations := [⟨"a.ts", 3, 4⟩, ⟨"c.ts", 1, 1⟩] },
          { stored with locations := [⟨"a.ts", 9, 1⟩, ⟨"b.ts", 2, 1⟩], comments := ["Toolbar"] }] ∧
      (s.addAll [redo, undo, again]).contents = (s.addAll [undo, again, redo]).contents := by
  intro stored again undo redo s
  have hs : s.Ordered := ordered_runOps Store.ordered_empty _
  have hms : ∀ m ∈ [undo, again, redo], m.Tidy := by decide +kernel
  obtain ⟨hunites, -, -, hperm⟩ := addAll_unites hs hms
  exact ⟨hs, hms, hunites, by decide +kernel, hperm [redo, undo, again] (by decide +kernel)⟩

end Phrasebook
