import Phrasebook.Proofs.Store.Steps
import Phrasebook.Workers

/-!
# Recording with several workers

Whatever the schedule, each step of a worker is a step on the store (`Worker.Sound.step`), so the
store stays coherent, and an id that a worker was given stays the id of its pair. The sets of the
messages are at any time those of the start and of all candidates that are recorded, put together
pair by pair (`Sums`): `sums_add` says so of one message. Hence, when all workers have ended, the
store holds each pair that occurs in exactly one message, with all that was said about it
(`merges_run`). `run_alone` ties the steps to the program: a worker that nobody interrupts records
its file as `recordAll` does.
-/

namespace Phrasebook

def Candidate.key (c : Candidate) : MessageKey := .of c.text c.context

def Message.key (m : Message) : MessageKey := .of m.text m.context

@[simp] theorem key_messageOf (filename id : String) (c : Candidate) :
    (messageOf filename id c).key = c.key := rfl

@[simp] theorem Message.key_merge (a b : Message) : (a.merge b).key = a.key := rfl

/-! ### Messages put together pair by pair -/

/-- What holds of a merged message exactly when it holds of one of the two, under whatever id. -/
structure Message.Additive (P : Message → Prop) : Prop where
  merge : ∀ a b : Message, P (a.merge b) ↔ P a ∨ P b
  withId : ∀ (m : Message) (id : String), P { m with id } ↔ P m

theorem Message.additive_true : Message.Additive fun _ => True := ⟨by simp, by simp⟩

theorem Message.additive_location (l : Location) : Message.Additive (l ∈ ·.locations) :=
  ⟨fun _ _ => Message.mem_locations_merge, fun _ _ => .rfl⟩

theorem Message.additive_comment (text : String) : Message.Additive (text ∈ ·.comments) :=
  ⟨fun _ _ => Message.mem_comments_merge, fun _ _ => .rfl⟩

namespace Store

/-- Pair by pair, the messages of the store say together what the messages `ms` say together. -/
def Sums (s : Store) (ms : List Message) : Prop :=
  ∀ P, Message.Additive P → ∀ key,
    (∃ m ∈ s.messages, m.key = key ∧ P m) ↔ ∃ m ∈ ms, m.key = key ∧ P m

/-- Each pair of the messages `ms` stands in exactly one message of the store, and the sets of that
message are the unions of theirs. -/
structure Merges (s : Store) (ms : List Message) : Prop where
  existsUnique : ∀ m ∈ ms, ∃! m', m' ∈ s.messages ∧ m'.key = m.key
  occurs : ∀ m ∈ s.messages, ∃ m' ∈ ms, m'.key = m.key
  locations : ∀ m ∈ s.messages, m.locations.Nodup ∧
    ∀ l, l ∈ m.locations ↔ ∃ m' ∈ ms, m'.key = m.key ∧ l ∈ m'.locations
  comments : ∀ m ∈ s.messages, m.comments.Nodup ∧
    ∀ text, text ∈ m.comments ↔ ∃ m' ∈ ms, m'.key = m.key ∧ text ∈ m'.comments

variable {s : Store}

theorem mem_messages_iff (h : AscendingIds s.messages) {m : Message} :
    m ∈ s.messages ↔ s.get? m.id = some m :=
  ⟨fun hm => IdTable.find?_label_eq (nodup_ids h) hm, mem_of_get?⟩

/-- Two messages of one pair are the same one. -/
theorem Coherent.eq_of_key (h : s.Coherent) {m m' : Message} (hm : m ∈ s.messages)
    (hm' : m' ∈ s.messages) (hkey : m.key = m'.key) : m = m' := by
  have hid := (IdTable.owner?_iff_id? h.consistent).mp (h.owned m hm)
  have hid' := (IdTable.owner?_iff_id? h.consistent).mp (h.owned m' hm')
  rw [show MessageKey.of m.text m.context = .of m'.text m'.context from hkey, hid'] at hid
  have hget := (mem_messages_iff h.ascending).mp hm
  rw [← Option.some.inj hid, (mem_messages_iff h.ascending).mp hm'] at hget
  exact (Option.some.inj hget).symm

/-- Adding a message adds what it says to its pair, whether or not it is the first one there. -/
theorem Coherent.sums_add (h : s.Coherent) {m : Message}
    (hown : s.ids.owner? m.id = some m.key) {ms ms' : List Message} (hs : s.Sums ms)
    (hms : ∀ x, x ∈ ms' ↔ x ∈ ms ∨ x = m) : (s.add m).Sums ms' := by
  intro P hP key
  have hright : (∃ x ∈ ms', x.key = key ∧ P x) ↔
      (∃ x ∈ s.messages, x.key = key ∧ P x) ∨ (m.key = key ∧ P m) := by
    rw [hs P hP key]
    simp only [hms, or_and_right, exists_or, exists_eq_left]
  rw [hright]
  have hget := get?_add h.ascending m
  have hascending : AscendingIds (s.add m).messages := ascendingIds_insertMessage h.ascending
  -- the message that absorbs `m` is the one of its own pair
  have habsorbed : ∀ old, s.get? m.id = some old → old.key = m.key := by
    intro old hold
    have := h.owned old (mem_of_get? hold)
    rw [id_of_get? hold, hown] at this
    exact (Option.some.inj this).symm
  have hnew : m.absorb (s.get? m.id) ∈ (s.add m).messages :=
    mem_of_get? ((hget m.id).trans (if_pos rfl))
  constructor
  · rintro ⟨x, hx, rfl, hPx⟩
    have hxget := (mem_messages_iff hascending).mp hx
    rw [hget] at hxget
    by_cases hid : x.id = m.id
    · rw [if_pos hid, hid, Option.some.injEq] at hxget
      cases hold : s.get? m.id with
      | none =>
        obtain rfl : m = x := by simpa [hold, Message.absorb] using hxget
        exact .inr ⟨rfl, hPx⟩
      | some old =>
        obtain rfl : old.merge m = x := by simpa [hold, Message.absorb] using hxget
        rcases (hP.merge old m).mp hPx with hP' | hP'
        · exact .inl ⟨old, mem_of_get? hold, rfl, hP'⟩
        · exact .inr ⟨(habsorbed old hold).symm, hP'⟩
    · rw [if_neg hid] at hxget
      exact .inl ⟨x, mem_of_get? hxget, rfl, hPx⟩
  · rintro (⟨x, hx, rfl, hPx⟩ | ⟨rfl, hPm⟩)
    · have hxget := (mem_messages_iff h.ascending).mp hx
      by_cases hid : x.id = m.id
      · rw [hid] at hxget
        rw [hxget] at hnew
        exact ⟨x.merge m, hnew, rfl, (hP.merge x m).mpr (.inl hPx)⟩
      · exact ⟨x, mem_of_get? ((hget x.id).trans ((if_neg hid).trans hxget)), rfl, hPx⟩
    · cases hold : s.get? m.id with
      | none =>
        rw [hold] at hnew
        exact ⟨m, hnew, rfl, hPm⟩
      | some old =>
        rw [hold] at hnew
        exact ⟨old.merge m, hnew, habsorbed old hold, (hP.merge old m).mpr (.inr hPm)⟩

theorem Coherent.merges (h : s.Coherent) (htidy : s.Tidy) {ms : List Message} (hs : s.Sums ms) :
    s.Merges ms where
  existsUnique m hm := by
    obtain ⟨m', hm', hkey, -⟩ := (hs _ Message.additive_true m.key).mpr ⟨m, hm, rfl, trivial⟩
    exact ⟨m', ⟨hm', hkey⟩, fun x hx => h.eq_of_key hx.1 hm' (hx.2.trans hkey.symm)⟩
  occurs m hm := by
    obtain ⟨m', hm', hkey, -⟩ := (hs _ Message.additive_true m.key).mp ⟨m, hm, rfl, trivial⟩
    exact ⟨m', hm', hkey⟩
  locations m hm := by
    refine ⟨(htidy m hm).locations.nodup Sorted.strictOrder_locationLt, fun l => ?_⟩
    rw [← hs _ (Message.additive_location l) m.key]
    exact ⟨fun hl => ⟨m, hm, rfl, hl⟩, fun ⟨x, hx, hkey, hl⟩ => h.eq_of_key hx hm hkey ▸ hl⟩
  comments m hm := by
    refine ⟨(htidy m hm).comments.nodup Sorted.strictOrder_textLt, fun text => ?_⟩
    rw [← hs _ (Message.additive_comment text) m.key]
    exact ⟨fun ht => ⟨m, hm, rfl, ht⟩, fun ⟨x, hx, hkey, ht⟩ => h.eq_of_key hx hm hkey ▸ ht⟩

end Store

/-! ### One worker -/

namespace Worker

/-- The candidates that were given an id, with their ids. -/
def given (w : Worker) : List (Candidate × String) :=
  match w.stage with
  | .assigned c id _ => w.recorded ++ [(c, id)]
  | _ => w.recorded

/-- The candidates that are not recorded yet, unless the worker has failed. -/
def left? (w : Worker) : Option (List Candidate) :=
  match w.stage with
  | .ready cs => some cs
  | .interned c cs | .assigned c _ cs => some (c :: cs)
  | .failed _ => none

/-- The messages that a worker has added. -/
def messages (w : Worker) : List Message :=
  w.recorded.map fun (c, id) => messageOf w.job.file.filename id c

/-- The ids that a worker was given are those of its candidates, and with the candidates that are
left those that are recorded make up its file. -/
structure Sound (w : Worker) (s : Store) : Prop where
  given : ∀ e ∈ w.given, s.ids.id? e.1.key = some e.2
  left : ∀ cs, w.left? = some cs → w.recorded.map (·.1) ++ cs = w.job.file.candidates

variable {w : Worker} {s s' : Store}

theorem sound_start (job : Job) (s : Store) : (start job).Sound s :=
  ⟨by simp [Worker.given, start], by simp [left?, start]⟩

theorem Sound.retains (h : w.Sound s) (hs : s.Retains s') : w.Sound s' :=
  ⟨fun e he => hs.ids (h.given e he), h.left⟩

/-- All that a step of a worker can do. -/
theorem step_cases (w : Worker) (s : Store) :
    w.step s = (w, s) ∨
    (∃ c cs, w.stage = .ready (c :: cs) ∧
      w.step s = ({ w with stage := .interned c cs }, s.intern c.text)) ∨
    (∃ c cs, w.stage = .interned c cs ∧ w.step s = ({ w with stage := .failed ⟨c.text⟩ }, s)) ∨
    (∃ c cs id s', w.stage = .interned c cs ∧
      s.assignId c.text c.context w.job.options.idLength = some (id, s') ∧
      w.step s = ({ w with stage := .assigned c id cs }, s')) ∨
    (∃ c id cs, w.stage = .assigned c id cs ∧
      w.step s = ({ w with recorded := w.recorded ++ [(c, id)], stage := .ready cs },
        s.add (messageOf w.job.file.filename id c))) := by
  unfold step
  cases hstage : w.stage with
  | ready cs =>
    cases cs with
    | nil => exact .inl rfl
    | cons c cs => exact .inr (.inl ⟨c, cs, rfl, rfl⟩)
  | interned c cs =>
    cases ha : s.assignId c.text c.context w.job.options.idLength with
    | none => exact .inr (.inr (.inl ⟨c, cs, rfl, by simp only [ha]⟩))
    | some r => exact .inr (.inr (.inr (.inl ⟨c, cs, r.1, r.2, rfl, ha, by simp only [ha]⟩)))
  | assigned c id cs => exact .inr (.inr (.inr (.inr ⟨c, id, cs, rfl, rfl⟩)))
  | failed e => exact .inl rfl

theorem job_step (w : Worker) (s : Store) : (w.step s).1.job = w.job := by
  obtain he | ⟨c, cs, -, he⟩ | ⟨c, cs, -, he⟩ | ⟨c, cs, id, s', -, -, he⟩ | ⟨c, id, cs, -, he⟩ :=
    w.step_cases s <;> rw [he]

theorem messages_subset_step (w : Worker) (s : Store) :
    ∀ m ∈ w.messages, m ∈ (w.step s).1.messages := by
  obtain he | ⟨c, cs, -, he⟩ | ⟨c, cs, -, he⟩ | ⟨c, cs, id, s', -, -, he⟩ | ⟨c, id, cs, -, he⟩ :=
    w.step_cases s <;> rw [he]
  · exact fun _ hm => hm
  · exact fun _ hm => hm
  · exact fun _ hm => hm
  · exact fun _ hm => hm
  · intro m hm
    simp only [messages, List.map_append]
    exact List.mem_append_left _ hm

/-- The owner of the id with which a message is added is the pair of the message. -/
theorem Sound.owner (h : w.Sound s) (hs : s.Coherent) {c : Candidate} {id : String}
    {cs : List Candidate} (hstage : w.stage = .assigned c id cs) :
    s.ids.owner? id = some c.key :=
  (IdTable.owner?_iff_id? hs.consistent).mpr (h.given (c, id) (by simp [Worker.given, hstage]))

/-- What a worker does to the store is at most one step on it. -/
theorem Sound.steps (h : w.Sound s) (hs : s.Coherent) :
    Relation.ReflTransGen Store.Step s (w.step s).2 := by
  obtain he | ⟨c, cs, -, he⟩ | ⟨c, cs, -, he⟩ | ⟨c, cs, id, s', -, ha, he⟩ | ⟨c, id, cs, hw, he⟩ :=
    w.step_cases s <;> rw [he]
  · exact .single (.intern c.text)
  · exact .single (.assign ha)
  · exact .single (.add (h.owner hs hw) c.context_ne_empty (tidy_messageOf _ _ _))

theorem Sound.step (h : w.Sound s) (hs : s.Coherent) : (w.step s).1.Sound (w.step s).2 := by
  have hretains := (hs.steps (h.steps hs)).2
  have hleft := h.left
  obtain he | ⟨c, cs, hw, he⟩ | ⟨c, cs, hw, he⟩ | ⟨c, cs, id, s', hw, ha, he⟩ |
    ⟨c, id, cs, hw, he⟩ := w.step_cases s <;> rw [he] at hretains ⊢ <;>
    have hgiven := (h.retains hretains).given
  · exact h
  · exact ⟨by simpa [Worker.given, hw] using hgiven, by simpa [left?, hw] using hleft⟩
  · exact ⟨by simpa [Worker.given, hw] using hgiven, by simp [left?]⟩
  · have hs' := hs.assignId ha
    have hid : s'.ids.id? c.key = some id :=
      (IdTable.owner?_iff_id? hs'.consistent).mp (hs.owner?_assignId ha)
    refine ⟨fun e he' => ?_, by simpa [left?, hw] using hleft⟩
    rcases List.mem_append.mp he' with he' | he'
    · exact hgiven e (by simpa [Worker.given, hw] using he')
    · rw [List.mem_singleton.mp he']
      exact hid
  · exact ⟨by simpa [Worker.given, hw] using hgiven, by simpa [left?, hw] using hleft⟩

/-- A step adds to the sets of the store what it adds to the messages of the worker. -/
theorem Sound.sums_step (h : w.Sound s) (hs : s.Coherent) {ms ms' : List Message}
    (hsums : s.Sums ms) (hw : ∀ m ∈ w.messages, m ∈ ms)
    (hms : ∀ m, m ∈ ms' ↔ m ∈ ms ∨ m ∈ (w.step s).1.messages) : (w.step s).2.Sums ms' := by
  -- a step that adds no message leaves the sets as they are
  have same : (w.step s).1.messages = w.messages → (w.step s).2.messages = s.messages →
      (w.step s).2.Sums ms' := by
    intro hmessages hstore P hP key
    have hmem : ∀ m, m ∈ ms' ↔ m ∈ ms := fun m => by
      rw [hms, hmessages]
      exact ⟨fun hor => hor.elim id (hw m), .inl⟩
    simp only [hstore, hmem]
    exact hsums P hP key
  obtain he | ⟨c, cs, -, he⟩ | ⟨c, cs, -, he⟩ | ⟨c, cs, id, s', -, ha, he⟩ |
    ⟨c, id, cs, hstage, he⟩ := w.step_cases s
  · exact same (by rw [he]) (by rw [he])
  · exact same (by rw [he]; rfl) (by rw [he]; rfl)
  · exact same (by rw [he]; rfl) (by rw [he])
  · refine same (by rw [he]; rfl) ?_
    obtain ⟨ids, -, rfl⟩ := Store.assignId_eq_some.mp ha
    rw [he]
  · rw [he] at hms ⊢
    refine hs.sums_add (h.owner hs hstage) hsums fun m => ?_
    rw [hms]
    simp only [messages, List.map_append, List.map_cons, List.map_nil, List.mem_append,
      List.mem_singleton]
    exact ⟨fun hor => hor.elim .inl fun hor => hor.elim (.inl ∘ hw m) .inr,
      fun hor => hor.elim .inl (.inr ∘ .inr)⟩

end Worker

/-! ### All workers -/

namespace Crew

/-- The messages that the workers have added. -/
def messages (crew : Crew) : List Message := crew.workers.flatMap Worker.messages

/-- What holds behind every step of workers that began at the store `start`. -/
structure Sound (start : Store) (crew : Crew) : Prop where
  coherent : crew.store.Coherent
  tidy : crew.store.Tidy
  workers : ∀ w ∈ crew.workers, w.Sound crew.store
  sums : crew.store.Sums (start.messages ++ crew.messages)

variable {start : Store} {crew : Crew}

theorem sound_start (h : start.Coherent) (htidy : start.Tidy) (jobs : List Job) :
    (Crew.start jobs start).Sound start where
  coherent := h
  tidy := htidy
  workers w hw := by
    obtain ⟨job, -, rfl⟩ := List.mem_map.mp hw
    exact Worker.sound_start job start
  sums := by
    have hnone : (Crew.start jobs start).messages = [] := by
      simp [messages, Crew.start, Worker.messages, Worker.start]
    rw [hnone, List.append_nil]
    exact fun _ _ _ => Iff.rfl

/-- Putting a larger list in the place of one of some lists. -/
theorem mem_flatMap_set {α β : Type} {f : α → List β} {a b : α} (hsub : ∀ x ∈ f a, x ∈ f b)
    {l : List α} {i : Nat} (h : l[i]? = some a) (x : β) :
    x ∈ (l.set i b).flatMap f ↔ x ∈ l.flatMap f ∨ x ∈ f b := by
  induction l generalizing i with
  | nil => simp at h
  | cons y ys ih =>
    cases i with
    | zero =>
      obtain rfl : y = a := by simpa using h
      simp only [List.set_cons_zero, List.flatMap_cons, List.mem_append]
      exact ⟨fun hor => hor.elim .inr (.inl ∘ .inr),
        fun hor => hor.elim (fun hor => hor.elim (.inl ∘ hsub x) .inr) .inl⟩
    | succ i =>
      rw [List.set_cons_succ, List.flatMap_cons, List.flatMap_cons, List.mem_append,
        List.mem_append, ih (by simpa using h), or_assoc]

theorem Sound.step (h : crew.Sound start) (i : Nat) : (crew.step i).Sound start := by
  unfold Crew.step
  cases hi : crew.workers[i]? with
  | none => exact h
  | some w =>
    have hmem := List.mem_of_getElem? hi
    have hw := h.workers w hmem
    obtain ⟨hcoherent, hretains⟩ := h.coherent.steps (hw.steps h.coherent)
    refine ⟨hcoherent, h.tidy.steps (hw.steps h.coherent), fun x hx => ?_, ?_⟩
    · rcases List.mem_or_eq_of_mem_set hx with hx | rfl
      · exact (h.workers x hx).retains hretains
      · exact hw.step h.coherent
    · have hin : ∀ m ∈ w.messages, m ∈ start.messages ++ crew.messages := fun m hm =>
        List.mem_append_right _ (List.mem_flatMap.mpr ⟨w, hmem, hm⟩)
      refine hw.sums_step h.coherent h.sums hin fun m => ?_
      rw [List.mem_append, List.mem_append, or_assoc, messages, messages,
        mem_flatMap_set (w.messages_subset_step crew.store) hi]

theorem Sound.run (h : crew.Sound start) (schedule : List Nat) :
    (crew.run schedule).Sound start := by
  induction schedule generalizing crew with
  | nil => exact h
  | cons i schedule ih => exact ih (h.step i)

theorem map_job_run (crew : Crew) (schedule : List Nat) :
    (crew.run schedule).workers.map (·.job) = crew.workers.map (·.job) := by
  induction schedule generalizing crew with
  | nil => rfl
  | cons i schedule ih =>
    refine (ih (crew.step i)).trans ?_
    unfold Crew.step
    cases hi : crew.workers[i]? with
    | none => rfl
    | some w =>
      obtain ⟨hlt, rfl⟩ := List.getElem?_eq_some_iff.mp hi
      have hself : (crew.workers.map (·.job)).set i crew.workers[i].job =
          crew.workers.map (·.job) := by
        rw [← List.map_set, List.set_getElem_self]
      simp only [List.map_set, crew.workers[i].job_step, hself]

/-- The messages of all candidates of the jobs, each by itself and without its id. -/
def reports (jobs : List Job) : List Message :=
  jobs.flatMap fun job => job.file.candidates.map (messageOf job.file.filename "")

/-- When all workers have ended, they have added the message of every candidate of their jobs. -/
theorem Sound.reports_eq (h : crew.Sound start) (hdone : crew.IsDone) :
    reports (crew.workers.map (·.job)) = crew.messages.map ({ · with id := "" }) := by
  unfold reports messages
  rw [List.flatMap_map, List.map_flatMap]
  refine List.flatMap_congr fun w hw => ?_
  have hall := (h.workers w hw).left [] (by simp [Worker.left?, hdone w hw])
  rw [← hall, List.append_nil, Worker.messages, List.map_map, List.map_map]
  rfl

theorem Sound.sums_reports (h : crew.Sound start) (hdone : crew.IsDone) :
    crew.store.Sums (start.messages ++ reports (crew.workers.map (·.job))) := by
  intro P hP key
  rw [h.sums P hP key, h.reports_eq hdone]
  have hid : ∀ m : Message, ({ m with id := "" } : Message).key = m.key := fun _ => rfl
  simp only [List.mem_append, or_and_right, exists_or, List.mem_map, exists_exists_and_eq_and,
    hid, hP.withId]

/-! ### A worker alone -/

theorem run_of_failed {w : Worker} {e : ExhaustedIds} (hw : w.stage = .failed e) (s : Store)
    (n : Nat) : (⟨[w], s⟩ : Crew).run (List.replicate n 0) = ⟨[w], s⟩ := by
  have hstep : (⟨[w], s⟩ : Crew).step 0 = ⟨[w], s⟩ := by simp [Crew.step, Worker.step, hw]
  induction n with
  | zero => rfl
  | succ n ih =>
    rw [List.replicate_succ]
    exact (congrArg (·.run (List.replicate n 0)) hstep).trans ih

theorem run_of_ready {w : Worker} {cs : List Candidate} (hw : w.stage = .ready cs) (s : Store) :
    let (r, s') := recordAll w.job.file.filename w.job.options.idLength cs s
    ∃ w', (⟨[w], s⟩ : Crew).run (List.replicate (3 * cs.length) 0) = ⟨[w'], s'⟩ ∧
      w'.result? = some (r.map (w.recorded.map (·.2) ++ ·)) := by
  induction cs generalizing w s with
  | nil => exact ⟨w, rfl, by simp [Worker.result?, hw, Except.map]⟩
  | cons c cs ih =>
    -- a candidate takes three steps: its text, its id and its message
    have hsteps : List.replicate (3 * (c :: cs).length) 0 =
        0 :: 0 :: 0 :: List.replicate (3 * cs.length) 0 := by
      rw [List.length_cons, Nat.mul_succ]
      rfl
    have hrun : (⟨[w], s⟩ : Crew).run (List.replicate (3 * (c :: cs).length) 0) =
        ((((⟨[w], s⟩ : Crew).step 0).step 0).step 0).run (List.replicate (3 * cs.length) 0) := by
      rw [hsteps]
      rfl
    rw [hrun]
    simp only [recordAll, record]
    cases ha : (s.intern c.text).assignId c.text c.context w.job.options.idLength with
    | none =>
      refine ⟨{ w with stage := .failed ⟨c.text⟩ }, ?_, rfl⟩
      have hstays := run_of_failed (w := { w with stage := .failed ⟨c.text⟩ }) rfl
        (s.intern c.text) (3 * cs.length)
      simpa [Crew.step, Worker.step, hw, ha] using hstays
    | some r =>
      obtain ⟨id, s₁⟩ := r
      obtain ⟨w', hw', hresult⟩ :=
        ih (w := { w with recorded := w.recorded ++ [(c, id)], stage := .ready cs }) rfl
          (s₁.add (messageOf w.job.file.filename id c))
      refine ⟨w', ?_, ?_⟩
      · rcases hr : recordAll w.job.file.filename w.job.options.idLength cs
          (s₁.add (messageOf w.job.file.filename id c)) with ⟨e | ids, s₂⟩ <;>
          simpa [Crew.step, Worker.step, hw, ha, hr] using hw'
      · rw [hresult]
        rcases hr : recordAll w.job.file.filename w.job.options.idLength cs
          (s₁.add (messageOf w.job.file.filename id c)) with ⟨e | ids, s₂⟩ <;>
          simp [Except.map, hr]

/-- A worker that nobody interrupts records its file as it is recorded in one go. -/
theorem run_alone (job : Job) (s : Store) :
    let (r, s') := recordAll job.file.filename job.options.idLength job.file.candidates s
    ∃ w, (Crew.start [job] s).run (List.replicate (3 * job.file.candidates.length) 0) = ⟨[w], s'⟩ ∧
      w.result? = some r := by
  obtain ⟨w, hw, hresult⟩ := run_of_ready (w := Worker.start job) rfl s
  refine ⟨w, hw, hresult.trans (congrArg some ?_)⟩
  simp only [Worker.start, List.map_nil, List.nil_append]
  rcases recordAll job.file.filename job.options.idLength job.file.candidates s with
    ⟨e | ids, s'⟩ <;> rfl

end Crew

/-- In every interleaving and behind every step ids are owned by one pair each, and an id that a
worker was given is the one of its pair. When all workers have ended, each pair that occurs has one
message, with the locations and comments of all candidates and of the store at the start. -/
theorem merges_run (calls : List StoreCall) (jobs : List Job) (schedule : List Nat) :
    let start := runCalls calls {}
    let crew := (Crew.start jobs start).run schedule
    crew.store.OwnedIds ∧
    (∀ w ∈ crew.workers, ∀ e ∈ w.given, crew.store.ids.id? e.1.key = some e.2) ∧
    (crew.IsDone → crew.store.Merges (start.messages ++ Crew.reports jobs)) := by
  intro start crew
  have hstart := coherent_runCalls Store.coherent_empty calls
  have htidy := tidy_runCalls Store.coherent_empty (by simp [Store.Tidy]) calls
  have h : crew.Sound start := (Crew.sound_start hstart htidy jobs).run schedule
  refine ⟨h.coherent.ownedIds, fun w hw => (h.workers w hw).given, fun hdone => ?_⟩
  have hjobs : crew.workers.map (·.job) = jobs := by
    rw [Crew.map_job_run]
    simp [Crew.start, Worker.start, Function.comp_def]
  have hsums := h.sums_reports hdone
  rw [hjobs] at hsums
  exact h.coherent.merges h.tidy hsums

/-- Two workers record the same two texts in opposite order. They get to assign colliding ids before
any message is there, and each of them then meets the message that the other one has added. -/
theorem merges_run_collision :
    let opening : Candidate := ⟨.arrowExpression, "open", "Open File", 0, 0, [], none, 1, 1⟩
    let undoing : Candidate := ⟨.method, "undo", "Undo OK", 0, 0, [⟨0, "n", none⟩], none, 2, 1⟩
    let jobs : List Job := [
      { file := { filename := "menu.ts", candidates := [opening, undoing] }
        options := { idLength := 4 } },
      { file := { filename := "bar.ts", candidates := [undoing, opening] }
        options := { idLength := 4 } }]
    let crew := (Crew.start jobs {}).run [0, 1, 1, 0, 0, 0, 1, 1, 0, 0, 1, 1]
    crew.IsDone ∧ crew.store.messages.map (fun m => (m.id, m.text, m.locations.map (·.file))) =
        [("1e8d", "Undo OK", ["bar.ts", "menu.ts"]),
          ("852b9d", "Open File", ["bar.ts", "menu.ts"])] ∧
      crew.store.Merges (Crew.reports jobs) := by
  intro opening undoing jobs crew
  have hdone : crew.IsDone := by decide +kernel
  refine ⟨hdone, by decide +kernel, ?_⟩
  exact (merges_run [] jobs [0, 1, 1, 0, 0, 0, 1, 1, 0, 0, 1, 1]).2.2 hdone

end Phrasebook
