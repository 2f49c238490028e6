import Phrasebook.Proofs.IdTable.Candidates
import Phrasebook.Proofs.Pass.Reports

/-!
# The order of the files of a pass

Ids depend on the order in which pairs are seen only where the first candidates of two pairs are
the same. Where they differ, each pair is given its first candidate (`IdTable.First.assign`), so a
file has the result that it has alone, and the store has the messages that the reports of all files
make together. `run_perm` says so of every order of the files.
-/

namespace Phrasebook

/-! ### First candidates -/

/-- Different pairs of `keys` have different first candidates. -/
def FirstIdsApart (keys : List MessageKey) (length : Nat) : Prop :=
  ∀ key ∈ keys, ∀ key' ∈ keys, key.firstId length = key'.firstId length → key = key'

instance (keys : List MessageKey) (length : Nat) : Decidable (FirstIdsApart keys length) :=
  inferInstanceAs (Decidable (∀ key ∈ keys, ∀ key' ∈ keys, _ → _))

/-- Only the pairs `keys` have ids, and each has its first candidate. -/
def IdTable.First (t : IdTable) (keys : List MessageKey) (length : Nat) : Prop :=
  ∀ e ∈ t.entries, e.2 ∈ keys ∧ e.1 = e.2.firstId length

section First

variable {keys : List MessageKey} {length : Nat}

theorem IdTable.First.of_owner? {t : IdTable} (h : t.First keys length) {id : String}
    {key : MessageKey} (ho : t.owner? id = some key) : key ∈ keys ∧ id = key.firstId length := by
  obtain ⟨e, he, rfl⟩ := Option.map_eq_some_iff.mp ho
  obtain rfl : e.1 = id := by simpa using List.find?_some he
  exact h e (List.mem_of_find?_eq_some he)

theorem IdTable.First.of_id? {t : IdTable} (h : t.First keys length) {id : String}
    {key : MessageKey} (hi : t.id? key = some id) : id = key.firstId length := by
  obtain ⟨e, he, rfl⟩ := Option.map_eq_some_iff.mp hi
  obtain rfl : e.2 = key := by simpa using List.find?_some he
  exact (h e (List.mem_of_find?_eq_some he)).2

theorem IdTable.First.assign {t : IdTable} (h : t.First keys length)
    (hkeys : FirstIdsApart keys length) {key : MessageKey} (hkey : key ∈ keys) :
    ∃ t', t.assign key length = some (key.firstId length, t') ∧ t'.First keys length := by
  cases hid : t.id? key with
  | some id =>
    obtain rfl := h.of_id? hid
    exact ⟨t, assign_of_id? hid length, h⟩
  | none =>
    -- the first candidate is free: a pair that owns it is this one
    have hfree : t.isFreeFor key (key.firstId length) = true := by
      refine isFreeFor_iff.mpr fun owner howner => ?_
      obtain ⟨howns, heq⟩ := h.of_owner? howner
      exact hkeys owner howns key hkey heq.symm
    refine ⟨⟨t.entries ++ [(key.firstId length, key)]⟩, assign_of_free hid hfree, fun e he => ?_⟩
    rcases List.mem_append.mp he with he | he
    · exact h e he
    · rw [List.mem_singleton.mp he]
      exact ⟨hkey, rfl⟩

variable {s : Store}

theorem record_of_first (h : s.ids.First keys length) (hkeys : FirstIdsApart keys length)
    (filename : String) {c : Candidate} (hc : c.key ∈ keys) :
    ∃ s', record filename length c s = (.ok (c.key.firstId length), s') ∧
      s'.ids.First keys length := by
  obtain ⟨ids, hassign, hfirst⟩ := h.assign hkeys hc
  have ha : (s.intern c.text).assignId c.text c.context length =
      some (c.key.firstId length, { s.intern c.text with ids }) :=
    Store.assignId_eq_some.mpr ⟨ids, hassign, rfl⟩
  refine ⟨Store.add { s.intern c.text with ids } (messageOf filename (c.key.firstId length) c),
    ?_, hfirst⟩
  simp only [record, ha]

theorem recordAll_of_first (h : s.ids.First keys length) (hkeys : FirstIdsApart keys length)
    (filename : String) {cs : List Candidate} (hcs : ∀ c ∈ cs, c.key ∈ keys) :
    ∃ s', recordAll filename length cs s = (.ok (cs.map fun c => c.key.firstId length), s') ∧
      s'.ids.First keys length := by
  induction cs generalizing s with
  | nil => exact ⟨s, rfl, h⟩
  | cons c cs ih =>
    obtain ⟨hc, hcs⟩ := List.forall_mem_cons.mp hcs
    obtain ⟨s₁, hr, h₁⟩ := record_of_first h hkeys filename hc
    obtain ⟨s₂, hrs, h₂⟩ := ih h₁ hcs
    exact ⟨s₂, recordAll_cons_eq_ok_iff.mpr ⟨_, s₁, _, hr, hrs, rfl⟩, h₂⟩

theorem Prepared.apply_of_first {p : Prepared} {o : Options} (h : s.ids.First keys o.idLength)
    (hkeys : FirstIdsApart keys o.idLength) (hp : ∀ c ∈ p.candidates, c.key ∈ keys)
    (source : String) : (p.apply source o s).2.ids.First keys o.idLength ∧
      ∃ output, (p.apply source o s).1 = .ok output ∧ (p.apply source o {}).1 = .ok output := by
  by_cases hnil : p.candidates = []
  · rw [apply_of_nil p source o hnil, apply_of_nil p source o hnil]
    exact ⟨h, _, rfl, rfl⟩
  · obtain ⟨s', hr, hfirst⟩ := recordAll_of_first h hkeys p.filename hp
    have hnone : ({} : Store).ids.First keys o.idLength := fun _ he => by cases he
    obtain ⟨s'', hr', -⟩ := recordAll_of_first hnone hkeys p.filename hp
    rw [apply_of_ne_nil p source o hnil, apply_of_ne_nil p source o hnil, hr, hr']
    exact ⟨hfirst, _, rfl, rfl⟩

end First

/-! ### Stores with the same messages -/

namespace Message

/-- A message but for the names of its parameters, which are those of its first report. -/
def withoutParameters (m : Message) : Message := { m with parameters := [] }

end Message

namespace Store

variable {s s' : Store} {ms : List Message}

theorem Sums.of_mem_iff {ms' : List Message} (h : s.Sums ms) (hms : ∀ m, m ∈ ms ↔ m ∈ ms') :
    s.Sums ms' := by
  intro P hP key
  rw [h P hP key]
  simp only [hms]

/-- A message is known from its pair, its id and the messages that were put together. -/
theorem withoutParameters_eq (hc : s.Coherent) (hc' : s'.Coherent) (ht : s.Tidy) (ht' : s'.Tidy)
    (hs : s.Sums ms) (hs' : s'.Sums ms) {m m' : Message} (hm : m ∈ s.messages)
    (hm' : m' ∈ s'.messages) (hkey : m.key = m'.key) (hid : m.id = m'.id) :
    m.withoutParameters = m'.withoutParameters := by
  obtain ⟨htext, hcontext⟩ :=
    (MessageKey.of_inj (hc.context_ne m hm) (hc'.context_ne m' hm')).mp hkey
  have hmerges := hc.merges ht hs
  have hmerges' := hc'.merges ht' hs'
  have hlocations : m.locations = m'.locations := by
    refine Sorted.Ascending.ext Sorted.strictOrder_locationLt (ht m hm).locations
      (ht' m' hm').locations fun l => ?_
    rw [(hmerges.locations m hm).2, (hmerges'.locations m' hm').2, hkey]
  have hcomments : m.comments = m'.comments := by
    refine Sorted.Ascending.ext Sorted.strictOrder_textLt (ht m hm).comments
      (ht' m' hm').comments fun text => ?_
    rw [(hmerges.comments m hm).2, (hmerges'.comments m' hm').2, hkey]
  simp only [Message.withoutParameters, htext, hcontext, hid, hlocations, hcomments]

section

variable {f : MessageKey → String}

theorem mem_withoutParameters (hc : s.Coherent) (hc' : s'.Coherent) (ht : s.Tidy) (ht' : s'.Tidy)
    (hs : s.Sums ms) (hs' : s'.Sums ms) (hid : ∀ m ∈ s.messages, m.id = f m.key)
    (hid' : ∀ m ∈ s'.messages, m.id = f m.key) {x : Message}
    (hx : x ∈ s.messages.map Message.withoutParameters) :
    x ∈ s'.messages.map Message.withoutParameters := by
  obtain ⟨m, hm, rfl⟩ := List.mem_map.mp hx
  obtain ⟨report, hreport, hkey⟩ := (hc.merges ht hs).occurs m hm
  obtain ⟨m', ⟨hm', hkey'⟩, -⟩ := (hc'.merges ht' hs').existsUnique report hreport
  rw [hkey] at hkey'
  refine List.mem_map.mpr ⟨m', hm', ?_⟩
  refine withoutParameters_eq hc' hc ht' ht hs' hs hm' hm hkey' ?_
  rw [hid m hm, hid' m' hm', hkey']

/-- When ids are known from pairs, the messages are known from what was put together. -/
theorem messages_eq (hc : s.Coherent) (hc' : s'.Coherent) (ht : s.Tidy) (ht' : s'.Tidy)
    (hs : s.Sums ms) (hs' : s'.Sums ms) (hid : ∀ m ∈ s.messages, m.id = f m.key)
    (hid' : ∀ m ∈ s'.messages, m.id = f m.key) :
    s.messages.map Message.withoutParameters = s'.messages.map Message.withoutParameters := by
  have hascending {s : Store} (hc : s.Coherent) :
      AscendingIds (s.messages.map Message.withoutParameters) :=
    List.pairwise_map.mpr hc.ascending
  have hnodup {s : Store} (hc : s.Coherent) :
      (s.messages.map Message.withoutParameters).Nodup :=
    (hascending hc).imp fun hlt heq => hlt.ne (congrArg Message.id heq)
  have hperm : (s.messages.map Message.withoutParameters).Perm
      (s'.messages.map Message.withoutParameters) :=
    (List.perm_ext_iff_of_nodup (hnodup hc) (hnodup hc')).mpr fun _ =>
      ⟨mem_withoutParameters hc hc' ht ht' hs hs' hid hid',
        mem_withoutParameters hc' hc ht' ht hs' hs hid' hid⟩
  exact hperm.eq_of_pairwise (fun _ _ _ _ hlt hlt' => absurd hlt' (lt_asymm hlt))
    (hascending hc) (hascending hc')

end

end Store

/-! ### Passes -/

namespace Pass

variable {fs : FileSystem} {root : Path} {o : Options}

variable (fs root o) in
/-- What is found out about a file that is applied alone. -/
def alone (p : Path) : Except Failure AppliedFile := ((applyAt fs root o p).run {}).1

variable (fs root o) in
/-- The pairs of the candidates of files. -/
def keysOf (files : List Path) : List MessageKey :=
  files.flatMap fun p => (preparedAt fs root o p).candidates.map Candidate.key

theorem mem_keysOf {files : List Path} {p : Path} (hp : p ∈ files) {c : Candidate}
    (hc : c ∈ (preparedAt fs root o p).candidates) : c.key ∈ keysOf fs root o files :=
  List.mem_flatMap.mpr ⟨p, hp, List.mem_map_of_mem hc⟩

theorem alone_of_readText {p : Path} {source : String} (h : fs.readText p = .ok source)
    {output : Output} (ht : (transform source (relativePath root p).slashed o {}).1 = .ok output) :
    alone fs root o p = .ok ⟨relativePath root p, output⟩ := by
  rw [alone, applyAt_readable h]
  rcases hr : transform source (relativePath root p).slashed o {} with ⟨e | out, s'⟩ <;>
    rw [hr] at ht <;> cases ht
  rfl

section

variable {keys : List MessageKey} {s : Store}

theorem applyAt_of_first (h : s.ids.First keys o.idLength)
    (hkeys : FirstIdsApart keys o.idLength) {p : Path}
    (hp : ∀ c ∈ (preparedAt fs root o p).candidates, c.key ∈ keys) :
    ((applyAt fs root o p).run s).1 = alone fs root o p ∧
      ((applyAt fs root o p).run s).2.ids.First keys o.idLength ∧
      ¬ IsExhausted (alone fs root o p) ∧ ∀ source, fs.readText p = .ok source → ∃ output,
        (transform source (relativePath root p).slashed o {}).1 = .ok output ∧
          alone fs root o p = .ok ⟨relativePath root p, output⟩ := by
  cases hread : fs.readText p with
  | error fault =>
    rw [alone, applyAt_unreadable hread, applyAt_unreadable hread]
    refine ⟨rfl, h, ?_, fun source hsource => by cases hsource⟩
    rintro ⟨e, he⟩
    cases he
  | ok source =>
    rw [preparedAt_of_readText hread] at hp
    obtain ⟨hfirst, output, hok, halone⟩ := Prepared.apply_of_first h hkeys hp source
    have hout := alone_of_readText hread halone
    rw [hout, applyAt_readable hread, transform]
    rcases hr : (prepare source (relativePath root p).slashed o).apply source o s with
      ⟨e | out, s'⟩ <;> rw [hr] at hfirst hok <;> cases hok
    refine ⟨rfl, hfirst, id, fun source' hsource => ?_⟩
    obtain rfl := Except.ok.inj hsource
    exact ⟨output, halone, rfl⟩

theorem mapM_applyAt_of_first (h : s.ids.First keys o.idLength)
    (hkeys : FirstIdsApart keys o.idLength) {files : List Path}
    (hfiles : ∀ p ∈ files, ∀ c ∈ (preparedAt fs root o p).candidates, c.key ∈ keys) :
    ((files.mapM (applyAt fs root o)).run s).1 = files.map (alone fs root o) ∧
      ((files.mapM (applyAt fs root o)).run s).2.ids.First keys o.idLength := by
  induction files generalizing s with
  | nil => exact ⟨rfl, h⟩
  | cons p ps ih =>
    obtain ⟨hp, hps⟩ := List.forall_mem_cons.mp hfiles
    obtain ⟨hresult, hstore, -⟩ := applyAt_of_first h hkeys hp
    obtain ⟨hresults, hstores⟩ := ih hstore hps
    rw [mapM_run_cons, hresult, hresults]
    exact ⟨rfl, hstores⟩

end

/-- What a pass over files leaves behind when each pair gets its first candidate. -/
theorem store_of_first {files files' : List Path} (hperm : files'.Perm files)
    (hkeys : FirstIdsApart (keysOf fs root o files) o.idLength) (s : Store) :
    let applied := (files'.mapM (applyAt fs root o)).run s.clear
    applied.1 = files'.map (alone fs root o) ∧ applied.2.Coherent ∧ applied.2.Tidy ∧
      applied.2.Sums (files.flatMap fun p => (preparedAt fs root o p).reports) ∧
      ∀ m ∈ applied.2.messages, m.id = m.key.firstId o.idLength := by
  intro applied
  have hclear := Store.Coherent.clear s
  have hfiles : ∀ p ∈ files', ∀ c ∈ (preparedAt fs root o p).candidates,
      c.key ∈ keysOf fs root o files := fun p hp c hc => mem_keysOf (hperm.mem_iff.mp hp) hc
  have hnone : s.clear.ids.First (keysOf fs root o files) o.idLength := fun e he => by cases he
  obtain ⟨hresults, hfirst⟩ := mapM_applyAt_of_first hnone hkeys hfiles
  have hsteps : Relation.ReflTransGen Store.Step s.clear applied.2 :=
    steps_mapM_applyAt hclear files'
  have hcoherent : applied.2.Coherent := (hclear.steps hsteps).1
  -- each file is applied as it is alone, where no pair is without an id
  have hok : ∀ x ∈ applied.1, ¬ IsExhausted x := by
    intro x hx
    rw [show applied.1 = files'.map (alone fs root o) from hresults] at hx
    obtain ⟨p, hp, rfl⟩ := List.mem_map.mp hx
    exact (applyAt_of_first hnone hkeys (hfiles p hp)).2.2.1
  have hsums := (sums_mapM_applyAt hclear (Store.sums_empty rfl) hok).1
  refine ⟨hresults, hcoherent, ?_, hsums.of_mem_iff fun m => ?_, fun m hm => ?_⟩
  · have htidy : s.clear.Tidy := fun m hm => by cases hm
    exact htidy.steps hsteps
  · rw [List.nil_append]
    exact (hperm.flatMap_right _).mem_iff
  · exact (hfirst.of_owner? (hcoherent.owned m hm)).2

end Pass

end Phrasebook
