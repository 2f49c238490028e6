import Phrasebook.Proofs.FileSystem
import Mathlib.Data.Set.List

/-!
# Directories to which paths lead

A path opens a directory if names can be joined to it (`Opens`). What is in front of the last
component of a path that leads anywhere opens a directory (`opens_parent?`), so that another name
in the place of the last one leads to where that one stands beside it (`locate_withFileName`).
Writing a text takes no directory away (`directoryAt_writeText`).
-/

namespace Phrasebook

namespace Path

/-! ### Going up a path as it is written -/

theorem body_eq_of_steps {p : Path} {absolute : Bool} {cs : List Component} (hroot : .root ∉ cs)
    (h : p.steps = (if absolute then [.root] else []) ++ cs) :
    p.isAbsolute = absolute ∧ body p.text.toList = cs := by
  by_cases habsolute : p.isAbsolute = true
  · rw [steps_of_isAbsolute habsolute] at h
    cases absolute with
    | true => exact ⟨habsolute, (List.cons.inj h).2⟩
    | false => exact absurd (h ▸ List.mem_cons_self : Component.root ∈ [] ++ cs) hroot
  · rw [steps_of_not_isAbsolute habsolute] at h
    cases absolute with
    | true => exact absurd (h ▸ List.mem_cons_self) (root_notMem_body p.text.toList)
    | false => exact ⟨by simpa using habsolute, h⟩

theorem body_parent? {p : Path} {front : List Component} {last : Component}
    (h : body p.text.toList = front ++ [last]) :
    ∃ q, p.parent? = some q ∧ q.isAbsolute = p.isAbsolute ∧ body q.text.toList = front := by
  obtain ⟨q, hq, hsteps⟩ := steps_parent? h
  have hroot : .root ∉ front := fun hmem =>
    root_notMem_body p.text.toList (h ▸ List.mem_append_left _ hmem)
  exact ⟨q, hq, body_eq_of_steps hroot hsteps⟩

theorem body_eq_names {cs : List Char} (h : .parent ∉ body cs) :
    ∃ names : List String, body cs = names.map .name := by
  have hnames : ∀ c ∈ body cs, c ∈ Set.range Component.name := by
    intro c hc
    cases c with
    | root => exact absurd hc (root_notMem_body cs)
    | current => exact absurd hc (current_notMem_body cs)
    | parent => exact absurd hc h
    | name n => exact ⟨n, rfl⟩
  obtain ⟨names, hbody⟩ : body cs ∈ Set.range (List.map Component.name) :=
    Set.range_list_map _ ▸ hnames
  exact ⟨names, hbody.symm⟩

/-- Behind the root, and behind a path that means nothing, there is at most the empty path. -/
theorem parent?_of_body_nil {p : Path} (h : body p.text.toList = []) :
    p.parent? = none ∨ p.parent? = some ⟨""⟩ ∧ p.isAbsolute = false := by
  have hnone : bodyComponents (dropVoidEnd (p.pieces.drop p.headLength)) = [] := by
    rw [bodyComponents_dropVoidEnd, bodyComponents_drop_headLength, h]
  rw [parent?]
  split
  · rename_i piece front hreverse
    obtain ⟨hpieces, hvoid⟩ := dropVoidEnd_eq_concat hreverse
    rw [hpieces, bodyComponents_append, bodyComponents_cons hvoid] at hnone
    simp at hnone
  · split
    · rename_i hhead
      exact .inr ⟨rfl, by_contra fun habsolute => by simp [headLength, habsolute] at hhead⟩
    · exact .inl rfl

end Path

namespace FileSystem

variable {fs : FileSystem}

/-- Where a path begins. -/
def origin (fs : FileSystem) (p : Path) : Address :=
  if p.isAbsolute then [] else fs.workingDirectory

theorem follow_steps (p : Path) : fs.follow fs.workingDirectory p.steps =
    fs.follow (fs.origin p) (Path.body p.text.toList) := by
  rw [Path.steps, origin]
  split <;> rfl

theorem resolve_steps_eq (p : Path) : resolve fs.workingDirectory p.steps =
    resolve (fs.origin p) (Path.body p.text.toList) := by
  rw [Path.steps, origin]
  split <;> rfl

/-- A path that names can be joined to: it leads to a directory, or it is empty, which stands for
the working directory then. -/
structure Opens (fs : FileSystem) (p : Path) (a : Address) : Prop where
  text : p.text.toList.any (·.toNat == 0) = false
  follow : fs.follow fs.workingDirectory p.steps = .ok a
  directory : fs.directoryAt a = .ok ()

namespace Opens

variable {p : Path} {a : Address}

theorem address_eq (h : fs.Opens p a) : a = resolve (fs.origin p) (Path.body p.text.toList) := by
  rw [follow_eq_ok h.follow, resolve_steps_eq]

theorem locate_join (h : fs.Opens p a) {n : String} (hn : Path.IsName n)
    (hnull : n.toList.any (·.toNat == 0) = false) : fs.locate (p.join n) = .ok (a ++ [n]) :=
  locate_join_name hn h.text hnull h.follow h.directory

end Opens

/-- What is in front of the last component leads to a directory. -/
theorem opens_parent? {p : Path} {a : Address} {front : List Path.Component}
    {last : Path.Component} (htext : p.text.toList.any (·.toNat == 0) = false)
    (hfollow : fs.follow fs.workingDirectory p.steps = .ok a)
    (hbody : Path.body p.text.toList = front ++ [last]) :
    ∃ q, p.parent? = some q ∧ fs.origin q = fs.origin p ∧ Path.body q.text.toList = front ∧
      fs.Opens q (resolve (fs.origin p) front) := by
  obtain ⟨q, hparent, habsolute, hfront⟩ := Path.body_parent? hbody
  have horigin : fs.origin q = fs.origin p := by rw [origin, origin, habsolute]
  have hlast : last ≠ .root := fun hlast =>
    Path.root_notMem_body p.text.toList (hbody ▸ hlast ▸ List.mem_concat_self)
  rw [follow_steps, hbody] at hfollow
  refine ⟨q, hparent, horigin, hfront, ?_, ?_, directoryAt_of_follow hfollow hlast⟩
  · obtain ⟨rest, hrest⟩ := Path.text_parent?_isPrefix hparent
    rw [← hrest, List.any_append, Bool.or_eq_false_iff] at htext
    exact htext.1
  · rw [follow_steps, horigin, hfront]
    rw [follow_append] at hfollow
    cases hway : fs.follow (fs.origin p) front with
    | error e => rw [hway] at hfollow; cases hfollow
    | ok b => rw [follow_eq_ok hway]

/-- Without the point in front a path leads to where it leads with it. -/
theorem follow_steps_of_components {p : Path} {base a : Address}
    (h : fs.follow base p.components = .ok a) : fs.follow base p.steps = .ok a := by
  by_cases hsteps : p.steps = []
  · have ha := follow_eq_ok h
    rw [← resolve_steps, hsteps] at ha
    rw [hsteps, ha]
    rfl
  · rwa [follow_components hsteps] at h

theorem follow_of_locate {p : Path} {a : Address} (h : fs.locate p = .ok a) :
    p.text.toList.any (·.toNat == 0) = false ∧
      fs.follow fs.workingDirectory p.steps = .ok a := by
  rw [locate] at h
  split at h
  · cases h
  split at h
  · cases h
  · rename_i hnull
    exact ⟨by simpa using hnull, follow_steps_of_components h⟩

theorem opens_of_isDirectory {p : Path} (h : fs.isDirectory p = true) :
    ∃ a, fs.locate p = .ok a ∧ fs.Opens p a := by
  rw [isDirectory] at h
  cases hentry : fs.entry p with
  | error e => rw [hentry] at h; cases h
  | ok e =>
    rw [hentry] at h
    obtain ⟨a, hlocate, hat⟩ := entry_eq_ok hentry
    obtain ⟨htext, hfollow⟩ := follow_of_locate hlocate
    refine ⟨a, hlocate, htext, hfollow, ?_⟩
    cases e with
    | file content => cases h
    | directory es => rw [directoryAt, hat]

/-! ### Names beside each other -/

/-- Another file name leads to where it stands beside the one that is there. -/
theorem locate_withFileName {p : Path} {a : Address} {front : List Path.Component}
    {n name : String} (h : fs.locate p = .ok a) (hsteps : p.steps = front ++ [.name n])
    (hname : Path.IsName name) (hnull : name.toList.any (·.toNat == 0) = false) :
    fs.locate (p.withFileName name) = .ok (resolve fs.workingDirectory front ++ [name]) := by
  obtain ⟨htext, hfollow⟩ := follow_of_locate h
  obtain ⟨front', hbody, hfront⟩ := Path.body_of_steps hsteps
  obtain ⟨q, hparent, horigin, hq, hopens⟩ := opens_parent? htext hfollow hbody
  have hplace : resolve (fs.origin p) front' = resolve fs.workingDirectory front := by
    rw [hfront, origin]
    split <;> rfl
  rw [Path.withFileName, Path.fileName?_of_steps hsteps, hparent, Option.isSome_some, if_pos rfl,
    Option.getD_some, hopens.locate_join hname hnull, hplace]

/-! ### Directories stay -/

/-- What a path leads to is known from the directories on its way. -/
theorem follow_mono {fs' : FileSystem}
    (hdirectories : ∀ a, fs.directoryAt a = .ok () → fs'.directoryAt a = .ok ())
    {base a : Address} {cs : List Path.Component} (h : fs.follow base cs = .ok a) :
    fs'.follow base cs = .ok a := by
  induction cs generalizing base with
  | nil => exact h
  | cons c cs ih =>
    cases c with
    | root => exact ih h
    | current | parent | name =>
      obtain ⟨hbase, hrest⟩ := follow_cons_eq_ok h (by simp)
      rw [follow, hdirectories base hbase]
      · exact ih hrest
      all_goals simp

theorem locate_mono {fs' : FileSystem} (hworking : fs'.workingDirectory = fs.workingDirectory)
    (hdirectories : ∀ a, fs.directoryAt a = .ok () → fs'.directoryAt a = .ok ())
    {p : Path} {a : Address} (h : fs.locate p = .ok a) : fs'.locate p = .ok a := by
  unfold locate at h ⊢
  split at h
  · cases h
  split at h
  · cases h
  · rename_i htext hnull
    rw [if_neg htext, if_neg hnull, hworking]
    exact follow_mono hdirectories h

theorem directoryAt_writeText {fs' : FileSystem} {p : Path} {s : String}
    (h : fs.writeText p s = .ok fs') {a : Address} (ha : fs.directoryAt a = .ok ()) :
    fs'.directoryAt a = .ok () := by
  obtain ⟨b, -, hfree, -, rfl⟩ := writeText_eq_put h
  obtain ⟨es, hes⟩ := directoryAt_eq_ok ha
  have hb : ¬ b <+: a := fun hb => by
    obtain ⟨es', hes'⟩ := Entry.directory_of_isPrefix hes hb
    exact hfree es' hes'
  obtain ⟨es', hes'⟩ := Entry.directory_put (.file (.text s)) hes hb
  rw [directoryAt, put, hes']

/-- A name at which no text can be written, though its path leads there, is one of a directory. -/
theorem writeText_eq_error {p : Path} {s : String} {a : Address} {fault : FileFault}
    (hlocate : fs.locate p = .ok a) (hnames : p.namesDirectory = false)
    (h : fs.writeText p s = .error fault) :
    fault = .isDirectory ∧ ∃ es, fs.tree.at? a = some (.directory es) := by
  simp only [writeText, hlocate, hnames, bind, Except.bind] at h
  split at h
  · exact ⟨(Except.error.inj h).symm, _, ‹_›⟩
  · cases h
  · cases h

end FileSystem

end Phrasebook
