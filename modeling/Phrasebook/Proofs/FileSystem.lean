import Phrasebook.FileSystem
import Phrasebook.Proofs.FileTree
import Phrasebook.Proofs.Path
import Mathlib.Data.Set.Basic

/-!
# What operations on files change

Where a path leads to is known from its steps (`resolve`, `follow_eq_ok`). Making directories
changes no file, and writing a text changes the file that its path leads to (`writeText_eq_ok`).
`OnlyChanges S fs fs'` says that between two file systems the files outside of `S` are the same,
and that none is missing; it holds for programs as well, also for those that fail, since it holds
for each of their operations.
-/

namespace Phrasebook

/-! ### Where components lead to -/

/-- The address to which components lead from another one. -/
def resolve (base : Address) : List Path.Component → Address
  | [] => base
  | .root :: cs => resolve [] cs
  | .current :: cs => resolve base cs
  | .parent :: cs => resolve base.dropLast cs
  | .name name :: cs => resolve (base ++ [name]) cs

theorem resolve_append (base : Address) (cs ds : List Path.Component) :
    resolve base (cs ++ ds) = resolve (resolve base cs) ds := by
  induction cs generalizing base with
  | nil => rfl
  | cons c cs ih => cases c <;> exact ih _

theorem resolve_names (base : Address) (names : List String) :
    resolve base (names.map .name) = base ++ names := by
  induction names generalizing base with
  | nil => exact (List.append_nil base).symm
  | cons n names ih =>
    rw [List.map_cons, resolve, ih, List.append_assoc]
    rfl

theorem resolve_filter (base : Address) (cs : List Path.Component) :
    resolve base (cs.filter (· ≠ .current)) = resolve base cs := by
  induction cs generalizing base with
  | nil => rfl
  | cons c cs ih => cases c <;> exact ih _

theorem resolve_steps (base : Address) (p : Path) :
    resolve base p.steps = resolve base p.components := by
  rw [Path.steps_eq_filter, resolve_filter]

namespace FileSystem

def contentAt (fs : FileSystem) (a : Address) : Option Content := fs.tree.contentAt a

theorem directoryAt_eq_ok {fs : FileSystem} {a : Address} (h : fs.directoryAt a = .ok ()) :
    ∃ es, fs.tree.at? a = some (.directory es) := by
  unfold directoryAt at h
  split at h
  · exact ⟨_, ‹_›⟩
  · cases h
  · cases h

/-- The address that is left by a component other than the root is a directory. -/
theorem follow_cons_eq_ok {fs : FileSystem} {base a : Address} {c : Path.Component}
    {cs : List Path.Component} (h : fs.follow base (c :: cs) = .ok a) (hc : c ≠ .root) :
    fs.directoryAt base = .ok () ∧ fs.follow (resolve base [c]) cs = .ok a := by
  cases c with
  | root => exact absurd rfl hc
  | current | parent | name =>
    simp only [follow, bind, Except.bind] at h
    split at h
    · cases h
    · rename_i hbase
      exact ⟨hbase, h⟩

theorem entry_eq_ok {fs : FileSystem} {p : Path} {e : Entry} (h : fs.entry p = .ok e) :
    ∃ a, fs.locate p = .ok a ∧ fs.tree.at? a = some e := by
  simp only [entry, bind, Except.bind] at h
  split at h
  · cases h
  rename_i a hlocate
  split at h
  · cases h
  · rename_i hat
    split at h
    · cases h
    · exact ⟨a, hlocate, by rw [hat, Except.ok.inj h]⟩

theorem follow_eq_ok {fs : FileSystem} {base a : Address} {cs : List Path.Component}
    (h : fs.follow base cs = .ok a) : a = resolve base cs := by
  induction cs generalizing base with
  | nil => exact (Except.ok.inj h).symm
  | cons c cs ih =>
    by_cases hc : c = .root
    · subst hc
      exact ih h
    · have hstep := ih (follow_cons_eq_ok h hc).2
      rw [hstep, ← resolve_append]
      rfl

theorem directoryAt_of_follow {fs : FileSystem} {base a : Address} {cs : List Path.Component}
    {c : Path.Component} (h : fs.follow base (cs ++ [c]) = .ok a) (hc : c ≠ .root) :
    fs.directoryAt (resolve base cs) = .ok () := by
  induction cs generalizing base with
  | nil => exact (follow_cons_eq_ok h hc).1
  | cons d cs ih =>
    by_cases hd : d = .root
    · subst hd
      exact ih h
    · have hrest := ih (follow_cons_eq_ok h hd).2
      rwa [← resolve_append] at hrest

theorem follow_append {fs : FileSystem} (base : Address) (cs ds : List Path.Component) :
    fs.follow base (cs ++ ds) = fs.follow base cs >>= fun a => fs.follow a ds := by
  induction cs generalizing base with
  | nil => rfl
  | cons c cs ih =>
    cases c with
    | root => exact ih []
    | current | parent | name =>
      rw [List.cons_append, follow, follow, ih]
      · cases fs.directoryAt base <;> rfl
      all_goals simp

/-- A single point in front asks for a directory, and so does what comes behind it. -/
theorem follow_components {fs : FileSystem} {p : Path} (h : p.steps ≠ []) (base : Address) :
    fs.follow base p.components = fs.follow base p.steps := by
  rw [Path.components_eq]
  by_cases habsolute : p.isAbsolute = true
  · rw [if_pos habsolute, Path.steps, if_pos habsolute]
  rw [if_neg habsolute]
  rw [Path.steps_of_not_isAbsolute habsolute] at h ⊢
  split
  · obtain ⟨c, cs, hbody⟩ := List.exists_cons_of_ne_nil h
    have hroot : c ≠ .root := fun hc =>
      Path.root_notMem_body p.text.toList (hbody ▸ hc ▸ List.mem_cons_self)
    rw [hbody]
    cases c with
    | root => exact absurd rfl hroot
    | current | parent | name =>
      simp only [List.singleton_append, follow]
      cases fs.directoryAt base <;> rfl
  · rfl

theorem locate_eq_follow {fs : FileSystem} {p : Path} (h : p.steps ≠ [])
    (hnull : p.text.toList.any (·.toNat == 0) = false) :
    fs.locate p = fs.follow fs.workingDirectory p.steps := by
  have htext : p.text ≠ "" := by
    intro htext
    obtain ⟨text⟩ := p
    subst htext
    exact h rfl
  rw [locate, if_neg htext, if_neg (by simp [hnull]), follow_components h]

/-- A name in a directory. -/
theorem locate_join_name {fs : FileSystem} {p : Path} {n : String} {a : Address} (hn : Path.IsName n)
    (hnull : p.text.toList.any (·.toNat == 0) = false)
    (hnnull : n.toList.any (·.toNat == 0) = false)
    (h : fs.follow fs.workingDirectory p.steps = .ok a) (hdirectory : fs.directoryAt a = .ok ()) :
    fs.locate (p.join n) = .ok (a ++ [n]) := by
  have hsteps := Path.steps_join_name p hn
  obtain ⟨front, htext, hfront⟩ := Path.text_join_name p hn
  rw [locate_eq_follow (by simp [hsteps]), hsteps, follow_append, h]
  · change fs.follow a [.name n] = _
    rw [follow, hdirectory]
    rfl
  · rw [htext, List.any_append, hnnull, Bool.or_false]
    rcases hfront with rfl | ⟨rfl, -⟩ | rfl
    · rfl
    · exact hnull
    · simp [hnull]

theorem has_of_locate {fs : FileSystem} {p : Path} {a : Address} (h : fs.locate p = .ok a)
    (hnames : p.namesDirectory = false) : fs.has p = (fs.tree.at? a).isSome := by
  simp only [has, entry, h, hnames, bind, Except.bind]
  cases fs.tree.at? a <;> rfl

/-- Where a path leads to, when it leads anywhere: the root, a directory that is there, or a name
in one. -/
theorem locate_cases {fs : FileSystem} {p : Path} {a : Address} (h : fs.locate p = .ok a) :
    p.namesDirectory = true ∧ a = [] ∨ (∃ es, fs.tree.at? a = some (.directory es)) ∨
      ∃ front n, p.steps = front ++ [.name n] ∧
        fs.directoryAt (resolve fs.workingDirectory front) = .ok () ∧
        a = resolve fs.workingDirectory front ++ [n] := by
  unfold locate at h
  split at h
  · cases h
  rename_i htext
  split at h
  · cases h
  obtain ⟨front, last, hp⟩ :=
    (List.eq_nil_or_concat p.components).resolve_left (Path.components_ne_nil htext)
  rw [List.concat_eq_append] at hp
  rw [hp] at h
  have ha := follow_eq_ok h
  rw [resolve_append] at ha
  -- only a last name can lead to something that is no directory
  cases last with
  | root => exact .inl ⟨Path.namesDirectory_of_root hp, ha⟩
  | current =>
    obtain ⟨es, hes⟩ := directoryAt_eq_ok (directoryAt_of_follow h (by simp))
    exact .inr (.inl ⟨es, ha ▸ hes⟩)
  | parent =>
    obtain ⟨es, hes⟩ := directoryAt_eq_ok (directoryAt_of_follow h (by simp))
    exact .inr (.inl (ha ▸ Entry.directory_of_isPrefix hes (List.dropLast_prefix _)))
  | name n =>
    refine .inr (.inr ⟨front.filter (· ≠ .current), n, ?_, ?_, ?_⟩)
    · rw [Path.steps_eq_filter, hp, List.filter_append]
      rfl
    · rw [resolve_filter]
      exact directoryAt_of_follow h (by simp)
    · rw [ha, resolve_filter]
      rfl

/-- Putting something without files below it in a directory, where no directory was. -/
theorem contentAt_put {fs : FileSystem} {a : Address} {name : String} {new : Entry}
    (hway : fs.directoryAt a = .ok ())
    (hfree : ∀ es, fs.tree.at? (a ++ [name]) ≠ some (.directory es))
    (hnew : ∀ name b, new.contentAt (name :: b) = none) (b : Address) :
    (fs.put (a ++ [name]) new).contentAt b =
      if b = a ++ [name] then new.content? else fs.contentAt b := by
  by_cases hb : b = a ++ [name]
  · rw [if_pos hb, hb]
    exact Entry.contentAt_put_self fs.tree (a ++ [name]) new
  · rw [if_neg hb]
    obtain ⟨es, hes⟩ := directoryAt_eq_ok hway
    refine Entry.contentAt_put_of_ne (fun front hfront hne => ?_)
      (fun c hc hne => Entry.contentAt_of_isPrefix hfree hc hne) hnew hb
    rcases List.prefix_concat_iff.mp hfront with heq | hprefix
    · exact absurd heq hne
    · exact Entry.contentAt_of_directory hes hprefix

theorem writeText_eq_put {fs fs' : FileSystem} {p : Path} {s : String}
    (h : fs.writeText p s = .ok fs') : ∃ a, fs.locate p = .ok a ∧
      (∀ es, fs.tree.at? a ≠ some (.directory es)) ∧ ¬ p.namesDirectory = true ∧
      fs' = fs.put a (.file (.text s)) := by
  simp only [writeText, bind, Except.bind] at h
  split at h
  · cases h
  rename_i a hlocate
  refine ⟨a, hlocate, ?_⟩
  split at h
  · cases h
  all_goals
    rename_i hat
    split at h
    · cases h
    · exact ⟨by simp [hat], by assumption, (Except.ok.inj h).symm⟩

/-- A text is only written to a name in a directory, and nowhere else. -/
theorem writeText_eq_ok {fs fs' : FileSystem} {p : Path} {s : String}
    (h : fs.writeText p s = .ok fs') : ∃ front n, p.steps = front ++ [.name n] ∧
      ¬ p.namesDirectory = true ∧ fs'.workingDirectory = fs.workingDirectory ∧
      ∀ a, fs'.contentAt a = if a = resolve fs.workingDirectory front ++ [n] then some (.text s)
        else fs.contentAt a := by
  obtain ⟨a, hlocate, hfree, hnames, rfl⟩ := writeText_eq_put h
  obtain ⟨hroot, -⟩ | ⟨es, hes⟩ | ⟨front, n, hsteps, hway, rfl⟩ := locate_cases hlocate
  · exact absurd hroot hnames
  · exact absurd hes (hfree es)
  · exact ⟨front, n, hsteps, hnames, rfl, contentAt_put hway hfree fun _ _ => rfl⟩

theorem makeDirectory_eq_ok {fs fs' : FileSystem} {p : Path} (h : fs.makeDirectory p = .ok fs') :
    fs'.workingDirectory = fs.workingDirectory ∧ ∀ a, fs'.contentAt a = fs.contentAt a := by
  simp only [makeDirectory, bind, Except.bind] at h
  split at h
  · cases h
  rename_i a hlocate
  split at h
  · cases h
  rename_i hnone
  obtain rfl := Except.ok.inj h
  refine ⟨rfl, fun b => ?_⟩
  -- the place of the new directory was free, so it is no place that is a directory
  obtain ⟨-, rfl⟩ | ⟨es, hes⟩ | ⟨front, n, -, hway, rfl⟩ := locate_cases hlocate
  · cases hnone
  · rw [hnone] at hes
    cases hes
  · rw [contentAt_put hway (by simp [hnone]) fun _ _ => rfl]
    split
    · rename_i hb
      rw [hb, contentAt, Entry.contentAt, hnone]
      rfl
    · rfl

/-! ### Files that stay -/

/-- Between two file systems no file outside of `S` has changed, and none is missing. -/
structure OnlyChanges (S : Set Address) (fs fs' : FileSystem) : Prop where
  workingDirectory : fs'.workingDirectory = fs.workingDirectory
  content : ∀ a ∉ S, fs'.contentAt a = fs.contentAt a
  kept : ∀ a, (fs.contentAt a).isSome → (fs'.contentAt a).isSome

namespace OnlyChanges

variable {S T : Set Address} {fs fs' fs'' : FileSystem}

theorem refl (S : Set Address) (fs : FileSystem) : OnlyChanges S fs fs :=
  ⟨rfl, fun _ _ => rfl, fun _ h => h⟩

theorem trans (h : OnlyChanges S fs fs') (h' : OnlyChanges S fs' fs'') :
    OnlyChanges S fs fs'' where
  workingDirectory := h'.workingDirectory.trans h.workingDirectory
  content a ha := (h'.content a ha).trans (h.content a ha)
  kept a ha := h'.kept a (h.kept a ha)

theorem mono (h : OnlyChanges S fs fs') (hST : S ⊆ T) : OnlyChanges T fs fs' where
  workingDirectory := h.workingDirectory
  content a ha := h.content a fun haS => ha (hST haS)
  kept := h.kept

theorem makeDirectory {p : Path} (h : fs.makeDirectory p = .ok fs') : OnlyChanges S fs fs' := by
  obtain ⟨hdirectory, hcontent⟩ := makeDirectory_eq_ok h
  exact ⟨hdirectory, fun a _ => hcontent a, fun a ha => hcontent a ▸ ha⟩

end OnlyChanges

end FileSystem

/-! ### Programs -/

namespace FileM

open FileSystem (OnlyChanges)

variable {ε ε' α β : Type}

/-- The file system behind a program, whether it fails or not. -/
def after (m : FileM ε α) (fs : FileSystem) : FileSystem :=
  match m fs with
  | .ok _ fs' => fs'
  | .error _ fs' => fs'

/-- A program that changes no file. -/
def KeepsFiles (m : FileM ε α) : Prop := ∀ fs, OnlyChanges ∅ fs (m.after fs)

theorem KeepsFiles.pure (a : α) : KeepsFiles (pure a : FileM ε α) := fun fs => .refl ∅ fs

theorem KeepsFiles.throw (e : ε) : KeepsFiles (throw e : FileM ε α) := fun fs => .refl ∅ fs

theorem KeepsFiles.bind {m : FileM ε α} {f : α → FileM ε β} (hm : m.KeepsFiles)
    (hf : ∀ a, (f a).KeepsFiles) : (m >>= f).KeepsFiles := by
  intro fs
  have hfirst := hm fs
  unfold after at hfirst ⊢
  simp only [Bind.bind, EStateM.bind]
  cases hrun : m fs with
  | error e fs' => rwa [hrun] at hfirst
  | ok a fs' =>
    rw [hrun] at hfirst
    exact hfirst.trans (hf a fs')

theorem KeepsFiles.tryCatch {m : FileM ε α} {handle : ε → FileM ε α} (hm : m.KeepsFiles)
    (hh : ∀ e, (handle e).KeepsFiles) : KeepsFiles (tryCatch m handle) := by
  intro fs
  have hfirst := hm fs
  unfold after at hfirst ⊢
  simp only [MonadExcept.tryCatch, tryCatchThe, MonadExceptOf.tryCatch, EStateM.tryCatch]
  cases hrun : m fs with
  | ok a fs' => rwa [hrun] at hfirst
  | error e fs' =>
    rw [hrun] at hfirst
    exact hfirst.trans (hh e fs')

theorem KeepsFiles.adaptExcept {m : FileM ε α} (hm : m.KeepsFiles) (f : ε → ε') :
    KeepsFiles (EStateM.adaptExcept f m) := by
  intro fs
  have hfirst := hm fs
  unfold after at hfirst ⊢
  simp only [EStateM.adaptExcept]
  cases hrun : m fs <;> rwa [hrun] at hfirst

theorem KeepsFiles.get : KeepsFiles (get : FileM ε FileSystem) := fun fs => .refl ∅ fs

theorem keepsFiles_ensureDirectory (p : Path) : (ensureDirectory p).KeepsFiles := by
  refine .tryCatch (fun fs => ?_) fun e => .bind .get fun fs => ?_
  · simp only [after, lift]
    cases h : fs.makeDirectory p with
    | error e => exact .refl ∅ fs
    | ok fs' => exact .makeDirectory h
  · split
    · exact .pure ()
    · exact .throw e

theorem keepsFiles_ensureNested (ps : List Path) : (ensureNested ps).KeepsFiles := by
  induction ps with
  | nil => exact .pure ()
  | cons p ps ih =>
    refine .tryCatch (keepsFiles_ensureDirectory p) fun e => ?_
    split
    · exact ih.bind fun _ => keepsFiles_ensureDirectory p
    · exact .throw e

theorem keepsFiles_createParent (p : Path) : (createParent p).KeepsFiles := by
  unfold createParent
  split
  · exact (keepsFiles_ensureNested _).adaptExcept _
  · exact .pure ()

end FileM

end Phrasebook
