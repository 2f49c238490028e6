import Phrasebook.Proofs.Preparing
import Mathlib.Data.List.Forall2
import Mathlib.Data.List.Nodup

/-!
# Message functions are found once

A path leads from a node to one of its parts, from there to a part of that, and so on. The object
literals of a module are found with their paths, each once, and so are the message functions among
their properties: `messageFunctions_prepare` says that what is found is every message function of
the module, wherever it stands, and that each of them makes a candidate or is exempt.
-/

namespace Phrasebook

open Script (Module Node foldText)

/-! ### Paths -/

/-- The node to which a path leads. Its numbers choose a part each. -/
def Script.Node.descend? (n : Node) : List Nat → Option Node
  | [] => some n
  | i :: path => n.parts[i]?.bind (descend? · path)

/-- A node with the items of a module as its parts. -/
def Script.Module.root (m : Module) : Node := .mk .item 0 0 m.items

/-! ### Message functions -/

/-- A function that returns `e` at once and does nothing else. One that is no arrow function has
the shape `kind`. -/
inductive Returns (kind : Shape) : Node → Shape → Node → Prop
  | arrowExpression {lo hi : Nat} {ps e : Node} {types : List Node} (h : e.form ≠ .block) :
      Returns kind (.mk (.arrow ⟨false, false⟩) lo hi (ps :: e :: types)) .arrowExpression e
  | arrowBlock {lo hi lo' hi' lo'' hi'' : Nat} {ps e : Node} {types : List Node} :
      Returns kind (.mk (.arrow ⟨false, false⟩) lo hi
        (ps :: .mk .block lo' hi' [.mk .returnStatement lo'' hi'' [e]] :: types)) .arrowBlock e
  | function {lo hi lo' hi' lo'' hi'' : Nat} {ps e : Node} {types : List Node} :
      Returns kind (.mk (.function ⟨false, false⟩) lo hi
        (ps :: .mk .block lo' hi' [.mk .returnStatement lo'' hi'' [e]] :: types)) kind e

/-- A property with its key, its function and the shape of a function there that is no arrow
function. -/
inductive Holds : Node → Shape → Node → Node → Prop
  | property {lo hi : Nat} {key f : Node} : Holds (.mk .property lo hi [key, f]) .function key f
  | method {lo hi : Nat} {key f : Node} : Holds (.mk .method lo hi [key, f]) .method key f

structure MessageFunction where
  shape : Shape
  /-- The expression that it returns. -/
  result : Node
  text : String
  doc : ResolvedDoc

/-- A path leads to a property of an object literal that is a message function. -/
inductive MessageFunctionAt (m : Module) (source : List Char) :
    List Nat → MessageFunction → Prop
  | mk {path : List Nat} {i : Nat} {object property key f e : Node} {kind shape : Shape}
      {text : String} (hobject : m.root.descend? path = some object)
      (hform : object.form = .object) (hproperty : object.parts[i]? = some property)
      (hheld : Holds property kind key f) (hreturns : Returns kind f shape e)
      (htext : foldText e = some text) :
      MessageFunctionAt m source (path ++ [i])
        ⟨shape, e, text, Collect.docOf m source ((object.parts.take i).getLast?.map Node.hi)
          object.lo (min key.lo f.lo) f.lo⟩

/-- The candidate of a message function has its shape, its text, its documentation and the place
of what it returns. -/
structure MessageFunction.Yields (f : MessageFunction) (c : Candidate) : Prop where
  shape : c.shape = f.shape
  text : c.text = f.text
  start : c.start = f.result.lo
  stop : c.stop = f.result.hi
  doc : c.doc = f.doc.doc

namespace Collect

/-! ### Object literals -/

mutual

/-- The object literals in a node with their paths, outer ones first. -/
def located : Node → List (List Nat × Node)
  | .mk form lo hi parts =>
    if form = .object then ([], .mk form lo hi parts) :: locatedOf 0 parts else locatedOf 0 parts

/-- The object literals in parts, the first of which has the number `k`. -/
def locatedOf (k : Nat) : List Node → List (List Nat × Node)
  | [] => []
  | n :: ns => (located n).map (fun a => (k :: a.1, a.2)) ++ locatedOf (k + 1) ns

end

mutual

theorem map_snd_located : (n : Node) → (located n).map Prod.snd = objects n
  | .mk form lo hi parts => by
    rw [located, objects, ← map_snd_locatedOf 0 parts]
    split <;> rfl

theorem map_snd_locatedOf (k : Nat) : (ns : List Node) →
    (locatedOf k ns).map Prod.snd = objectsOf ns
  | [] => by rw [locatedOf, objectsOf, List.map_nil]
  | n :: ns => by
    rw [locatedOf, objectsOf, List.map_append, List.map_map, map_snd_locatedOf (k + 1) ns,
      ← map_snd_located n]
    rfl

end

mutual

theorem mem_located {path : List Nat} {o : Node} : (n : Node) →
    ((path, o) ∈ located n ↔ n.descend? path = some o ∧ o.form = .object)
  | .mk form lo hi parts => by
    have hmem : (path, o) ∈ located (.mk form lo hi parts) ↔
        (form = .object ∧ path = [] ∧ o = .mk form lo hi parts) ∨
          (path, o) ∈ locatedOf 0 parts := by
      rw [located]
      split <;> simp [*]
    rw [hmem, mem_locatedOf parts]
    constructor
    · rintro (⟨hform, rfl, rfl⟩ | ⟨i, rest, n, rfl, hn, hdescend, ho⟩)
      · exact ⟨rfl, hform⟩
      · rw [Nat.zero_add, Node.descend?, Node.parts, hn]
        exact ⟨hdescend, ho⟩
    · rintro ⟨hdescend, ho⟩
      cases path with
      | nil =>
        obtain rfl := Option.some.inj hdescend
        exact .inl ⟨ho, rfl, rfl⟩
      | cons i rest =>
        obtain ⟨n, hn, hdescend⟩ := Option.bind_eq_some_iff.mp hdescend
        exact .inr ⟨i, rest, n, by rw [Nat.zero_add], hn, hdescend, ho⟩

/-- Paths into parts begin with the number of a part. -/
theorem mem_locatedOf {k : Nat} {path : List Nat} {o : Node} : (ns : List Node) →
    ((path, o) ∈ locatedOf k ns ↔ ∃ i rest n, path = (k + i) :: rest ∧ ns[i]? = some n ∧
      n.descend? rest = some o ∧ o.form = .object)
  | [] => by simp [locatedOf]
  | n :: ns => by
    rw [locatedOf, List.mem_append, List.mem_map, mem_locatedOf ns]
    constructor
    · rintro (⟨⟨rest, o'⟩, hmem, heq⟩ | ⟨i, rest, n', rfl, hn, h⟩)
      · obtain ⟨rfl, rfl⟩ := Prod.mk.inj heq
        exact ⟨0, rest, n, rfl, rfl, (mem_located n).mp hmem⟩
      · exact ⟨i + 1, rest, n', by rw [Nat.add_assoc, Nat.add_comm 1], hn, h⟩
    · rintro ⟨i, rest, n', rfl, hn, h⟩
      cases i with
      | zero =>
        obtain rfl := Option.some.inj hn
        exact .inl ⟨(rest, o), (mem_located n).mpr h, rfl⟩
      | succ i => exact .inr ⟨i, rest, n', by rw [Nat.add_assoc, Nat.add_comm 1], hn, h⟩

end

mutual

/-- No object literal is found twice. -/
theorem nodup_located : (n : Node) → ((located n).map Prod.fst).Nodup
  | .mk form lo hi parts => by
    have hparts := nodup_locatedOf 0 parts
    rw [located]
    split
    · -- the empty path leads to the node itself and to none of its parts
      refine List.nodup_cons.mpr ⟨fun hmem => ?_, hparts⟩
      obtain ⟨⟨path, o⟩, hmem, rfl⟩ := List.mem_map.mp hmem
      obtain ⟨i, rest, n, hpath, -⟩ := (mem_locatedOf parts).mp hmem
      cases hpath
    · exact hparts

theorem nodup_locatedOf (k : Nat) : (ns : List Node) → ((locatedOf k ns).map Prod.fst).Nodup
  | [] => by
    rw [locatedOf]
    exact .nil
  | n :: ns => by
    have hn : ((located n).map fun a => k :: a.1).Nodup := by
      have hcons := (nodup_located n).map (List.cons_injective (a := k))
      rwa [List.map_map] at hcons
    rw [locatedOf, List.map_append, List.map_map]
    refine hn.append (nodup_locatedOf (k + 1) ns) fun path hpath hpath' => ?_
    obtain ⟨a, -, rfl⟩ := List.mem_map.mp hpath
    obtain ⟨⟨path', o⟩, hmem, heq⟩ := List.mem_map.mp hpath'
    obtain ⟨i, rest, n', hbegins, -⟩ := (mem_locatedOf ns).mp hmem
    have := (List.cons.inj (heq.symm.trans hbegins)).1
    omega

end

/-! ### Message functions -/

theorem soleReturn?_eq_some_iff {body e : Node} : soleReturn? body = some e ↔
    ∃ lo hi lo' hi', body = .mk .block lo hi [.mk .returnStatement lo' hi' [e]] := by
  constructor
  · intro h
    unfold soleReturn? at h
    split at h
    · cases h
      exact ⟨_, _, _, _, rfl⟩
    · cases h
  · rintro ⟨lo, hi, lo', hi', rfl⟩
    rfl

theorem returns_of_returning? {kind : Shape} {f : Node} {rf : ReturningFunction}
    (h : returning? kind f = some rf) : Returns kind f rf.shape rf.result := by
  unfold returning? at h
  split at h
  · split at h
    · obtain ⟨e, he, rfl⟩ := Option.map_eq_some_iff.mp h
      obtain ⟨_, _, _, _, rfl⟩ := soleReturn?_eq_some_iff.mp he
      exact .arrowBlock
    · rename_i hblock
      obtain rfl := Option.some.inj h
      exact .arrowExpression hblock
  · obtain ⟨e, he, rfl⟩ := Option.map_eq_some_iff.mp h
    obtain ⟨_, _, _, _, rfl⟩ := soleReturn?_eq_some_iff.mp he
    exact .function
  · cases h

theorem returning?_eq_some_iff {kind shape : Shape} {f e : Node} :
    (∃ ps, returning? kind f = some ⟨shape, ps, e⟩) ↔ Returns kind f shape e := by
  constructor
  · rintro ⟨ps, h⟩
    exact returns_of_returning? h
  · intro h
    cases h with
    | @arrowExpression lo hi ps e types hblock =>
      refine ⟨ps.parts, ?_⟩
      rw [returning?, if_neg hblock]
    | arrowBlock => exact ⟨_, rfl⟩
    | function => exact ⟨_, rfl⟩

theorem functionProperty?_of_holds {p key f : Node} {kind : Shape} (h : Holds p kind key f) :
    functionProperty? p = (returning? kind f).map (⟨key, f, ·⟩) := by
  cases h <;> rfl

theorem functionProperty?_of_not_holds {p : Node} (h : ∀ kind key f, ¬ Holds p kind key f) :
    functionProperty? p = none := by
  unfold functionProperty?
  split
  · exact (h _ _ _ .property).elim
  · exact (h _ _ _ .method).elim
  · rfl

theorem exists_holds_of_functionProperty? {p : Node} {found : FunctionProperty}
    (h : functionProperty? p = some found) : ∃ kind, Holds p kind found.key found.function ∧
      returning? kind found.function = some found.returning := by
  by_cases hholds : ∃ kind key f, Holds p kind key f
  · obtain ⟨kind, key, f, hheld⟩ := hholds
    rw [functionProperty?_of_holds hheld] at h
    obtain ⟨rf, hrf, rfl⟩ := Option.map_eq_some_iff.mp h
    exact ⟨kind, hheld, hrf⟩
  · rw [functionProperty?_of_not_holds (by simpa using hholds)] at h
    cases h

theorem functionProperty?_eq_some_iff {property key f e : Node} {shape : Shape} :
    (∃ ps, functionProperty? property = some ⟨key, f, ⟨shape, ps, e⟩⟩) ↔
      ∃ kind, Holds property kind key f ∧ Returns kind f shape e := by
  constructor
  · rintro ⟨ps, h⟩
    obtain ⟨kind, hheld, hreturning⟩ := exists_holds_of_functionProperty? h
    exact ⟨kind, hheld, returns_of_returning? hreturning⟩
  · rintro ⟨kind, hheld, hreturns⟩
    obtain ⟨ps, hps⟩ := returning?_eq_some_iff.mpr hreturns
    refine ⟨ps, ?_⟩
    rw [functionProperty?_of_holds hheld, hps, Option.map_some]

/-- A property as a message function, exempt or not. -/
def messageFunction? (m : Module) (source : List Char) (brace : Nat) (previousEnd : Option Nat)
    (property : Node) : Option MessageFunction := do
  let p ← functionProperty? property
  let text ← foldText p.returning.result
  let lo := min p.key.lo p.function.lo
  some ⟨p.returning.shape, p.returning.result, text,
    docOf m source previousEnd brace lo p.function.lo⟩

theorem messageFunction?_eq_some_iff {m : Module} {source : List Char} {brace : Nat}
    {previousEnd : Option Nat} {property : Node} {f : MessageFunction} :
    messageFunction? m source brace previousEnd property = some f ↔
      ∃ key function kind, Holds property kind key function ∧
        Returns kind function f.shape f.result ∧ foldText f.result = some f.text ∧
        f.doc = docOf m source previousEnd brace (min key.lo function.lo) function.lo := by
  simp only [messageFunction?, Option.bind_eq_bind, Option.bind_eq_some_iff]
  constructor
  · rintro ⟨⟨key, function, ⟨shape, ps, e⟩⟩, hp, text, htext, h⟩
    obtain ⟨kind, hheld, hreturns⟩ := functionProperty?_eq_some_iff.mp ⟨ps, hp⟩
    cases h
    exact ⟨key, function, kind, hheld, hreturns, htext, rfl⟩
  · rintro ⟨key, function, kind, hheld, hreturns, htext, hdoc⟩
    obtain ⟨ps, hps⟩ := functionProperty?_eq_some_iff.mpr ⟨kind, hheld, hreturns⟩
    refine ⟨_, hps, f.text, htext, ?_⟩
    rw [← hdoc]

/-- A message function is found as what it is. -/
def IsFinding (f : MessageFunction) : Finding → Prop
  | .candidate c => f.doc.isExempt = false ∧ f.Yields c
  | .exempt => f.doc.isExempt = true

theorem rel_finding? (m : Module) (source : List Char) (brace : Nat) (previousEnd : Option Nat)
    (property : Node) : Option.Rel IsFinding (messageFunction? m source brace previousEnd property)
      (finding? m source brace previousEnd property) := by
  unfold messageFunction? finding?
  cases functionProperty? property with
  | none => exact .none
  | some p =>
    simp only [Option.bind_eq_bind, Option.bind_some]
    cases foldText p.returning.result with
    | none => exact .none
    | some text =>
      simp only [Option.bind_some]
      split
      · rename_i hexempt
        exact .some hexempt
      · rename_i hexempt
        exact .some ⟨Bool.eq_false_iff.mpr hexempt, rfl, rfl, rfl, rfl, rfl⟩

theorem mem_of_mem_withPrevious {previousEnd e : Option Nat} {p : Node} {ps : List Node}
    (h : (e, p) ∈ withPrevious previousEnd ps) : p ∈ ps := by
  induction ps generalizing previousEnd with
  | nil => cases h
  | cons q qs ih =>
    rcases List.mem_cons.mp h with heq | h
    · rw [(Prod.mk.inj heq).2]
      exact List.mem_cons_self
    · exact List.mem_cons_of_mem q (ih h)

/-- The message functions among the properties of an object literal at a path. -/
def messageFunctionsIn (m : Module) (source : List Char) (path : List Nat) (object : Node) :
    List (List Nat × MessageFunction) :=
  (withPrevious none object.parts).zipIdx.filterMap fun ((previousEnd, property), i) =>
    (messageFunction? m source object.lo previousEnd property).map (path ++ [i], ·)

/-- The message functions of a module with their paths. -/
def messageFunctions (m : Module) (source : List Char) : List (List Nat × MessageFunction) :=
  (locatedOf 0 m.items).flatMap fun (path, object) => messageFunctionsIn m source path object

/-! ### What is found -/

section

variable (m : Module) (source : List Char)

theorem forall₂_findingsIn (path : List Nat) (object : Node) :
    List.Forall₂ (fun a finding => IsFinding a.2 finding) (messageFunctionsIn m source path object)
      (findingsIn m source object) := by
  unfold messageFunctionsIn findingsIn
  generalize object.lo = brace
  generalize (none : Option Nat) = previousEnd
  generalize 0 = k
  induction object.parts generalizing previousEnd k with
  | nil => exact .nil
  | cons p ps ih =>
    have hps := ih (some p.hi) (k + 1)
    -- at each property both walks find something or neither does
    have hp := rel_finding? m source brace previousEnd p
    rw [withPrevious, List.zipIdx_cons, List.filterMap_cons, List.filterMap_cons]
    cases hf : messageFunction? m source brace previousEnd p with
    | none =>
      rw [hf] at hp
      cases hfinding : finding? m source brace previousEnd p with
      | none => simpa [hf, hfinding] using hps
      | some finding =>
        rw [hfinding] at hp
        cases hp
    | some f =>
      rw [hf] at hp
      cases hfinding : finding? m source brace previousEnd p with
      | none =>
        rw [hfinding] at hp
        cases hp
      | some finding =>
        rw [hfinding] at hp
        cases hp with
        | some hp => simpa [hf, hfinding] using ⟨hp, hps⟩

theorem forall₂_findings : List.Forall₂ (fun a finding => IsFinding a.2 finding)
    (messageFunctions m source) (findings m source) := by
  unfold messageFunctions findings
  rw [← map_snd_locatedOf 0, List.flatMap_map]
  induction locatedOf 0 m.items with
  | nil => exact .nil
  | cons a as ih =>
    rw [List.flatMap_cons, List.flatMap_cons]
    exact List.rel_append (forall₂_findingsIn m source a.1 a.2) ih

/-- Candidates are made of what is not exempt, and the rest is counted. -/
theorem forall₂_candidates : List.Forall₂ (fun a c => a.2.Yields c)
      ((messageFunctions m source).filter fun a => !a.2.doc.isExempt)
      (collect m source).candidates ∧
    (messageFunctions m source).countP (fun a => a.2.doc.isExempt) =
      (collect m source).exempted := by
  have hfindings := forall₂_findings m source
  unfold collect
  dsimp only
  generalize messageFunctions m source = as at hfindings ⊢
  generalize findings m source = fs at hfindings ⊢
  induction hfindings with
  | nil => exact ⟨.nil, rfl⟩
  | @cons a finding as fs h hrest ih =>
    obtain ⟨hcandidates, hexempted⟩ := ih
    cases finding with
    | candidate c =>
      obtain ⟨hexempt, hyields⟩ := h
      simp only [List.filter_cons, List.countP_cons, hexempt]
      exact ⟨.cons hyields hcandidates, by simpa using hexempted⟩
    | exempt =>
      have hexempt : a.2.doc.isExempt = true := h
      simp only [List.filter_cons, List.countP_cons, hexempt]
      exact ⟨hcandidates, by simpa using hexempted⟩

end

/-! ### Where it is found -/

/-- The end in front of a property is that of the property before it. -/
theorem getElem?_withPrevious (previousEnd : Option Nat) (ps : List Node) (i : Nat) :
    (withPrevious previousEnd ps)[i]? =
      ps[i]?.map (((ps.take i).getLast?.map Node.hi).or previousEnd, ·) := by
  induction ps generalizing previousEnd i with
  | nil => rfl
  | cons p ps ih =>
    cases i with
    | zero => rfl
    | succ i =>
      rw [withPrevious, List.getElem?_cons_succ, ih, List.getElem?_cons_succ, List.take_succ_cons,
        List.getLast?_cons]
      cases (ps.take i).getLast? <;> rfl

theorem mem_messageFunctionsIn {m : Module} {source : List Char} {path path' : List Nat}
    {object : Node} {f : MessageFunction} :
    (path', f) ∈ messageFunctionsIn m source path object ↔
      ∃ i property, path' = path ++ [i] ∧ object.parts[i]? = some property ∧
        messageFunction? m source object.lo ((object.parts.take i).getLast?.map Node.hi) property =
          some f := by
  simp only [messageFunctionsIn, List.mem_filterMap]
  constructor
  · rintro ⟨⟨⟨previousEnd, property⟩, i⟩, hmem, h⟩
    obtain ⟨f', hf', heq⟩ := Option.map_eq_some_iff.mp h
    obtain ⟨rfl, rfl⟩ := Prod.mk.inj heq
    rw [List.mk_mem_zipIdx_iff_getElem?, getElem?_withPrevious, Option.or_none] at hmem
    obtain ⟨property', hproperty, heq⟩ := Option.map_eq_some_iff.mp hmem
    obtain ⟨rfl, rfl⟩ := Prod.mk.inj heq
    exact ⟨i, property', rfl, hproperty, hf'⟩
  · rintro ⟨i, property, rfl, hproperty, hf⟩
    refine ⟨(((object.parts.take i).getLast?.map Node.hi, property), i),
      List.mk_mem_zipIdx_iff_getElem?.mpr ?_, ?_⟩
    · rw [getElem?_withPrevious, Option.or_none, hproperty, Option.map_some]
    · rw [hf, Option.map_some]

theorem mem_messageFunctions {m : Module} {source : List Char} {path : List Nat}
    {f : MessageFunction} :
    (path, f) ∈ messageFunctions m source ↔ MessageFunctionAt m source path f := by
  have hlocated (front : List Nat) (object : Node) : (front, object) ∈ locatedOf 0 m.items ↔
      m.root.descend? front = some object ∧ object.form = .object := by
    rw [← mem_located, Module.root, located, if_neg (by decide)]
  simp only [messageFunctions, List.mem_flatMap]
  constructor
  · rintro ⟨⟨front, object⟩, hmem, h⟩
    obtain ⟨hobject, hform⟩ := (hlocated front object).mp hmem
    obtain ⟨i, property, rfl, hproperty, hf⟩ := mem_messageFunctionsIn.mp h
    obtain ⟨key, function, kind, hheld, hreturns, htext, hdoc⟩ :=
      messageFunction?_eq_some_iff.mp hf
    obtain ⟨shape, e, text, doc⟩ := f
    obtain rfl := hdoc
    exact .mk hobject hform hproperty hheld hreturns htext
  · rintro ⟨hobject, hform, hproperty, hheld, hreturns, htext⟩
    refine ⟨(_, _), (hlocated _ _).mpr ⟨hobject, hform⟩, mem_messageFunctionsIn.mpr ?_⟩
    exact ⟨_, _, rfl, hproperty,
      messageFunction?_eq_some_iff.mpr ⟨_, _, _, hheld, hreturns, htext, rfl⟩⟩

/-- No message function is found twice. -/
theorem nodup_messageFunctions (m : Module) (source : List Char) :
    ((messageFunctions m source).map Prod.fst).Nodup := by
  refine List.pairwise_map.mpr (List.pairwise_flatMap.mpr ⟨?_, ?_⟩)
  · rintro ⟨path, object⟩ -
    have hindices : ((withPrevious none object.parts).zipIdx.map Prod.snd).Nodup := by
      rw [List.zipIdx_map_snd]
      exact List.nodup_range' 1
    refine List.pairwise_filterMap.mpr ((List.pairwise_map.mp hindices).imp ?_)
    rintro a a' hne b hb b' hb' heq
    obtain ⟨f, -, rfl⟩ := Option.map_eq_some_iff.mp hb
    obtain ⟨f', -, rfl⟩ := Option.map_eq_some_iff.mp hb'
    exact hne (List.cons.inj (List.append_cancel_left heq)).1
  · have hpaths := List.pairwise_map.mp (nodup_locatedOf 0 m.items)
    refine hpaths.imp fun {a a'} hne b hb b' hb' heq => ?_
    obtain ⟨i, _, hpath, -⟩ := mem_messageFunctionsIn.mp hb
    obtain ⟨i', _, hpath', -⟩ := mem_messageFunctionsIn.mp hb'
    rw [hpath, hpath'] at heq
    exact hne (List.append_inj_left' heq rfl)

end Collect

/-- In a text that can be parsed, or the beginning of which can be, every message function is found
once. Those that are not exempt make the candidates, and the exempt ones are counted. -/
theorem messageFunctions_prepare {source filename : String} {m : Module}
    (h : readModule source filename = some m) (o : Options) :
    ∃ found : List (List Nat × MessageFunction), (found.map Prod.fst).Nodup ∧
      (∀ path f, (path, f) ∈ found ↔ MessageFunctionAt m source.toList path f) ∧
      List.Forall₂ (fun a c => a.2.Yields c) (found.filter fun a => !a.2.doc.isExempt)
        (prepare source filename o).candidates ∧
      found.countP (fun a => a.2.doc.isExempt) = (prepare source filename o).exempted := by
  rw [candidates_prepare h, exempted_prepare h]
  exact ⟨Collect.messageFunctions m source.toList, Collect.nodup_messageFunctions m _,
    fun _ _ => Collect.mem_messageFunctions, Collect.forall₂_candidates m _⟩

/-- A message function in a parameter of another, and one behind them that is exempt. -/
def nestedMessages : String :=
  "const m = \x7b a(x = \x7b b: () => \"B\" \x7d) \x7b return \"A\"; \x7d,
    /** @notranslate */ c: () => \"C\" \x7d;"

set_option maxRecDepth 100000 in
theorem prepare_nestedMessages :
    (readModule nestedMessages "a.ts").isSome = true ∧
      (prepare nestedMessages "a.ts" {}).candidates.map (·.text) = ["A", "B"] ∧
      (prepare nestedMessages "a.ts" {}).exempted = 1 := by
  decide +kernel

theorem messageFunctions_prepare_nestedMessages :
    ∃ m, readModule nestedMessages "a.ts" = some m ∧
      ∃ found : List (List Nat × MessageFunction), found.length = 3 ∧
        ∀ path f, (path, f) ∈ found ↔ MessageFunctionAt m nestedMessages.toList path f := by
  obtain ⟨hread, htexts, hexempted⟩ := prepare_nestedMessages
  obtain ⟨m, hm⟩ := Option.isSome_iff_exists.mp hread
  obtain ⟨found, -, hfound, hcandidates, hcount⟩ := messageFunctions_prepare hm {}
  have hlength := congrArg List.length htexts
  rw [List.length_map, ← hcandidates.length_eq, ← List.countP_eq_length_filter] at hlength
  rw [hexempted] at hcount
  have hsum : found.length = 1 + found.countP fun a => !a.2.doc.isExempt := by
    simpa [hcount] using found.length_eq_countP_add_countP fun a => a.2.doc.isExempt
  exact ⟨m, hm, found, by rw [hsum, hlength]; rfl, hfound⟩

end Phrasebook
