import Phrasebook.Proofs.Script.Place
import Phrasebook.Proofs.Script.Spelling

/-!
# Sites in a tree

A site is a place in the text where an expression with a known text is returned: it stands behind
`return` or an arrow with nothing but a gap in between. The marks of a tree are its sites, the
places of the properties whose values are functions that run at once and in one go, and a stray mark
for what no parser makes, a literal with parts. Marks are accounted for between two places of a text
(`Accounted`) when each of them is a site of a row of sites there, one behind the other, or one of
different places there.
-/

namespace Phrasebook.Script

open Cursor (Reaches)
open Text (byteLength)

/-! ### Leads -/

/-- What a returned expression stands behind. -/
inductive Lead where
  | returnWord
  | arrow
deriving DecidableEq

namespace Lead

def spelling : Lead → List Char
  | returnWord => "return".toList
  | arrow => "=>".toList

def kind : Lead → Kind
  | returnWord => .kwReturn
  | arrow => .arrow

theorem spelling_ne_nil (lead : Lead) : lead.spelling ≠ [] := by
  cases lead <;> decide

theorem spelling?_kind (lead : Lead) : lead.kind.spelling? = some lead.spelling := by
  cases lead <;> rfl

theorem kindAt_of_stopsWord {lead : Lead} (front : List Char) {rest : List Char}
    (hrest : lead = .returnWord → StopsWord rest) :
    kindAt front (lead.spelling ++ rest) = lead.kind := by
  cases lead with
  | returnWord => exact kindAt_return front (hrest rfl)
  | arrow => exact kindAt_arrow front rest

end Lead

/-- A lead is read at byte `place`, and what follows it behind a gap begins at byte `next`. -/
def LeadAt (text : List Char) (lead : Lead) (place next : Nat) : Prop :=
  ∃ before gap rest, text = before ++ (lead.spelling ++ gap ++ rest) ∧
    (lead = .returnWord → StopsWord (gap ++ rest)) ∧
    (∀ x ∈ gap.head?, isSpace x = true ∨ x = '/') ∧ byteLength before = place ∧
    place + byteLength (lead.spelling ++ gap) = next

theorem LeadAt.le {text : List Char} {lead : Lead} {place next : Nat}
    (h : LeadAt text lead place next) : place ≤ next := by
  obtain ⟨before, gap, rest, -, -, -, -, rfl⟩ := h
  exact Nat.le_add_right _ _

/-- What the lexer takes for a lead is one. -/
theorem Lexer.On.leadAt {text : List Char} {l : Lexer} (h : l.On text) {lead : Lead}
    (hkind : l.kind = lead.kind) : LeadAt text lead l.here.pos l.next.pos := by
  obtain ⟨before, hbefore, hhere⟩ := h.here
  obtain ⟨hrest, hafter⟩ := h.spelled hkind lead.spelling?_kind
  obtain ⟨gap, d, ⟨hgap, hd⟩, hpos, hhead⟩ := h.front
  refine ⟨before, gap, d.rest, ?_, fun hreturn => ?_, hhead, ?_, ?_⟩
  · change text = _ at hbefore
    rw [hbefore, hrest, hgap, List.append_assoc]
  · have hstops := h.fits.stops (by rw [hreturn] at hkind; exact hkind)
    rwa [hgap] at hstops
  · rw [hhere]
    exact (Nat.zero_add _).symm
  · rw [← hpos, hd, hafter, Text.byteLength_append, Nat.add_assoc]

/-! ### Marks -/

/-- A returned expression, by its first byte and the byte behind it, with its text. -/
structure Site where
  lead : Lead
  lo : Nat
  hi : Nat
  text : String
deriving DecidableEq

inductive Mark where
  | site (s : Site)
  /-- A property at the byte `place`. -/
  | key (place : Nat)
  | stray
deriving DecidableEq

/-- The mark of an expression behind a lead. -/
def markOf (lead : Lead) (e : Node) : List Mark :=
  match foldText e with
  | some value => [.site ⟨lead, e.lo, e.hi, value⟩]
  | none => []

/-- Functions that run at once and in one go. -/
def Form.runsAtOnce : Form → Bool
  | .arrow flow | .function flow => flow == {}
  | _ => false

/-- Where a property with such a function as its value begins. -/
def keyPlace? : Node → Option Nat
  | .mk .property _ _ [k, f] | .mk .method _ _ [k, f] =>
    if f.form.runsAtOnce then some (min k.lo f.lo) else none
  | _ => none

/-- What a node adds to the marks of its parts. -/
def ownMarks : Form → List Node → List Mark
  | .returnStatement, [e] => markOf .returnWord e
  | .arrow _, _ :: body :: _ => markOf .arrow body
  | .object, ps => (ps.filterMap keyPlace?).map .key
  | .string _, _ :: _ => [.stray]
  | _, _ => []

mutual

def marks : Node → List Mark
  | .mk form _ _ parts => ownMarks form parts ++ marksOf parts

def marksOf : List Node → List Mark
  | [] => []
  | n :: ns => marks n ++ marksOf ns

end

/-- Forms of nodes that add nothing. -/
def Form.isPlain : Form → Bool
  | .returnStatement | .arrow _ | .object | .string _ => false
  | _ => true

@[simp] theorem ownMarks_of_isPlain {form : Form} (h : form.isPlain = true) (parts : List Node) :
    ownMarks form parts = [] := by
  cases form with
  | returnStatement | arrow | object | string => simp [Form.isPlain] at h
  | _ => rfl

@[simp] theorem ownMarks_nil (form : Form) : ownMarks form [] = [] := by
  cases form <;> rfl

@[simp] theorem marksOf_nil : marksOf [] = [] := by rw [marksOf]

@[simp] theorem marksOf_cons (n : Node) (ns : List Node) :
    marksOf (n :: ns) = marks n ++ marksOf ns := by rw [marksOf]

@[simp] theorem marks_mk (form : Form) (lo hi : Nat) (parts : List Node) :
    marks (.mk form lo hi parts) = ownMarks form parts ++ marksOf parts := by rw [marks]

theorem marks_of_isPlain {form : Form} (h : form.isPlain = true) (lo hi : Nat)
    (parts : List Node) : marks (.mk form lo hi parts) = marksOf parts := by
  rw [marks_mk, ownMarks_of_isPlain h, List.nil_append]

/-- Marks do not depend on where a node is said to stand. -/
@[simp] theorem marks_moved (n : Node) (lo hi : Nat) :
    marks (.mk n.form lo hi n.parts) = marks n := by
  obtain ⟨form, lo', hi', parts⟩ := n
  rw [marks_mk, marks_mk, Node.form, Node.parts]

@[simp] theorem marksOf_append (ns ms : List Node) :
    marksOf (ns ++ ms) = marksOf ns ++ marksOf ms := by
  induction ns with
  | nil => rw [marksOf_nil, List.nil_append, List.nil_append]
  | cons n ns ih => rw [List.cons_append, marksOf_cons, marksOf_cons, ih, List.append_assoc]

@[simp] theorem count_marksOf_reverse (m : Mark) (ns : List Node) :
    (marksOf ns.reverse).count m = (marksOf ns).count m := by
  induction ns with
  | nil => rfl
  | cons n ns ih => simp [ih, Nat.add_comm]

/-! ### Expressions with a known text -/

/-- What has a text as a literal has it as an expression. -/
theorem foldText_of_literalText {n : Node} (h : (literalText n).isSome = true) :
    (foldText n).isSome = true := by
  fun_induction literalText n with
  | case1 => simpa [foldText, literalText] using h
  | case2 => simpa [foldText, literalText] using h
  | case3 lo hi e ih => simpa [foldText] using ih h
  | case4 => simp at h

theorem foldText_of_textOf {sums : Bool} {n : Node} (h : (textOf sums n).isSome = true) :
    (foldText n).isSome = true := by
  cases sums with
  | true => exact h
  | false => exact foldText_of_literalText h

theorem marks_of_literalText {n : Node} (h : (literalText n).isSome = true)
    (hstray : .stray ∉ marks n) : marks n = [] := by
  fun_induction literalText n with
  | case1 value lo hi parts =>
    cases parts with
    | nil => rfl
    | cons p ps => simp [ownMarks] at hstray
  | case2 => exact marks_of_isPlain rfl _ _ _
  | case3 lo hi e ih =>
    rw [marks_of_isPlain rfl, marksOf_cons, marksOf_nil,
      List.append_nil] at hstray ⊢
    exact ih h hstray
  | case4 => simp at h

/-- An expression with a known text has no sites in it. -/
theorem marks_of_foldText {n : Node} (h : (foldText n).isSome = true) (hstray : .stray ∉ marks n) :
    marks n = [] := by
  fun_induction foldText n with
  | case1 lo hi e ih =>
    rw [marks_of_isPlain rfl, marksOf_cons, marksOf_nil,
      List.append_nil] at hstray ⊢
    exact ih h hstray
  | case2 lo hi left right ih =>
    obtain ⟨text, htext⟩ := Option.isSome_iff_exists.mp h
    simp only [Option.bind_eq_bind, Option.bind_eq_some_iff] at htext
    obtain ⟨a, ha, b, hb, -⟩ := htext
    rw [marks_of_isPlain rfl, marksOf_cons, marksOf_cons,
      marksOf_nil, List.append_nil] at hstray ⊢
    simp only [List.mem_append, not_or] at hstray
    rw [ih (by rw [ha]; rfl) hstray.1, marks_of_literalText (by rw [hb]; rfl) hstray.2]
    rfl
  | case3 => exact marks_of_literalText h hstray

/-! ### Rows of sites -/

variable {text : List Char}

/-- From byte `lo` up to byte `hi` the text writes an expression with the text `value`, behind
comments if they count as a part of its first token. -/
def SpelledAt (text : List Char) (lo hi : Nat) (value : String) : Prop :=
  ∃ before lead cs after, text = before ++ (lead ++ (cs ++ after)) ∧ byteLength before = lo ∧
    lo + byteLength (lead ++ cs) = hi ∧ (∃ lines, GapText lines lead) ∧
      ∃ follow, Spelling true follow cs value

namespace SpelledAt

variable {lo hi : Nat} {value : String}

theorem lt (h : SpelledAt text lo hi value) : lo < hi := by
  obtain ⟨before, lead, cs, after, -, -, rfl, -, follow, hcs⟩ := h
  obtain ⟨x, xs, rfl, -⟩ := hcs.exists_cons
  have := x.utf8Size_pos
  simp only [Text.byteLength_append, byteLength]
  omega

theorem isPlace_hi (h : SpelledAt text lo hi value) : IsPlace text hi := by
  obtain ⟨before, lead, cs, after, rfl, rfl, rfl, -⟩ := h
  refine ⟨⟨after, byteLength before + byteLength (lead ++ cs)⟩,
    ⟨before ++ (lead ++ cs), by simp, ?_⟩, rfl⟩
  simp only [Text.byteLength_append, Nat.zero_add]

theorem extend (h : SpelledAt text lo hi value) (rest : List Char) :
    SpelledAt (text ++ rest) lo hi value := by
  obtain ⟨before, lead, cs, after, rfl, h⟩ := h
  exact ⟨before, lead, cs, after ++ rest, by simp, h⟩

end SpelledAt

/-- The site stands in the text with its lead at byte `place`. -/
structure Site.StandsAt (text : List Char) (s : Site) (place : Nat) : Prop where
  lead : LeadAt text s.lead place s.lo
  spelled : SpelledAt text s.lo s.hi s.text

theorem Site.StandsAt.lt {s : Site} {place : Nat} (h : s.StandsAt text place) : s.lo < s.hi :=
  h.spelled.lt

theorem Site.StandsAt.isPlace_hi {s : Site} {place : Nat} (h : s.StandsAt text place) :
    IsPlace text s.hi :=
  h.spelled.isPlace_hi

/-- Sites one behind the other from byte `a` up to byte `b`, each with its lead. -/
inductive Row (text : List Char) : Nat → Nat → List Site → Prop
  | nil {a b : Nat} (h : a ≤ b) : Row text a b []
  | cons {a b place : Nat} {s : Site} {ss : List Site} (h : a ≤ place)
      (hs : s.StandsAt text place) (hss : Row text s.hi b ss) : Row text a b (s :: ss)

namespace Row

variable {a b c d : Nat} {ss ts : List Site}

theorem widen (h : Row text a b ss) (hd : d ≤ a) : Row text d b ss := by
  cases h with
  | nil h => exact .nil (Nat.le_trans hd h)
  | cons h hs hss => exact .cons (Nat.le_trans hd h) hs hss

theorem append (h : Row text a b ss) (hbc : b ≤ c) (h' : Row text c d ts) :
    Row text a d (ss ++ ts) := by
  induction h with
  | nil h => exact h'.widen (Nat.le_trans h hbc)
  | cons h hs hss ih => exact .cons h hs (ih hbc)

theorem le (h : Row text a b ss) : a ≤ b := by
  induction h with
  | nil h => exact h
  | cons h hs hss ih => exact Nat.le_trans h (Nat.le_trans hs.lead.le
      (Nat.le_trans (Nat.le_of_lt hs.lt) ih))

end Row

/-- Different places from byte `a` up to byte `b`. -/
structure Keys (text : List Char) (a b : Nat) (places : List Nat) : Prop where
  nodup : places.Nodup
  isPlace : ∀ n ∈ places, IsPlace text n
  le : ∀ n ∈ places, a ≤ n
  lt : ∀ n ∈ places, n < b

namespace Keys

variable {a b c d : Nat} {places others : List Nat}

theorem nil : Keys text a b [] where
  nodup := .nil
  isPlace := nofun
  le := nofun
  lt := nofun

theorem append (h : Keys text a b places) (hab : a ≤ b) (hbc : b ≤ c) (hcd : c ≤ d)
    (h' : Keys text c d others) : Keys text a d (places ++ others) where
  nodup := List.nodup_append.mpr ⟨h.nodup, h'.nodup, fun n hn n' hn' => by
    have := h.lt n hn
    have := h'.le n' hn'
    omega⟩
  isPlace n hn := (List.mem_append.mp hn).elim (h.isPlace n) (h'.isPlace n)
  le n hn := (List.mem_append.mp hn).elim (h.le n) fun hn => by
    have := h'.le n hn
    omega
  lt n hn := (List.mem_append.mp hn).elim (fun hn => by have := h.lt n hn; omega) (h'.lt n)

end Keys

/-! ### Accounting -/

/-- Each mark is a site of a row of sites between the bytes `a` and `b` or one of different places
there. -/
def Accounted (text : List Char) (a b : Nat) (ms : List Mark) : Prop :=
  ∃ ss places, (∀ m, ms.count m ≤ (ss.map Mark.site ++ places.map Mark.key).count m) ∧
    Row text a b ss ∧ Keys text a b places

namespace Accounted

variable {a b c d : Nat} {ms ns : List Mark}

theorem nil (h : a ≤ b) : Accounted text a b [] := ⟨[], [], by simp, .nil h, .nil⟩

theorem le (h : Accounted text a b ms) : a ≤ b := by
  obtain ⟨ss, places, -, hrow, -⟩ := h
  exact hrow.le

theorem of_count (h : Accounted text a b ms) (hle : ∀ m, ns.count m ≤ ms.count m) :
    Accounted text a b ns := by
  obtain ⟨ss, places, hcount, h⟩ := h
  exact ⟨ss, places, fun m => Nat.le_trans (hle m) (hcount m), h⟩

theorem append (h : Accounted text a b ms) (hbc : b ≤ c) (h' : Accounted text c d ns) :
    Accounted text a d (ms ++ ns) := by
  obtain ⟨ss, places, hcount, hrow, hkeys⟩ := h
  obtain ⟨ts, others, hcount', hrow', hkeys'⟩ := h'
  refine ⟨ss ++ ts, places ++ others, fun m => ?_, hrow.append hbc hrow',
    hkeys.append hrow.le hbc hrow'.le hkeys'⟩
  have := hcount m
  have := hcount' m
  simp only [List.map_append, List.count_append] at *
  omega

theorem mono (h : Accounted text a b ms) (hb : b ≤ c) : Accounted text a c ms := by
  have := h.append hb (.nil (Nat.le_refl c))
  rwa [List.append_nil] at this

theorem widen (h : Accounted text a b ms) (hd : d ≤ a) : Accounted text d b ms :=
  (Accounted.nil hd).append (Nat.le_refl a) h

theorem stray_notMem (h : Accounted text a b ms) : .stray ∉ ms := by
  obtain ⟨ss, places, hcount, -⟩ := h
  have hzero : (ss.map Mark.site ++ places.map Mark.key).count .stray = 0 := by
    rw [List.count_eq_zero]
    simp
  have := hcount .stray
  rw [hzero, Nat.le_zero, List.count_eq_zero] at this
  exact this

/-- A property in front of what is in it. -/
theorem keyed {place : Nat} (hplace : IsPlace text place) (hlt : place < a)
    (h : Accounted text a b ms) : Accounted text place b (.key place :: ms) := by
  have hkey : Accounted text place a [.key place] := by
    refine ⟨[], [place], fun m => Nat.le_refl _, .nil (Nat.le_of_lt hlt), ?_⟩
    exact ⟨List.pairwise_singleton _ _, by simpa using hplace, by simp, by simpa using hlt⟩
  exact hkey.append (Nat.le_refl a) h

end Accounted

/-- What is known of an expression from byte `lo` on and in front of byte `b` when its text is
known. -/
def Tight (text : List Char) (lo b : Nat) (e : Node) : Prop :=
  ∀ value ∈ foldText e, e.lo = lo ∧ e.hi ≤ b ∧ SpelledAt text lo e.hi value

/-- An expression that is returned, with its lead. -/
theorem Accounted.returned {a b place lo c : Nat} {ms : List Mark} {lead : Lead} {e : Node}
    (h : Accounted text a b ms) (hb : b ≤ place) (hlead : LeadAt text lead place lo)
    (he : Accounted text lo c (marks e)) (htight : Tight text lo c e) :
    Accounted text a c (ms ++ (markOf lead e ++ marks e)) := by
  unfold markOf
  split
  · rename_i value hvalue
    obtain ⟨hlo, hhi, hspelled⟩ := htight value hvalue
    rw [marks_of_foldText (Option.isSome_of_mem hvalue) he.stray_notMem, List.append_nil]
    have hsite : Site.StandsAt text ⟨lead, e.lo, e.hi, value⟩ place := by
      subst hlo
      exact ⟨hlead, hspelled⟩
    have hrow : Row text place c [⟨lead, e.lo, e.hi, value⟩] :=
      .cons (Nat.le_refl place) hsite (.nil hhi)
    exact h.append hb ⟨_, [], fun m => Nat.le_of_eq (by simp), hrow, .nil⟩
  · exact h.append (Nat.le_trans hb hlead.le) he

/-- An account says something of the marks of what has been read in front of a place. What is
accounted for from there on can be entered into it. -/
structure Account (text : List Char) (K : Nat → List Mark → Prop) : Prop where
  of_count {b : Nat} {ms ns : List Mark} (h : K b ms) (hle : ∀ m, ns.count m ≤ ms.count m) : K b ns
  append {b c : Nat} {ms ns : List Mark} (h : K b ms) (h' : Accounted text b c ns) : K c (ms ++ ns)

namespace Account

variable {K : Nat → List Mark → Prop} (hK : Account text K)
include hK

/-- It lasts when more is read. -/
theorem mono {b c : Nat} {ms : List Mark} (h : K b ms) (hbc : b ≤ c) : K c ms := by
  have := hK.append h (.nil hbc)
  rwa [List.append_nil] at this

/-- A returned expression is entered into it. -/
theorem returned {place lo c : Nat} {ms : List Mark} {lead : Lead} {e : Node} (h : K place ms)
    (hlead : LeadAt text lead place lo) (he : Accounted text lo c (marks e))
    (htight : Tight text lo c e) : K c (ms ++ (markOf lead e ++ marks e)) :=
  hK.append h (.returned (.nil (Nat.le_refl place)) (Nat.le_refl place) hlead he htight)

omit hK

theorem accounted (a : Nat) : Account text (Accounted text a) where
  of_count := Accounted.of_count
  append h h' := h.append (Nat.le_refl _) h'

/-- The account that says nothing. -/
theorem idle : Account text fun _ _ => True := ⟨fun _ _ => ⟨⟩, fun _ _ => ⟨⟩⟩

/-- The account of what is in hand besides some marks. -/
theorem frame {K : Nat → List Mark → Prop} (hK : Account text K) (rest : List Mark) :
    Account text fun n ms => K n (rest ++ ms) where
  of_count h hle := hK.of_count h fun m => by
    rw [List.count_append, List.count_append]
    exact Nat.add_le_add_left (hle m) _
  append h h' := by
    rw [← List.append_assoc]
    exact hK.append h h'

end Account

end Phrasebook.Script
