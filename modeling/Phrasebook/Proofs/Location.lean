import Phrasebook.Proofs.Placed

/-!
# Where candidates are located

A candidate is located by the line and the column of its property. Lines and columns go on with the
text, and no two properties with functions begin at the same place. So no two candidates of a file
have the same line and column.
-/

namespace Phrasebook

open Script (IsPlace Mark Node keyPlace? marksOf)
open Text (byteLength)

/-! ### Lines and columns -/

namespace Script.Module

/-- By line, then column. -/
def IsBefore (p q : Nat × Nat) : Prop := p.1 < q.1 ∨ (p.1 = q.1 ∧ p.2 < q.2)

theorem IsBefore.trans {p q r : Nat × Nat} (h : IsBefore p q) (h' : IsBefore q r) :
    IsBefore p r := by
  unfold IsBefore at *
  omega

theorem IsBefore.ne {p q : Nat × Nat} (h : IsBefore p q) : p ≠ q := by
  rintro rfl
  unfold IsBefore at h
  omega

/-- A character moves line and column on, wherever behind it they are asked for. -/
theorem exists_lineColFrom_cons (line col : Nat) (c : Char) (rest : List Char) :
    ∃ p : Nat × Nat, IsBefore (line, col) p ∧ ∀ n, 0 < n →
      lineColFrom line col n (c :: rest) = lineColFrom p.1 p.2 (n - c.utf8Size) rest := by
  have hunits : 0 < Text.units16 c := by
    unfold Text.units16
    split <;> omega
  by_cases hends : c = '\n' ∨ (c = '\r' ∧ rest.head? ≠ some '\n')
  · refine ⟨(line + 1, 1), .inl (Nat.lt_succ_self line), fun n hn => ?_⟩
    obtain ⟨n, rfl⟩ := Nat.exists_eq_succ_of_ne_zero (Nat.ne_of_gt hn)
    rw [lineColFrom, if_pos hends]
  · refine ⟨(line, col + Text.units16 c), .inr ⟨rfl, Nat.lt_add_of_pos_right hunits⟩,
      fun n hn => ?_⟩
    obtain ⟨n, rfl⟩ := Nat.exists_eq_succ_of_ne_zero (Nat.ne_of_gt hn)
    rw [lineColFrom, if_neg hends]

theorem lineColFrom_zero (line col : Nat) (cs : List Char) :
    lineColFrom line col 0 cs = (line, col) := by
  cases cs <;> rw [lineColFrom]

theorem eq_or_isBefore_lineColFrom (line col n : Nat) (cs : List Char) :
    (line, col) = lineColFrom line col n cs ∨ IsBefore (line, col) (lineColFrom line col n cs) := by
  induction cs generalizing line col n with
  | nil => cases n <;> exact .inl (by rw [lineColFrom])
  | cons c cs ih =>
    rcases Nat.eq_zero_or_pos n with rfl | hn
    · exact .inl (lineColFrom_zero line col _).symm
    · obtain ⟨p, hp, hrest⟩ := exists_lineColFrom_cons line col c cs
      rw [hrest n hn]
      rcases ih p.1 p.2 (n - c.utf8Size) with heq | hbefore
      · exact .inr (heq ▸ hp)
      · exact .inr (hp.trans hbefore)

/-- Line and column go on with every character. -/
theorem isBefore_lineColFrom (line col : Nat) (before : List Char) {between : List Char}
    (hne : between ≠ []) (rest : List Char) :
    IsBefore (lineColFrom line col (byteLength before) (before ++ (between ++ rest)))
      (lineColFrom line col (byteLength (before ++ between)) (before ++ (between ++ rest))) := by
  induction before generalizing line col with
  | nil =>
    -- the first character between the places moves on, and nothing behind it goes back
    obtain ⟨c, cs, rfl⟩ := List.exists_cons_of_ne_nil hne
    have hc := c.utf8Size_pos
    obtain ⟨p, hp, hrest⟩ := exists_lineColFrom_cons line col c (cs ++ rest)
    rw [List.nil_append, List.nil_append, byteLength, lineColFrom_zero, List.cons_append,
      hrest _ (by rw [byteLength]; omega)]
    rcases eq_or_isBefore_lineColFrom p.1 p.2 (byteLength (c :: cs) - c.utf8Size) (cs ++ rest) with
      heq | hbefore
    · exact heq ▸ hp
    · exact hp.trans hbefore
  | cons c cs ih =>
    have hc := c.utf8Size_pos
    obtain ⟨p, -, hrest⟩ := exists_lineColFrom_cons line col c (cs ++ (between ++ rest))
    rw [List.cons_append, List.cons_append, hrest _ (by rw [byteLength]; omega),
      hrest _ (by rw [byteLength]; omega), byteLength, byteLength, Nat.add_sub_cancel_left,
      Nat.add_sub_cancel_left]
    exact ih p.1 p.2

/-- A place in front of another is so by line and column. -/
theorem isBefore_lineCol (m : Module) {a b : Nat} (ha : IsPlace m.text a) (hb : IsPlace m.text b)
    (hab : a < b) : IsBefore (m.lineCol a) (m.lineCol b) := by
  obtain ⟨before, ⟨rest, htext⟩, hbefore⟩ := ha.isBoundary
  have hb := hb.isBoundary
  rw [← htext] at hb
  obtain ⟨between, ⟨rest', rfl⟩, hbetween⟩ := hb.of_append (by omega)
  have hne : between ≠ [] := by
    rintro rfl
    rw [byteLength] at hbetween
    omega
  have hlt := isBefore_lineColFrom 1 1 before hne rest'
  rw [htext, Text.byteLength_append] at hlt
  rw [Nat.zero_add] at hbefore hbetween
  rwa [hbetween, hbefore] at hlt

theorem lineCol_injOn (m : Module) {a b : Nat} (ha : IsPlace m.text a) (hb : IsPlace m.text b)
    (heq : m.lineCol a = m.lineCol b) : a = b := by
  rcases Nat.lt_trichotomy a b with hlt | heq' | hlt
  · exact absurd heq (isBefore_lineCol m ha hb hlt).ne
  · exact heq'
  · exact absurd heq.symm (isBefore_lineCol m hb ha hlt).ne

end Script.Module

/-! ### The places of properties -/

/-- Line and column of a candidate. -/
def Candidate.position (c : Candidate) : Nat × Nat := (c.line, c.col)

namespace Collect

/-- The places of the properties in object literals whose functions run at once. -/
def keyPlaces (ns : List Node) : List Nat :=
  (objectsOf ns).flatMap fun object => object.parts.filterMap keyPlace?

theorem count_keyPlaces (ns : List Node) (m : Mark) :
    ((keyPlaces ns).map Mark.key).count m ≤ (marksOf ns).count m := by
  refine Nat.le_trans ?_ (count_foundInAll (fun n _ => covered n) m)
  unfold keyPlaces foundInAll
  induction objectsOf ns with
  | nil => exact Nat.le_refl _
  | cons object objects ih =>
    rw [List.flatMap_cons, List.flatMap_cons, List.map_append, List.count_append,
      List.count_append, objectMarks, List.count_append]
    exact Nat.add_le_add (Nat.le_add_right _ _) ih

theorem runsAtOnce_of_returning? {shape : Shape} {f : Node} {rf : ReturningFunction}
    (h : returning? shape f = some rf) : f.form.runsAtOnce = true := by
  obtain ⟨shape', ps, e⟩ := rf
  cases returns_of_returning? h <;> rfl

/-- A candidate is located at the place of its property. -/
theorem exists_of_finding? {m : Script.Module} {source : List Char} {brace : Nat}
    {previousEnd : Option Nat} {p : Node} {c : Candidate}
    (h : finding? m source brace previousEnd p = some (.candidate c)) :
    ∃ n, keyPlace? p = some n ∧ c.position = m.lineCol n := by
  simp only [finding?, Option.bind_eq_bind, Option.bind_eq_some_iff] at h
  obtain ⟨q, hq, text, -, h⟩ := h
  have hplace : keyPlace? p = some (min q.key.lo q.function.lo) := by
    obtain ⟨kind, hheld, hreturning⟩ := exists_holds_of_functionProperty? hq
    have hruns := runsAtOnce_of_returning? hreturning
    obtain ⟨key, f, rf⟩ := q
    cases hheld <;> rw [keyPlace?, if_pos hruns]
  refine ⟨_, hplace, ?_⟩
  split at h
  · cases h
  · cases h
    rfl

/-- What is found as a candidate. -/
def Finding.candidate? : Finding → Option Candidate
  | .candidate c => some c
  | .exempt => none

theorem sublist_position_properties (m : Script.Module) (source : List Char) (brace : Nat)
    (previousEnd : Option Nat) (ps : List Node) :
    ((((withPrevious previousEnd ps).filterMap fun a => finding? m source brace a.1 a.2).filterMap
      Finding.candidate?).map Candidate.position).Sublist
        ((ps.filterMap keyPlace?).map m.lineCol) := by
  induction ps generalizing previousEnd with
  | nil => exact .slnil
  | cons p ps ih =>
    have hrest := ih (some p.hi)
    -- the place of a property may be left out
    have hskip : ((ps.filterMap keyPlace?).map m.lineCol).Sublist
        (((p :: ps).filterMap keyPlace?).map m.lineCol) :=
      ((List.sublist_cons_self p ps).filterMap _).map _
    rw [withPrevious]
    cases hfound : finding? m source brace previousEnd p with
    | none =>
      simp only [List.filterMap_cons, hfound]
      exact hrest.trans hskip
    | some found =>
      simp only [List.filterMap_cons, hfound]
      cases found with
      | exempt => exact hrest.trans hskip
      | candidate c =>
        obtain ⟨n, hn, hposition⟩ := exists_of_finding? hfound
        simp only [Finding.candidate?, hn, List.map_cons, hposition]
        exact hrest.cons_cons _

/-- Candidates are located at places of properties, each at one of its own. -/
theorem sublist_position_candidates (m : Script.Module) (source : List Char) :
    ((collect m source).candidates.map Candidate.position).Sublist
      ((keyPlaces m.items).map m.lineCol) := by
  have hcandidates : (collect m source).candidates =
      (findings m source).filterMap Finding.candidate? := rfl
  rw [hcandidates, findings, keyPlaces]
  induction objectsOf m.items with
  | nil => exact .slnil
  | cons object objects ih =>
    rw [List.flatMap_cons, List.flatMap_cons, List.filterMap_append, List.map_append,
      List.map_append]
    exact (sublist_position_properties m source object.lo none object.parts).append ih

end Collect

/-! ### Candidates -/

/-- No two candidates of a module have the same line and column. -/
theorem nodup_position_collect {m : Script.Module} {b : Nat}
    (h : Script.ItemRow m.text 0 b m.items) (source : List Char) :
    ((collect m source).candidates.map Candidate.position).Nodup := by
  obtain ⟨hnodup, hplaces⟩ := nodup_of_accounted h.accounted (Collect.count_keyPlaces m.items)
  refine List.Nodup.sublist (Collect.sublist_position_candidates m source) ?_
  exact hnodup.map_on fun a ha b hb => Script.Module.lineCol_injOn m (hplaces a ha) (hplaces b hb)

theorem nodup_position_prepare (source filename : String) (o : Options) :
    ((prepare source filename o).candidates.map Candidate.position).Nodup := by
  cases hread : readModule source filename with
  | none =>
    rw [prepare_of_readModule_eq_none hread]
    exact .nil
  | some m =>
    rw [candidates_prepare hread]
    obtain ⟨jsx, cs, -, hparse⟩ := exists_of_readModule hread
    obtain ⟨-, b, hrow⟩ := Script.itemRow_of_parse hparse
    exact nodup_position_collect hrow _

end Phrasebook
