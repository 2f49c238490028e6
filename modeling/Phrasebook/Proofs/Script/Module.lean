import Phrasebook.Proofs.Script.Grammar
import Phrasebook.Script.Module

/-!
# Modules account for their texts

The items of a module stand in its text one behind the other, each from its first token on with the
sites in it.
-/

namespace Phrasebook.Script

variable {text : List Char}

/-! ### Rows of items -/

/-- Items one behind the other from byte `a` up to byte `b`, each with what is accounted for in
it. An expression as a statement ends where it says. -/
inductive ItemRow (text : List Char) : Nat → Nat → List Node → Prop
  | nil {a b : Nat} (h : a ≤ b) : ItemRow text a b []
  | cons {a b c : Nat} {n : Node} {ns : List Node} (ha : a ≤ n.lo) (hplace : IsPlace text n.lo)
      (hn : Accounted text n.lo c (marks n))
      (hhi : n.form = .expressionStatement → n.parts ≠ [] → n.hi ≤ c)
      (hns : ItemRow text c b ns) : ItemRow text a b (n :: ns)

namespace ItemRow

variable {a b c : Nat} {n : Node} {ds ns : List Node}

theorem snoc (h : ItemRow text a b ns) (hb : b ≤ n.lo) (hplace : IsPlace text n.lo)
    (hn : Accounted text n.lo c (marks n))
    (hhi : n.form = .expressionStatement → n.parts ≠ [] → n.hi ≤ c) :
    ItemRow text a c (ns ++ [n]) := by
  induction h with
  | nil h => exact .cons (Nat.le_trans h hb) hplace hn hhi (.nil (Nat.le_refl c))
  | cons ha hplace' hn' hhi' hns ih => exact .cons ha hplace' hn' hhi' (ih hb)

theorem accounted (h : ItemRow text a b ns) : Accounted text a b (marksOf ns) := by
  induction h with
  | nil h => exact .nil h
  | cons ha hplace hn hhi hns ih =>
    have h := (Accounted.nil ha).append (Nat.le_refl _) (hn.append (Nat.le_refl _) ih)
    rwa [List.nil_append, ← marksOf_cons] at h

/-- The items from one on. -/
theorem suffix (h : ItemRow text a b (ds ++ n :: ns)) :
    IsPlace text n.lo ∧ Accounted text n.lo b (marksOf (n :: ns)) := by
  induction ds generalizing a with
  | nil =>
    cases h with
    | cons ha hplace hn hhi hns =>
      refine ⟨hplace, ?_⟩
      rw [marksOf_cons]
      exact hn.append (Nat.le_refl _) hns.accounted
  | cons d ds ih =>
    cases h with
    | cons ha hplace hn hhi hns => exact ih hns

theorem le_lo (h : ItemRow text a b (ds ++ n :: ns)) : a ≤ n.lo := by
  induction ds generalizing a with
  | nil =>
    cases h with
    | cons ha hplace hn hhi hns => exact ha
  | cons d ds ih =>
    cases h with
    | cons ha hplace hn hhi hns => exact Nat.le_trans ha (Nat.le_trans hn.le (ih hns))

/-- An expression as a statement ends in front of the items behind it. -/
theorem hi_le_lo (h : ItemRow text a b (ds ++ n :: ns)) {d : Node} (hd : d ∈ ds)
    (hform : d.form = .expressionStatement) (hparts : d.parts ≠ []) : d.hi ≤ n.lo := by
  induction ds generalizing a with
  | nil => cases hd
  | cons first ds ih =>
    cases h with
    | cons ha hplace hn hhi hns =>
      rcases List.mem_cons.mp hd with rfl | hd
      · exact Nat.le_trans (hhi hform hparts) hns.le_lo
      · exact ih hns hd

end ItemRow

/-! ### Parsing -/

/-- Items are read one behind the other. -/
theorem triple_items (depth : Nat) :
    Triple text (fun _ => True) (items depth) fun ns l => ItemRow text 0 l.pos ns := by
  -- what an item reads is put behind what the items before it have read
  have hitem (acc : List Node) : Triple text (fun l => ItemRow text 0 l.pos acc.reverse)
      (Grammar.moduleItem (rules depth)) fun n l => ItemRow text 0 l.pos (acc.reverse ++ [n]) := by
    intro mode l hl hrow
    have hread := Grammar.reads_moduleItem (sound_rules depth) _ (.accounted l.pos) mode l hl
      (.nil (Nat.le_refl _))
    have hspan := Grammar.spansFrom_moduleItem ((spansFrom_rules depth l.pos).2 true) mode l
    cases hrun : Grammar.moduleItem (rules depth) mode l with
    | error e l' =>
      rw [hrun] at hread
      exact hread
    | ok n l' =>
      rw [hrun] at hread
      obtain ⟨hlo, hhi⟩ : Spans l.pos n l' := hspan n l' rfl hrun
      have hn : Accounted text n.lo l'.pos (marks n) := by
        rw [hlo]
        exact hread.2.2.of_count fun m => by simp
      exact ⟨hread.1, hread.2.1, hrow.snoc (Nat.le_of_eq hlo.symm) (hlo ▸ hl.isPlace_pos) hn
        fun hform hparts => hhi hform hparts ▸ hread.1.previousEnd_le⟩
  refine .bind (Triple.imp (Triple.loop (Q := fun acc l => ItemRow text 0 l.pos acc.reverse)
    fun acc => ?_) (fun _ _ => .nil (Nat.zero_le _)) fun _ _ h => h) fun acc => .pure fun _ _ h => h
  exact .still (.is _) fun _ => .ite (.pure fun _ _ h => h) <| .bind (hitem acc) fun n =>
    .pure fun _ _ h => by simpa using h

/-- The items of what can be parsed stand in its text. -/
theorem itemRow_of_parse {jsx : Bool} {cs : List Char} {m : Module} (h : parse jsx cs = .ok m) :
    m.text = skipByteOrderMark cs ∧ ∃ b, ItemRow m.text 0 b m.items := by
  unfold parse at h
  dsimp only at h
  split at h
  · rename_i ns l hrun
    have hrow := triple_items (depthFor (Lexer.start (skipByteOrderMark cs)).size) { jsx } _
      (Lexer.on_start (skipByteOrderMark cs)) ⟨⟩
    rw [hrun] at hrow
    cases h
    exact ⟨rfl, _, hrow.2.2⟩
  · cases h

end Phrasebook.Script
