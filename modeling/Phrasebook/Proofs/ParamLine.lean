import Phrasebook.Proofs.CallSite
import Phrasebook.Proofs.Doc.Param
import Phrasebook.Proofs.Store.Adding
import Phrasebook.Proofs.Substitution

/-!
# What translators are told about a parameter

The comment of a message has a line for each parameter that is a name. The first tag for the name
adds its type and its description to the line, but only if the name is one that can be read in a
tag. Letters that do not belong to the alphabet may begin the name of a parameter; in a tag they do
not begin a name, and such a parameter has a line without what its tags say
(`paramLine_mem_comments`).
-/

namespace Phrasebook

open ParamDoc (IsDescription IsFor IsPlain WritesType)

/-! ### Recorded comments -/

/-- When a file has been transformed, a message with the text, the context and the location of each
of its candidates is there, and it has the comment of the candidate. -/
theorem exists_message_transform (calls : List StoreCall) {source filename : String} {o : Options}
    {out : Output} (hok : (transform source filename o (runCalls calls {})).1 = .ok out)
    {c : Candidate} (hc : c ∈ (prepare source filename o).candidates) :
    ∃ id m, (transform source filename o (runCalls calls {})).2.get? id = some m ∧
      m.text = c.text ∧ m.context = c.context ∧ ⟨filename, c.line, c.col⟩ ∈ m.locations ∧
      ∀ text ∈ c.comment, text ∈ m.comments := by
  have hs := coherent_runCalls Store.coherent_empty calls
  unfold transform at hok ⊢
  obtain ⟨ids, hrecord, -⟩ := Prepared.exists_recordAll_of_apply (List.ne_nil_of_mem hc) hok
  rw [prepare_filename] at hrecord
  obtain ⟨ids', hmessages, hids⟩ := messages_recordAll filename o.idLength
    (prepare source filename o).candidates (runCalls calls {})
  rw [hrecord] at hmessages hids
  obtain rfl := hids ids rfl
  have hrecorded := forall₂_zipWith (messageOf filename) (recordAll_recordedAs hs hrecord).flip
  obtain ⟨id, ⟨m, hm, htext, hcontext, hlocation⟩, hmem⟩ := exists_of_forall₂ hrecorded.flip hc
  refine ⟨id, m, hm, htext, hcontext, hlocation, fun text ht => ?_⟩
  -- all comments of what is added under an id are comments of the message there
  have hget := Store.get?_addAll hs.ascending
    (List.zipWith (messageOf filename) ids (prepare source filename o).candidates) id
  rw [Store.get?, ← hmessages, ← Store.get?, hm] at hget
  have hsame : messageOf filename id c ∈ (List.zipWith (messageOf filename) ids
      (prepare source filename o).candidates).filter (·.id == id) :=
    List.mem_filter.mpr ⟨hmem, beq_self_eq_true id⟩
  exact ((Message.of_joined? hget.symm).2 _ (Message.additive_comment text)).mpr
    ⟨messageOf filename id c, List.mem_append_right _ hsame, Option.mem_toList.mpr ht⟩

/-! ### Tags for a parameter -/

section Tags

variable {doc : DocComment} {name : String}

theorem isFor_of_parse {body : List Char} {d : ParamDoc} (h : ParamDoc.parse body = some d) :
    IsPlain d.name.toList ∧ IsFor d.name.toList body :=
  ParamDoc.exists_parse_iff.mp ⟨d, h, String.ofList_toList.symm⟩

/-- A name that cannot be read has no tag. -/
theorem find?_params_of_not_isPlain (h : ¬IsPlain name.toList) (doc : DocComment) :
    doc.params.find? (·.name == name) = none := by
  rw [List.find?_eq_none]
  intro d hd hname
  obtain ⟨tag, -, hparse⟩ := List.mem_filterMap.mp hd
  obtain rfl : d.name = name := beq_iff_eq.mp hname
  exact h (isFor_of_parse hparse).1

/-- The first tag for a name is what is said about it. -/
theorem find?_params_of_first {before after : List DocTag} {tag : DocTag}
    (htags : doc.tags.filter (·.isNamed DocTag.parameter) = before ++ tag :: after)
    (hfirst : ∀ t ∈ before, ¬IsFor name.toList t.body.toList) {d : ParamDoc}
    (hparse : ParamDoc.parse tag.body.toList = some d) (hname : d.name = name) :
    doc.params.find? (·.name == name) = some d := by
  have hbefore : (before.filterMap fun t => ParamDoc.parse t.body.toList).find? (·.name == name) =
      none := by
    rw [List.find?_eq_none]
    intro d' hd' hname'
    obtain ⟨t, ht, hparse'⟩ := List.mem_filterMap.mp hd'
    obtain rfl : d'.name = name := beq_iff_eq.mp hname'
    exact hfirst t ht (isFor_of_parse hparse').2
  have htag : (tag :: after).filterMap (fun t => ParamDoc.parse t.body.toList) =
      d :: after.filterMap fun t => ParamDoc.parse t.body.toList := by
    rw [List.filterMap_cons, hparse]
  rw [DocComment.params, htags, List.filterMap_append, List.find?_append, hbefore, Option.none_or,
    htag, List.find?_cons_of_pos (by simp [hname])]

end Tags

/-! ### Lines of a comment -/

/-- These lines are the text. -/
def AreLinesOf (lines : List String) (text : String) : Prop :=
  text = String.ofList (Text.join ['\n'] (lines.map String.toList))

/-- The comment of a candidate has a line for each of its parameters. -/
theorem exists_comment {c : Candidate} {p : Param} (hp : p ∈ c.params) :
    ∃ text lines, c.comment = some text ∧ AreLinesOf lines text ∧
      Candidate.paramLine ((c.doc.map (·.params)).getD []) p ∈ lines := by
  have hmem : Candidate.paramLine ((c.doc.map (·.params)).getD []) p ∈ c.commentLines :=
    List.mem_append_right _ (List.mem_map_of_mem hp)
  refine ⟨_, c.commentLines, ?_, rfl, hmem⟩
  unfold Candidate.comment
  split
  · rename_i hnil
    rw [hnil] at hmem
    exact absurd hmem List.not_mem_nil
  · rfl

/-- For the first tag for a parameter that says a description, and a type or none: a message with
the text and the place of the candidate has, as a line of one of its comments, what is told about
the parameter. If the name can be read, that is the type and the description of the tag, or the type
in the source when the tag says none. If it cannot, it is no more than the source says. -/
theorem paramLine_mem_comments (calls : List StoreCall) {source filename : String} {o : Options}
    {out : Output} (hok : (transform source filename o (runCalls calls {})).1 = .ok out)
    {c : Candidate} (hc : c ∈ (prepare source filename o).candidates)
    {p : Param} (hp : p ∈ c.params) {doc : DocComment} (hdoc : c.doc = some doc) {before after : List DocTag} {tag : DocTag}
    (htags : doc.tags.filter (·.isNamed DocTag.parameter) = before ++ tag :: after)
    (hfirst : ∀ t ∈ before, ¬IsFor p.name.toList t.body.toList)
    {written description : List Char} {type : Option String} (htype : WritesType written type)
    (hdescription : IsDescription description)
    (hbody : tag.body.toList = written ++ (p.name.toList ++ (" - ".toList ++ description))) :
    ∃ id m text lines line,
      (transform source filename o (runCalls calls {})).2.get? id = some m ∧
      m.text = c.text ∧ m.context = c.context ∧ ⟨filename, c.line, c.col⟩ ∈ m.locations ∧
      text ∈ m.comments ∧ AreLinesOf lines text ∧ line ∈ lines ∧
      (IsPlain p.name.toList → line = p.name ++ Candidate.behind ": " (type.or p.type) ++
        " - " ++ String.ofList description) ∧
      (¬IsPlain p.name.toList → line = p.name ++ Candidate.behind ": " p.type) := by
  obtain ⟨id, m, hm, htext, hcontext, hlocation, hcomments⟩ := exists_message_transform calls hok hc
  obtain ⟨text, lines, hcomment, hlines, hline⟩ := exists_comment hp
  refine ⟨id, m, text, lines, _, hm, htext, hcontext, hlocation, hcomments text hcomment, hlines,
    hline, fun hplain => ?_, fun hplain => ?_⟩ <;>
    rw [hdoc, Option.map_some, Option.getD_some, Candidate.paramLine]
  · have hwritten : ParamDoc.WritesDescription (" - ".toList ++ description)
        (some (String.ofList description)) :=
      @ParamDoc.WritesDescription.text ' ' ['-', ' '] [] description (by decide) (by simp)
        (by simp) hdescription
    have hparse := ParamDoc.parse_append hplain htype .bare hwritten
    rw [← hbody, String.ofList_toList] at hparse
    rw [find?_params_of_first htags hfirst hparse rfl]
    simp [Candidate.behind, String.append_assoc]
  · rw [find?_params_of_not_isPlain hplain]
    simp [Candidate.behind]

/-- The second of two parameters has a type and a description in its tag. -/
def taggedParams : String :=
  "const m = \x7b\n  /**\n   * @param count\n   * @param \x7bstring\x7d name - Zest\n   */\n" ++
    "  a: (count, name) => \"Hi\"\n\x7d;"

def tagsOfParams : List DocTag := [⟨"param", "count"⟩, ⟨"param", "\x7bstring\x7d name - Zest"⟩]

def taggedCandidate : Candidate :=
  ⟨.arrowExpression, "a", "Hi", 97, 101, [⟨0, "count", none⟩, ⟨1, "name", none⟩],
    some ⟨[], tagsOfParams⟩, 6, 3⟩

set_option maxRecDepth 100000 in
theorem prepare_taggedParams :
    (prepare taggedParams "a.ts" {}).candidates = [taggedCandidate] ∧
      (transform taggedParams "a.ts" {} {}).1.isOk = true := by
  decide +kernel

theorem paramLine_mem_comments_tagged : ∃ id m text lines,
    (transform taggedParams "a.ts" {} {}).2.get? id = some m ∧ m.text = "Hi" ∧
      text ∈ m.comments ∧ AreLinesOf lines text ∧ "name: string - Zest" ∈ lines := by
  obtain ⟨hcandidates, hok⟩ := prepare_taggedParams
  have hmem : taggedCandidate ∈ (prepare taggedParams "a.ts" {}).candidates := by
    rw [hcandidates]
    exact List.mem_singleton_self _
  have hcount : ∀ t ∈ [(⟨"param", "count"⟩ : DocTag)], ¬IsFor "name".toList t.body.toList := by
    intro t ht hfor
    obtain rfl := List.mem_singleton.mp ht
    obtain ⟨d, hd, hname⟩ := ParamDoc.exists_parse_iff.mpr ⟨by decide, hfor⟩
    have hparse : ParamDoc.parse "count".toList = some ⟨"count", none, none⟩ := by decide +kernel
    obtain rfl := Option.some.inj (hd.symm.trans hparse)
    exact absurd hname (by decide)
  have htags : tagsOfParams.filter (·.isNamed DocTag.parameter) =
      [⟨"param", "count"⟩] ++ ⟨"param", "\x7bstring\x7d name - Zest"⟩ :: [] := by decide
  have hbody : "\x7bstring\x7d name - Zest".toList =
      "\x7bstring\x7d ".toList ++ ("name".toList ++ (" - ".toList ++ "Zest".toList)) := by decide
  have hname : ⟨1, "name", none⟩ ∈ taggedCandidate.params := by decide
  have htype : WritesType "\x7bstring\x7d ".toList (some "string") :=
    @WritesType.braces "string".toList [' '] (by decide) (by simp [Text.isBlank])
  cases hout : (transform taggedParams "a.ts" {} {}).1 with
  | error e =>
    rw [hout] at hok
    cases hok
  | ok out =>
    obtain ⟨id, m, text, lines, line, hm, htext, -, -, hcomment, hlines, hline, hplain, -⟩ :=
      paramLine_mem_comments [] hout hmem hname rfl htags hcount htype (by decide) hbody
    rw [hplain (by decide)] at hline
    exact ⟨id, m, text, lines, hm, htext, hcomment, hlines, hline⟩

/-- A parameter with a name that is no plain one, and a tag for it. -/
def accentedParam : String :=
  "const m = \x7b\n  /** @param élan - Zest */\n  a: (élan) => \"Hi\"\n\x7d;"

set_option maxRecDepth 100000 in
/-- What its tag says is lost. -/
theorem transform_accentedParam :
    isIdentifier "élan".toList = true ∧
      (prepare accentedParam "a.ts" {}).candidates.map (fun c =>
          (c.params.map (·.name), c.doc.map (·.tags))) =
        [(["élan"], some [⟨"param", "élan - Zest"⟩])] ∧
      (transform accentedParam "a.ts" {} {}).2.messages.map (·.comments) = [["élan"]] := by
  decide +kernel

end Phrasebook
