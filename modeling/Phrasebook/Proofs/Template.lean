import Phrasebook.Proofs.Path
import Phrasebook.Proofs.Store.Made
import Phrasebook.Proofs.Template.Reader
import Phrasebook.Proofs.Text.Bytes
import Phrasebook.Template

/-!
# Templates read back

Escaping gives letters that stand for themselves and pairs of a backslash and a letter
(`escapeChar_cases`). A cut behind a line end or a space never falls between the two, so that each
line of a field is again an escaped text (`exists_cutLines_escape`, `exists_wrap_escape`), and the
lines together are the text. `Writes lines fields` says that lines of a template are read as these
fields, whatever follows; it holds of each field and entry, and so of the whole template
(`read_renderTemplate`).
-/

namespace Phrasebook

namespace Template

/-! ### Escapes -/

theorem escapeChar_cases (c : Char) :
    (∃ x, escapeChar c = ['\\', x] ∧ escapeValue? x = some c ∧ x ≠ '\n') ∨
      (escapeChar c = [c] ∧ c ≠ '\\' ∧ c ≠ '"' ∧ c ≠ '\n') := by
  unfold escapeChar
  by_cases hbackslash : c = '\\'
  · subst hbackslash
    exact .inl ⟨'\\', rfl, rfl, by decide⟩
  rw [if_neg hbackslash]
  by_cases hquote : c = '"'
  · subst hquote
    exact .inl ⟨'"', rfl, rfl, by decide⟩
  rw [if_neg hquote]
  by_cases hn : c = '\n'
  · subst hn
    exact .inl ⟨'n', rfl, rfl, by decide⟩
  rw [if_neg hn]
  by_cases hr : c = '\r'
  · subst hr
    exact .inl ⟨'r', rfl, rfl, by decide⟩
  rw [if_neg hr]
  by_cases ht : c = '\t'
  · subst ht
    exact .inl ⟨'t', rfl, rfl, by decide⟩
  · rw [if_neg ht]
    exact .inr ⟨rfl, hbackslash, hquote, hn⟩

theorem escape_cons (c : Char) (cs : List Char) : escape (c :: cs) = escapeChar c ++ escape cs :=
  List.flatMap_cons

theorem escape_append (a b : List Char) : escape (a ++ b) = escape a ++ escape b :=
  List.flatMap_append

theorem unescape_escape (cs : List Char) : unescape (escape cs) = some cs := by
  induction cs with
  | nil => rfl
  | cons c cs ih =>
    rw [escape_cons]
    obtain ⟨x, hc, hx, -⟩ | ⟨hc, hne, -, -⟩ := escapeChar_cases c <;> rw [hc]
    · simp [unescape, hx, ih]
    · rw [List.singleton_append, unescape_cons hne, ih]
      rfl

theorem inside?_escape (cs : List Char) : inside? (escape cs ++ ['"']) = some (escape cs) := by
  induction cs with
  | nil => rfl
  | cons c cs ih =>
    rw [escape_cons, List.append_assoc]
    obtain ⟨x, hc, -⟩ | ⟨hc, hne, hquote, -⟩ := escapeChar_cases c <;> rw [hc]
    · simp [inside?, ih]
    · rw [List.singleton_append, inside?_cons hquote hne, ih]
      rfl

theorem newline_notMem_escape (cs : List Char) : '\n' ∉ escape cs := by
  intro h
  obtain ⟨c, -, h⟩ := List.mem_flatMap.mp h
  obtain ⟨x, hc, -, hx⟩ | ⟨hc, -, -, hne⟩ := escapeChar_cases c <;> rw [hc] at h
  · simp [Ne.symm hx] at h
  · simp [Ne.symm hne] at h

/-! ### Cutting an escaped text -/

/-- A character in front of escaped pieces is escaped in front of the first one. -/
theorem foldr_consFirst_escapeChar (c : Char) (parts : List (List Char)) :
    (escapeChar c).foldr consFirst (parts.map escape) = (consFirst c parts).map escape := by
  obtain ⟨x, hc, -⟩ | ⟨hc, -⟩ := escapeChar_cases c <;>
    cases parts <;> simp [hc, consFirst, escape]

theorem flatten_consFirst (c : Char) (parts : List (List Char)) :
    (consFirst c parts).flatten = c :: parts.flatten := by
  cases parts <;> rfl

theorem cutLines_cons {c : Char} {rest : List Char} (h : c = '\\' → rest.head? ≠ some 'n') :
    cutLines (c :: rest) = consFirst c (cutLines rest) := by
  rw [cutLines]
  rintro rest' rfl rfl
  exact h rfl rfl

/-- An escaped text does not begin with the letter of a line end unless the text does. -/
theorem head?_escape_ne {cs : List Char} (h : cs.head? ≠ some 'n') :
    (escape cs).head? ≠ some 'n' := by
  cases cs with
  | nil => simp [escape]
  | cons c cs =>
    rw [escape_cons]
    obtain ⟨x, hc, -⟩ | ⟨hc, -⟩ := escapeChar_cases c <;> rw [hc]
    · simp
    · simpa using h

/-- Unless it is a line end, or a backslash that the letter of one follows, a character stays with
what is behind it. -/
theorem cutLines_escape_cons {c : Char} {cs : List Char} (hn : c ≠ '\n')
    (h : c = '\\' → cs.head? ≠ some 'n') :
    cutLines (escape (c :: cs)) = (escapeChar c).foldr consFirst (cutLines (escape cs)) := by
  rw [escape_cons]
  obtain ⟨x, hc, hx, -⟩ | ⟨hc, hne, -, -⟩ := escapeChar_cases c
  · have hxn : x ≠ 'n' := by
      rintro rfl
      exact hn (Option.some.inj hx).symm
    have hrest : x = '\\' → (escape cs).head? ≠ some 'n' := by
      rintro rfl
      exact head?_escape_ne (h (Option.some.inj hx).symm)
    rw [hc, List.cons_append, List.singleton_append, cutLines_cons (by simpa using hxn),
      cutLines_cons hrest]
    rfl
  · rw [hc, List.singleton_append, cutLines_cons fun heq => absurd heq hne]
    rfl

/-- Where the escaped form of a text is cut: behind a line feed, and behind a backslash with the
letter of one, which have the same end when they are escaped. -/
def cutText : List Char → List (List Char)
  | [] => []
  | '\n' :: cs => ['\n'] :: cutText cs
  | '\\' :: 'n' :: cs => ['\\', 'n'] :: cutText cs
  | c :: cs => consFirst c (cutText cs)

theorem flatten_cutText (cs : List Char) : (cutText cs).flatten = cs := by
  fun_induction cutText cs with
  | case1 => rfl
  | case2 cs ih => rw [List.flatten_cons, ih, List.singleton_append]
  | case3 cs ih => rw [List.flatten_cons, ih, List.cons_append, List.singleton_append]
  | case4 c cs _ _ ih => rw [flatten_consFirst, ih]

theorem cutLines_escape (cs : List Char) : cutLines (escape cs) = (cutText cs).map escape := by
  fun_induction cutText cs with
  | case1 => rfl
  | case2 cs ih =>
    rw [List.map_cons, ← ih]
    rfl
  | case3 cs ih =>
    rw [List.map_cons, ← ih]
    rfl
  | case4 c cs hn h ih =>
    rw [← foldr_consFirst_escapeChar, ← ih, cutLines_escape_cons hn fun hc hhead => ?_]
    obtain ⟨rest, rfl⟩ := List.head?_eq_some_iff.mp hhead
    exact h rest hc rfl

theorem cutWords_cons {c : Char} (h : c ≠ ' ') (cs : List Char) :
    cutWords (c :: cs) = consFirst c (cutWords cs) := by
  rw [cutWords]
  exact h

theorem flatten_cutWords (cs : List Char) : (cutWords cs).flatten = cs := by
  fun_induction cutWords cs with
  | case1 => rfl
  | case2 cs ih => rw [List.flatten_cons, ih, List.singleton_append]
  | case3 c cs _ ih => rw [flatten_consFirst, ih]

theorem space_notMem_escapeChar {c : Char} (h : c ≠ ' ') : ' ' ∉ escapeChar c := by
  obtain ⟨x, hc, hx, -⟩ | ⟨hc, -⟩ := escapeChar_cases c <;> rw [hc]
  · have hne : x ≠ ' ' := by
      rintro rfl
      cases hx
    simp [Ne.symm hne]
  · simpa using Ne.symm h

theorem cutWords_append {a : List Char} (h : ' ' ∉ a) (cs : List Char) :
    cutWords (a ++ cs) = a.foldr consFirst (cutWords cs) := by
  induction a with
  | nil => rfl
  | cons c a ih =>
    obtain ⟨hc, ha⟩ := not_or.mp (mt List.mem_cons.mpr h)
    rw [List.cons_append, cutWords_cons (Ne.symm hc), ih ha, List.foldr_cons]

theorem cutWords_escape (cs : List Char) : cutWords (escape cs) = (cutWords cs).map escape := by
  fun_induction cutWords cs with
  | case1 => rfl
  | case2 cs ih =>
    rw [List.map_cons, ← ih]
    rfl
  | case3 c cs hc ih =>
    rw [escape_cons, cutWords_append (space_notMem_escapeChar hc), ih, foldr_consFirst_escapeChar]

theorem exists_fill_escape (line : List Char) (words : List (List Char)) :
    ∃ parts : List (List Char), fill (escape line) (words.map escape) = parts.map escape ∧
      parts.flatten = line ++ words.flatten := by
  induction words generalizing line with
  | nil => exact ⟨[line], rfl, by simp⟩
  | cons word words ih =>
    rw [List.map_cons, fill]
    split
    · obtain ⟨parts, hparts, hflatten⟩ := ih word
      exact ⟨line :: parts, by rw [hparts, List.map_cons], by simp [hflatten]⟩
    · obtain ⟨parts, hparts, hflatten⟩ := ih (line ++ word)
      exact ⟨parts, by rw [← hparts, escape_append], by simp [hflatten]⟩

theorem exists_wrap_escape (cs : List Char) :
    ∃ parts : List (List Char), wrap (escape cs) = parts.map escape ∧ parts.flatten = cs := by
  obtain ⟨parts, hparts, hflatten⟩ := exists_fill_escape [] (cutWords cs)
  refine ⟨parts, ?_, by rw [hflatten, flatten_cutWords, List.nil_append]⟩
  rw [wrap, cutWords_escape]
  exact hparts

theorem exists_flatMap_wrap_escape (parts : List (List Char)) :
    ∃ pieces : List (List Char), (parts.map escape).flatMap wrap = pieces.map escape ∧
      pieces.flatten = parts.flatten := by
  induction parts with
  | nil => exact ⟨[], rfl, rfl⟩
  | cons part parts ih =>
    obtain ⟨pieces, hpieces, hflatten⟩ := exists_wrap_escape part
    obtain ⟨rest, hrest, hflatten'⟩ := ih
    exact ⟨pieces ++ rest, by simp [hpieces, hrest], by simp [hflatten, hflatten']⟩

/-- The lines of a long field are texts of their own, and together the text. -/
theorem exists_pieces (cs : List Char) :
    ∃ pieces : List (List Char),
      (cutLines (escape cs)).flatMap wrap = pieces.map escape ∧ pieces.flatten = cs := by
  obtain ⟨pieces, hpieces, hflatten⟩ := exists_flatMap_wrap_escape (cutText cs)
  exact ⟨pieces, by rw [cutLines_escape, hpieces], by rw [hflatten, flatten_cutText]⟩

-- an escaped backslash in front of an `n` is cut like a line end, and joined again like one
example : (cutLines (escape "C:\\new\nb".toList)).map String.ofList =
    ["C:\\\\n", "ew\\n", "b"] := by decide

/-! ### Lines -/

/-- Lines without line feeds that are read as these fields, whatever fields follow. -/
structure Writes (lines : List (List Char)) (fields : List (Keyword × List Char)) : Prop where
  newline : ∀ line ∈ lines, '\n' ∉ line
  read : ∃ ls, lines.mapM readLine = some ls ∧ ∀ rest later,
    collectFields rest = ([], later) → collectFields (ls ++ rest) = ([], fields ++ later)

namespace Writes

theorem nil : Writes [] [] :=
  ⟨by simp, [], rfl, fun _ _ h => h⟩

theorem append {lines lines' : List (List Char)} {fields fields' : List (Keyword × List Char)}
    (h : Writes lines fields) (h' : Writes lines' fields') :
    Writes (lines ++ lines') (fields ++ fields') := by
  obtain ⟨ls, hls, hfields⟩ := h.read
  obtain ⟨ls', hls', hfields'⟩ := h'.read
  refine ⟨List.forall_mem_append.mpr ⟨h.newline, h'.newline⟩, ls ++ ls', ?_,
    fun rest later hrest => ?_⟩
  · simp [hls, hls']
  · rw [List.append_assoc, List.append_assoc]
    exact hfields _ _ (hfields' rest later hrest)

theorem flatMap {α : Type} {lines : α → List (List Char)}
    {fields : α → List (Keyword × List Char)} {xs : List α}
    (h : ∀ x ∈ xs, Writes (lines x) (fields x)) :
    Writes (xs.flatMap lines) (xs.flatMap fields) := by
  induction xs with
  | nil => exact nil
  | cons x xs ih =>
    obtain ⟨hx, hxs⟩ := List.forall_mem_cons.mp h
    rw [List.flatMap_cons, List.flatMap_cons]
    exact hx.append (ih hxs)

theorem skip {line : List Char} {lines : List (List Char)} {fields : List (Keyword × List Char)}
    (hnewline : '\n' ∉ line) (hread : readLine line = some .skipped) (h : Writes lines fields) :
    Writes (line :: lines) fields := by
  obtain ⟨ls, hls, hfields⟩ := h.read
  exact ⟨List.forall_mem_cons.mpr ⟨hnewline, h.newline⟩, .skipped :: ls, by simp [hread, hls],
    hfields⟩

end Writes

/-- A line with a keyword and quoted text. -/
theorem readLine_name (k : Keyword) (cs : List Char) :
    readLine (k.name.toList ++ ' ' :: quote (escape cs)) = some (.field k (escape cs)) := by
  have h : readLine (k.name.toList ++ ' ' :: quote (escape cs)) =
      (inside? (escape cs ++ ['"'])).map (.field k) := by
    cases k <;> rfl
  rw [h, inside?_escape]
  rfl

theorem readLine_quote (cs : List Char) :
    readLine (quote (escape cs)) = some (.more (escape cs)) := by
  have h : readLine (quote (escape cs)) = (inside? (escape cs ++ ['"'])).map .more := rfl
  rw [h, inside?_escape]
  rfl

theorem mapM_readLine_quote (pieces : List (List Char)) :
    ((pieces.map escape).map quote).mapM readLine = some ((pieces.map escape).map .more) := by
  induction pieces with
  | nil => rfl
  | cons piece pieces ih =>
    simp only [List.map_cons, List.mapM_cons, readLine_quote, ih]
    rfl

theorem collectFields_more (raws : List (List Char)) {rest : List Line}
    {later : List (Keyword × List Char)} (h : collectFields rest = ([], later)) :
    collectFields (raws.map .more ++ rest) = (raws, later) := by
  induction raws with
  | nil => exact h
  | cons raw raws ih =>
    rw [List.map_cons, List.cons_append, collectFields, ih]

theorem flatten_map_escape (pieces : List (List Char)) :
    (pieces.map escape).flatten = escape pieces.flatten := by
  induction pieces with
  | nil => rfl
  | cons piece pieces ih =>
    rw [List.map_cons, List.flatten_cons, ih, List.flatten_cons, escape_append]

theorem newline_notMem_name (k : Keyword) : '\n' ∉ k.name.toList := by
  cases k <;> decide

theorem newline_notMem_quote (cs : List Char) : '\n' ∉ quote (escape cs) := by
  have := newline_notMem_escape cs
  simp [quote, this]

/-- A field, on one line or several. -/
theorem writes_field (k : Keyword) (text : String) :
    Writes (field k.name text) [(k, escape text.toList)] := by
  have hname := newline_notMem_name k
  have hquote := newline_notMem_quote text.toList
  simp only [field]
  split
  · refine ⟨List.forall_mem_singleton.mpr (by simp [hname, hquote]),
      [.field k (escape text.toList)], ?_, fun rest later hrest => ?_⟩
    · simp [readLine_name]
    · simp [collectFields, hrest]
  · -- on several lines the field itself is empty, and its text is what the lines behind it add
    obtain ⟨pieces, hpieces, hflatten⟩ := exists_pieces text.toList
    have hfirst : k.name.toList ++ [' ', '"', '"'] =
        k.name.toList ++ ' ' :: quote (escape []) := rfl
    rw [hpieces, hfirst]
    refine ⟨List.forall_mem_cons.mpr ⟨?_, ?_⟩,
      .field k (escape []) :: (pieces.map escape).map .more, ?_, fun rest later hrest => ?_⟩
    · simp [hname, newline_notMem_quote]
    · simp only [List.forall_mem_map]
      exact fun piece _ => newline_notMem_quote piece
    · rw [List.mapM_cons, readLine_name, mapM_readLine_quote]
      rfl
    · rw [List.cons_append, collectFields, collectFields_more _ hrest]
      simp [flatten_map_escape, hflatten, escape]

/-- Lines with a mark are comments, whatever they say. -/
theorem writes_marked (mark : String) (hmark : ∃ rest, mark.toList = '#' :: rest ∧ '\n' ∉ rest)
    (lines : List (List Char)) : Writes (marked mark lines) [] := by
  obtain ⟨rest, hmark, hrest⟩ := hmark
  simp only [marked]
  split
  · exact .nil
  · have hpieces : ∀ piece ∈ Text.splitOn '\n' (Text.join ['\n'] lines), '\n' ∉ piece :=
      fun _ => Text.notMem_of_mem_splitOn
    generalize Text.splitOn '\n' (Text.join ['\n'] lines) = pieces at hpieces
    induction pieces with
    | nil => exact .nil
    | cons piece pieces ih =>
      obtain ⟨hpiece, hpieces⟩ := List.forall_mem_cons.mp hpieces
      rw [List.map_cons, hmark]
      refine .skip (by simp [hrest, hpiece]) rfl ?_
      rw [← hmark]
      exact ih hpieces

/-! ### Entries -/

/-- The entry of a message. -/
def Entry.of (m : Message) : Entry := ⟨some m.id, m.text, ""⟩

/-- A field as it is written. -/
def writtenField (field : Keyword × String) : Keyword × List Char :=
  (field.1, escape field.2.toList)

def Entry.written (e : Entry) : List (Keyword × List Char) := e.fields.map writtenField

theorem mapM_unescapeField (fields : List (Keyword × String)) :
    (fields.map writtenField).mapM unescapeField = some fields := by
  induction fields with
  | nil => rfl
  | cons field fields ih =>
    have hfield : unescapeField (writtenField field) = some field := by
      simp [unescapeField, writtenField, unescape_escape]
    rw [List.map_cons, List.mapM_cons, hfield, ih]
    rfl

theorem flatMap_written (es : List Entry) :
    es.flatMap Entry.written = (es.flatMap Entry.fields).map writtenField := by
  rw [List.map_flatMap]
  rfl

theorem writes_entry {m : Message} (h : m.id ≠ "") :
    Writes (entry m) (Entry.of m).written := by
  rw [entry, if_neg h]
  have hcomments := writes_marked "#. " ⟨['.', ' '], rfl, by decide⟩
    (m.comments.flatMap fun c => Text.lines c.toList)
  have hlocations := writes_marked "#: " ⟨[':', ' '], rfl, by decide⟩
    (m.locations.map (·.render.toList))
  have hcontext := writes_field .context m.id
  have htext := writes_field .source m.text
  have htranslation := writes_field .translation ""
  have hblank : Writes [[]] [] := .skip (by simp) rfl .nil
  exact ((((hcomments.append hlocations).append hcontext).append htext).append
    htranslation).append hblank

end Template

open Template

theorem Text.splitOn_flatMap {sep : Char} {lines : List (List Char)}
    (h : ∀ line ∈ lines, sep ∉ line) :
    splitOn sep (lines.flatMap (· ++ [sep])) = lines ++ [[]] := by
  induction lines with
  | nil => rfl
  | cons line lines ih =>
    obtain ⟨hline, hlines⟩ := List.forall_mem_cons.mp h
    rw [List.flatMap_cons, List.append_assoc, List.singleton_append, splitOn_append hline,
      ih hlines]
    rfl

theorem Template.read_of_writes {lines : List (List Char)} {es : List Entry}
    (h : Writes lines (es.flatMap Entry.written)) :
    Template.read (String.ofList (lines.flatMap (· ++ ['\n']))) = some es := by
  obtain ⟨ls, hls, hfields⟩ := h.read
  have hcollect := hfields [.skipped] [] rfl
  rw [List.append_nil, flatMap_written] at hcollect
  have hlast : readLine [] = some .skipped := rfl
  have hunescape := mapM_unescapeField (es.flatMap Entry.fields)
  generalize (es.flatMap Entry.fields).map writtenField = raws at hcollect hunescape
  simp [Template.read, Text.splitOn_flatMap h.newline, hls, hlast, hcollect, hunescape,
    entries?_fields]

theorem Store.read_renderTemplate_of_ids {s : Store} (h : ∀ m ∈ s.messages, m.id ≠ "") :
    Template.read s.renderTemplate =
      some (⟨none, "", Template.header⟩ :: s.messages.map Entry.of) := by
  have hblank : Writes [[]] [] := .skip (by simp) rfl .nil
  have hsource := writes_field .source ""
  have hheader := writes_field .translation Template.header
  have hmessages : Writes (s.messages.flatMap entry) (s.messages.flatMap fun m =>
      (Entry.of m).written) := .flatMap fun m hm => writes_entry (h m hm)
  have hfields : (⟨none, "", Template.header⟩ :: s.messages.map Entry.of).flatMap Entry.written =
      [] ++ [(.source, escape "".toList)] ++ [(.translation, escape Template.header.toList)] ++ []
        ++ s.messages.flatMap fun m => (Entry.of m).written := by
    rw [List.flatMap_cons, List.flatMap_map]
    rfl
  rw [renderTemplate, read_of_writes]
  rw [hfields]
  exact (((hblank.append hsource).append hheader).append hblank).append hmessages

/-- A template is read as its header and one entry for each message, whose context is the id and
whose translation is empty, and the bytes of the ids ascend. -/
theorem Store.read_renderTemplate (calls : List StoreCall) :
    let s := runCalls calls {}
    Template.read s.renderTemplate = some (⟨none, "", Template.header⟩ ::
      s.messages.map fun m => ⟨some m.id, m.text, ""⟩) ∧
    (s.messages.map fun m => Text.bytes m.id).Pairwise (· < ·) := by
  intro s
  have hcoherent := coherent_runCalls Store.coherent_empty calls
  refine ⟨read_renderTemplate_of_ids fun m hm hid => ?_, ?_⟩
  · have howner := hcoherent.owned m hm
    have hform := hcoherent.ownedIds.isMessageId _ _ howner
    rw [hid] at hform
    exact absurd hform.2.1 (by decide)
  · exact List.pairwise_map.mpr (hcoherent.ascending.imp fun hlt => Text.bytes_lt_bytes hlt)

end Phrasebook
