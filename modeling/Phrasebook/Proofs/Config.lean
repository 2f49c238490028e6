import Phrasebook.Config
import Phrasebook.Proofs.Json.Reads
import Phrasebook.Proofs.Json.Yields

/-!
# Configurations are read back as they were written

What is written for a configuration is read as the same one, in every layout (`parse_toJson`). Each
member fills its field, from the default configuration on (`accepts_toJson`), and a member is left
out only where the default is what it would say (`fills_optional`). All that can be read at all has
sizes of 64 bits (`fits_of_parse`), so that it can be written and read again.
-/

namespace Phrasebook.Config

open Json (Accepts Fills Term Yields memberTerms)

/-- The sizes of a configuration are 64-bit numbers. -/
structure Fits (c : Config) : Prop where
  idLength : c.options.idLength ≤ Json.maxWhole
  indent : c.dictionary.style.indent ≤ Json.maxWhole

/-! ### Values -/

theorem accepts_texts (ss : List String) :
    Accepts (Json.Reader.list .text) (Json.array (ss.map .text)).term ss := by
  have h : List.Forall₂ (Accepts Json.Reader.text) (Json.itemTerms (ss.map .text)) ss := by
    induction ss with
    | nil => exact .nil
    | cons s ss ih => exact .cons (.text s) ih
  exact .list h

theorem accepts_argMode (mode : ArgMode) :
    Accepts (Json.Reader.choice argModes) (.text (argModeName mode)) mode := by
  refine .choice ?_
  cases mode <;> rfl

theorem accepts_someText (s : String) :
    Accepts (Json.Reader.optional .text) (.text s) (some s) :=
  .some (fun h => nomatch h) (.text s)

/-! ### Members -/

theorem memberTerms_append (ms ms' : List (String × Json)) :
    memberTerms (ms ++ ms') = memberTerms ms ++ memberTerms ms' := by
  simp [Json.memberTerms_eq_map]

theorem fst_memberTerms (ms : List (String × Json)) :
    (memberTerms ms).map Prod.fst = ms.map Prod.fst := by
  simp [Json.memberTerms_eq_map]

/-- A member that may be left out fills its field, if what is there without it is the same. -/
theorem fills_optional {α β : Type} {fields : List (Json.Reader.Field α)}
    {field : Json.Reader.Field α} {key : String} {a b : α}
    (hfield : fields.find? (·.name == key) = some field) (value : Option β) (f : β → Json)
    (hsome : ∀ x, value = some x → Accepts (field.read a) (f x).term b)
    (hnone : value = none → a = b) :
    Fills fields a (memberTerms (value.toList.map fun x => (key, f x))) b := by
  cases value with
  | none => exact hnone rfl ▸ .nil a
  | some x => exact .cons hfield (hsome x rfl) (.nil b)

theorem accepts_dictionary {d : DictionaryConfig} (h : d.style.indent ≤ Json.maxWhole) :
    Accepts (Json.Reader.record "struct JsonConfig" dictionaryFields {})
      (dictionaryToJson d).term d := by
  obtain ⟨output, topLevelKey, indent⟩ := d
  -- members are taken in the order in which they are written, each behind those before it
  have houtput : Fills dictionaryFields {} (memberTerms [("output", .text output)])
      { output := output } :=
    .cons rfl ((Accepts.text output).map _) (.nil _)
  have hkey : Fills dictionaryFields { output := output }
      (memberTerms (optionalMember "topLevelKey" topLevelKey))
      { output := output, style.topLevelKey := topLevelKey } := by
    refine fills_optional rfl topLevelKey _ ?_ ?_
    · rintro s rfl
      exact (accepts_someText s).map _
    · rintro rfl
      rfl
  have hindent : Fills dictionaryFields { output := output, style.topLevelKey := topLevelKey }
      (memberTerms [("indent", .nat indent)]) ⟨output, topLevelKey, indent⟩ :=
    .cons rfl ((Accepts.nat h).map _) (.nil _)
  refine @Accepts.record _ _ (memberTerms _) _ _ ?_ ?_ _
  · rw [memberTerms_append]
    exact (houtput.append hkey).append hindent
  · rw [fst_memberTerms]
    cases topLevelKey <;> simp [optionalMember]

theorem accepts_template (s : String) :
    Accepts (Json.Reader.record "struct CatalogConfig" templateFields none)
      (Json.object [("output", .text s)]).term (some s) :=
  .record (.cons rfl (accepts_someText s) (.nil _)) (by simp) _

theorem accepts_toJson {c : Config} (h : c.Fits) :
    Accepts (Json.Reader.record "struct Config" fields {}) c.toJson.term c := by
  obtain ⟨hidLength, hindent⟩ := h
  obtain ⟨includes, ignores, ignoresTests, options, outDir, dictionary, template⟩ := c
  obtain ⟨argMode, setDefault, debug, idLength, runtimeId, runtimeModule⟩ := options
  -- the members that are always there come first, the optional ones on top of them
  let plain : Config := {
    includes, ignores, ignoresTests
    options := ⟨argMode, setDefault, debug, idLength, runtimeId, runtimeModule⟩ }
  have hplain : Fills fields {} (memberTerms [
      ("includes", .array (includes.map .text)), ("ignores", .array (ignores.map .text)),
      ("ignoreTestFiles", .bool ignoresTests), ("argMode", .text (argModeName argMode)),
      ("setDefaultValue", .bool setDefault), ("debug", .bool debug),
      ("hashLength", .nat idLength), ("runtimeId", .text runtimeId),
      ("runtimeModule", .text runtimeModule)]) plain :=
    .cons rfl ((accepts_texts includes).map _) <|
    .cons rfl ((accepts_texts ignores).map _) <|
    .cons rfl ((Accepts.bool ignoresTests).map _) <|
    .cons rfl ((accepts_argMode argMode).map _) <|
    .cons rfl ((Accepts.bool setDefault).map _) <|
    .cons rfl ((Accepts.bool debug).map _) <|
    .cons rfl ((Accepts.nat hidLength).map _) <|
    .cons rfl ((Accepts.text runtimeId).map _) <|
    .cons rfl ((Accepts.text runtimeModule).map _) (.nil _)
  have houtDir : Fills fields plain (memberTerms (optionalMember "outDir" outDir))
      { plain with outDir } := by
    refine fills_optional rfl outDir _ ?_ ?_
    · rintro s rfl
      exact (accepts_someText s).map _
    · rintro rfl
      rfl
  have hdictionary : Fills fields { plain with outDir }
      (memberTerms [("json", dictionaryToJson dictionary)]) { plain with outDir, dictionary } :=
    .cons rfl ((accepts_dictionary hindent).map _) (.nil _)
  have htemplate : Fills fields { plain with outDir, dictionary }
      (memberTerms (template.toList.map fun s => ("catalog", .object [("output", .text s)])))
      { plain with outDir, dictionary, template } := by
    refine fills_optional rfl template _ ?_ ?_
    · rintro s rfl
      exact (accepts_template s).map _
    · rintro rfl
      rfl
  refine @Accepts.record _ _ (memberTerms _) _ _ ?_ ?_ _
  · rw [memberTerms_append, memberTerms_append]
    exact (hplain.append houtDir).append (hdictionary.append htemplate)
  · rw [fst_memberTerms]
    cases outDir <;> cases template <;> simp [optionalMember]

/-! ### Whole texts -/

/-- Every text that means what is written is read as the configuration, whatever its layout. -/
theorem parse_of_means {c : Config} (h : c.Fits) {cs : List Char}
    (hmeans : Json.Grammar.Means cs c.toJson.term) : parse (String.ofList cs) = .ok c :=
  (accepts_toJson h).run hmeans

theorem parse_write {c : Config} (h : c.Fits) (layout : Json.Layout) :
    parse (String.ofList (c.toJson.write layout 0)) = .ok c := by
  refine parse_of_means h ?_
  have hmeans := Json.means_write layout c.toJson (List.forall_mem_nil _) c.toJson.term
  rw [List.append_nil] at hmeans
  exact hmeans.mpr rfl

/-- The written defaults are read as the defaults. -/
theorem parse_defaultText : parse defaultText = .ok {} :=
  parse_write ⟨by decide, by decide⟩ (.pretty 2)

/-! ### Sizes -/

theorem yields_dictionary : Yields (Json.Reader.record "struct JsonConfig" dictionaryFields {})
    fun d => d.style.indent ≤ Json.maxWhole := by
  refine .record ?_ (by decide) _
  simp only [dictionaryFields, List.forall_mem_cons]
  refine ⟨?output, ?topLevelKey, ?indent, by simp⟩
  case output => exact fun d hd => .bind fun _ => .pure hd
  case topLevelKey => exact fun d hd => .bind fun _ => .pure hd
  case indent => exact fun d _ => Yields.nat.map fun n hn => hn

/-- The sizes of every configuration that is read are 64-bit numbers. -/
theorem fits_of_parse {text : String} {c : Config} (h : parse text = .ok c) : c.Fits := by
  have keeps {α : Type} (r : Json.Reader α) (set : Config → α → Config)
      (hset : ∀ c a, (set c a).options.idLength = c.options.idLength ∧
        (set c a).dictionary = c.dictionary) (c : Config) (hc : c.Fits) :
      Yields (do return set c (← r)) Fits :=
    .bind fun a => .pure ⟨(hset c a).1 ▸ hc.idLength, (hset c a).2 ▸ hc.indent⟩
  refine Yields.run (.record ?_ ⟨by decide, by decide⟩ _) h
  simp only [fields, List.forall_mem_cons]
  refine ⟨keeps _ _ ?_, keeps _ _ ?_, keeps _ _ ?_, keeps _ _ ?_, keeps _ _ ?_, keeps _ _ ?_,
    ?hashLength, keeps _ _ ?_, keeps _ _ ?_, keeps _ _ ?_, ?json, keeps _ _ ?_, by simp⟩
  case hashLength => exact fun c hc => Yields.nat.map fun n hn => ⟨hn, hc.indent⟩
  case json => exact fun c hc => yields_dictionary.map fun d hd => ⟨hc.idLength, hd⟩
  all_goals exact fun c a => ⟨rfl, rfl⟩

/-- A configuration with 64-bit sizes is read back from what is written for it, on one line or with
any indent; so is one that was itself read from some text. -/
theorem parse_toJson :
    (∀ c : Config, c.Fits → parse c.toJson.compact = .ok c ∧
      ∀ indent, parse (c.toJson.pretty indent) = .ok c) ∧
    ∀ (text : String) (c : Config), parse text = .ok c → parse c.toJson.compact = .ok c ∧
      ∀ indent, parse (c.toJson.pretty indent) = .ok c := by
  have h : ∀ c : Config, c.Fits → parse c.toJson.compact = .ok c ∧
      ∀ indent, parse (c.toJson.pretty indent) = .ok c :=
    fun c hc => ⟨parse_write hc .compact, fun indent => parse_write hc (.pretty indent)⟩
  exact ⟨h, fun text c hparse => h c (fits_of_parse hparse)⟩

/-- Escapes, an empty path, a template and the largest size are kept; so is what was read from a
text with a null, a pair of surrogates and a member of another name. -/
theorem parse_toJson_unusual :
    (let c : Config := {
      ignores := ["\"a\" \\ b\t", "\x01"]
      options.idLength := Json.maxWhole
      outDir := some ""
      template := some "𝄞.pot" }
    c.Fits ∧ parse c.toJson.compact = .ok c) ∧
    parse "\x7b\"x\": [1.5], \"outDir\": null, \"includes\": [\"\\ud834\\udd1e\"]\x7d"
      = .ok { includes := ["𝄞"] } ∧
    parse ((toJson { includes := ["𝄞"] }).pretty 3) = .ok { includes := ["𝄞"] } := by
  constructor
  · intro c
    have hfits : c.Fits := ⟨Nat.le_refl Json.maxWhole, by decide⟩
    exact ⟨hfits, (parse_toJson.1 c hfits).1⟩
  · have readBack {text : String} {c : Config} (h : parse text = .ok c) :
        parse text = .ok c ∧ parse (c.toJson.pretty 3) = .ok c :=
      ⟨h, (parse_toJson.2 text c h).2 3⟩
    exact readBack (by decide +kernel)


end Phrasebook.Config
