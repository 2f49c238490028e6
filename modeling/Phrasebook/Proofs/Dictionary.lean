import Phrasebook.Dictionary
import Phrasebook.Proofs.Json.Written
import Phrasebook.Proofs.Store.Made
import Phrasebook.Proofs.Text.Bytes

/-!
# Dictionaries read by the JSON grammar

A dictionary means one object only, in any layout: a member for each message of the store in the
order of their ids, whose name is the id and whose value is the text (`means_renderDictionary`).
-/

namespace Phrasebook

open Json.Grammar (Means)

/-- What the dictionary of a store should mean. -/
def Store.entries (s : Store) : Json.Term :=
  .object (s.messages.map fun m => (m.id, .text m.text))

/-- A value under a key of its own if there is one. -/
def Json.Term.under (t : Json.Term) : Option String → Json.Term
  | some key => .object [(key, t)]
  | none => t

theorem Store.term_dictionary (s : Store) (topLevelKey : Option String) :
    (s.dictionary topLevelKey).term = s.entries.under topLevelKey := by
  cases topLevelKey <;>
    simp [dictionary, Json.term, Json.memberTerms, Json.memberTerms_eq_map, entries,
      Json.Term.under]

def DictionaryStyle.layout (style : DictionaryStyle) : Json.Layout :=
  if style.indent = 0 then .compact else .pretty style.indent

theorem Store.toList_renderDictionary (s : Store) (style : DictionaryStyle) :
    (s.renderDictionary style).toList =
      Json.write style.layout 0 (s.dictionary style.topLevelKey) ++ ['\n'] := by
  unfold renderDictionary DictionaryStyle.layout
  by_cases hindent : style.indent = 0
  · simp [hindent, Json.compact]
  · simp [hindent, Json.pretty]

/-- An object ends in its brace. -/
theorem Json.write_object (layout : Layout) (level : Nat) (members : List (String × Json)) :
    ∃ front, write layout level (.object members) = front ++ ['\x7d'] := by
  match members with
  | [] => exact ⟨['\x7b'], rfl⟩
  | (key, x) :: members => exact ⟨_, rfl⟩

/-- The text of the dictionary of a store ends in one line break, behind a brace. By the JSON
grammar it means one thing only: an object, under the key if there is one, with a member for each
message, its id and its text, where the bytes of the ids ascend. -/
theorem Store.means_renderDictionary {s : Store} (h : s.Made) (style : DictionaryStyle) :
    (∃ front, (s.renderDictionary style).toList = front ++ ['\x7d', '\n']) ∧
      (∀ t, Means (s.renderDictionary style).toList t ↔ t = s.entries.under style.topLevelKey) ∧
      (s.messages.map fun m => Text.bytes m.id).Pairwise (· < ·) := by
  rw [toList_renderDictionary]
  refine ⟨?_, fun t => ?_, ?_⟩
  · obtain ⟨members, hobject⟩ : ∃ members, s.dictionary style.topLevelKey = .object members := by
      cases hkey : style.topLevelKey <;> exact ⟨_, rfl⟩
    obtain ⟨front, hfront⟩ := Json.write_object style.layout 0 members
    exact ⟨front, by rw [hobject, hfront, List.append_assoc]; rfl⟩
  · rw [Json.means_write _ _ (List.forall_mem_singleton.mpr rfl), term_dictionary]
  · exact List.pairwise_map.mpr (h.ascending.imp fun hlt => Text.bytes_lt_bytes hlt)

set_option maxRecDepth 100000 in
/-- A recorded text, and two added ones with a quote, a control character and a character of four
bytes. -/
theorem Store.means_renderDictionary_nested :
    let source := "const m = \x7b hello: () => \"Hello\" \x7d;"
    let recorded := runCalls [.transform source "greeting.ts" {}] {}
    let s := (recorded.add ⟨"é", "a\"\x01😀", none, [], [], []⟩).add ⟨"z", "", none, [], [], []⟩
    let rendered := s.renderDictionary ⟨some "t", 0⟩
    rendered =
        "\x7b\"t\":\x7b\"185f8db322\":\"Hello\",\"z\":\"\",\"é\":\"a\\\"\\u0001😀\"\x7d\x7d\n" ∧
      ∀ t, Means rendered.toList t ↔ t = .object [("t", .object [("185f8db322", .text "Hello"),
        ("z", .text ""), ("é", .text "a\"\x01😀")])] := by
  intro source recorded s rendered
  have hmade : s.Made := ((made_runCalls .empty _).add _).add _
  refine ⟨by decide +kernel, fun t => ?_⟩
  have hmessages : s.messages.map (fun m => (m.id, m.text)) =
      [("185f8db322", "Hello"), ("z", ""), ("é", "a\"\x01😀")] := by decide +kernel
  have hentries : s.entries = .object [("185f8db322", .text "Hello"), ("z", .text ""),
      ("é", .text "a\"\x01😀")] := by
    have hmap := congrArg (List.map fun entry => (entry.1, Json.Term.text entry.2)) hmessages
    rw [List.map_map] at hmap
    exact congrArg Json.Term.object hmap
  rw [(means_renderDictionary hmade ⟨some "t", 0⟩).2.1 t, hentries]
  rfl

end Phrasebook
