import IncrementalLint.Cache.Store
import IncrementalLint.Proofs.Json.Records

/-!
# The text of a store

A store is its text: what is written for it is read as the same entries and tags.

* `Store.text`                 what is saved;
* `Store.ofText?`              the store that a text holds, as of a time;
* `Store.ofText?_text`         the two are inverse;
* `Store.get?_validateTags`    what outlasts a check of the tags.
-/

namespace IncrementalLint

/-! ## text in bytes -/

theorem Utf8.decode?_encode (s : String) : decode? (encode s) = some s := by
  show (if h : s.toByteArray.IsValidUTF8 then some (String.fromUTF8 s.toByteArray h) else none) = some s
  rw [dif_pos s.isValidUTF8]
  rfl

/-! ## outcomes -/

theorem Outcome.ofJson?_toJson (o : Outcome) : Outcome.ofJson? o.toJson = some o := by
  have hint : Json.asInt32? (.int o.result.toInt) = some o.result := by
    have hrange : (decide (Int32.minValue.toInt ≤ o.result.toInt) &&
        decide (o.result.toInt ≤ Int32.maxValue.toInt)) = true := by
      rw [Bool.and_eq_true, decide_eq_true_eq, decide_eq_true_eq]
      exact ⟨o.result.minValue_le_toInt, o.result.toInt_le⟩
    simp only [Json.asInt32?, Json.asIntIn?, Json.asInt?, Option.filter, hrange, if_true,
      Option.map_some, Int32.ofInt_toInt]
  have hfields : Json.Fields.ofJson? ["result", "output"] o.toJson =
      some ⟨[("result", .int o.result.toInt), ("output", .string o.output)]⟩ := rfl
  simp only [Outcome.ofJson?, hfields, Option.bind_eq_bind, Option.bind_some, Json.Fields.required?]
  have h1 : Json.Fields.find? ⟨[("result", .int o.result.toInt), ("output", .string o.output)]⟩ "result"
      = some (.int o.result.toInt) := rfl
  have h2 : Json.Fields.find? ⟨[("result", .int o.result.toInt), ("output", .string o.output)]⟩ "output"
      = some (.string o.output) := rfl
  rw [h1, h2]
  simp only [Option.bind_some, hint]
  rfl

/-! ## stores -/

namespace Store

def text (s : Store) : String := Json.pretty s.toJson

/-- the store that a text holds, as of a time -/
def ofText? (time : Time) (text : String) : Option Store := (Json.read? text).bind (ofJson? time)

/-- the reference is not part of the text -/
theorem text_congr {s s' : Store} (he : s'.entries = s.entries) (hr : s'.ruleSetId = s.ruleSetId)
    (ht : s'.toolVersionId = s.toolVersionId) : s'.text = s.text := by
  rw [text, text, toJson, toJson, he, hr, ht]

theorem ofJson?_toJson (s : Store) (time : Time) :
    ofJson? time s.toJson = some { s with reference := some time } := by
  have hfields : Json.Fields.ofJson? ["entries", "ruleSetId", "toolVersionId"] s.toJson = some ⟨[
      ("entries", .object (s.entries.toList.map fun e => (e.1, e.2.toJson))),
      ("ruleSetId", .string s.ruleSetId), ("toolVersionId", .string s.toolVersionId)]⟩ := rfl
  simp only [ofJson?, hfields, Option.bind_eq_bind, Option.bind_some]
  simp only [Json.Fields.withDefault?, Json.Fields.find?, List.find?, String.reduceBEq,
    Option.map_some, Option.elim_some, Json.asMap?_map Outcome.ofJson?_toJson, Json.asString?, Option.bind_some]
  rfl

theorem plain_toJson (s : Store) : Json.plain s.toJson = true := by
  have hentries := Json.plainMembers_map (fun _ => rfl : ∀ o : Outcome, Json.plain o.toJson = true) s.entries.toList
  simp only [toJson, Json.plain, Json.plainMembers, hentries, Bool.and_self]

theorem ofText?_text (s : Store) (time : Time) : ofText? time s.text = some { s with reference := some time } := by
  rw [ofText?, text, Json.read?_pretty s.plain_toJson, Option.bind_some, ofJson?_toJson]

/-! ## tags -/

/-- entries outlast a check of the tags only where the tags are the same -/
theorem get?_validateTags {s : Store} {rules tool id : String} {o : Outcome} :
    (s.validateTags rules tool).1.get? id = some o ↔
      s.get? id = some o ∧ s.ruleSetId = rules ∧ s.toolVersionId = tool := by
  have hne (h : s.get? id = some o) : s.isEmpty = false := by
    unfold isEmpty SortedMap.isEmpty
    cases hes : s.entries.entries with
    | nil => simp [get?, SortedMap.get?, hes, SortedMap.find] at h
    | cons e es => rfl
  unfold validateTags
  by_cases ho : s.isOutdated rules tool = true
  · rw [if_pos ho]
    constructor
    · intro h
      exact absurd h (by simp [get?])
    · rintro ⟨h, hr, ht⟩
      simp [isOutdated, hr, ht] at ho
  · rw [if_neg ho]
    refine ⟨fun h => ?_, fun h => h.1⟩
    have h' : s.get? id = some o := h
    refine ⟨h', ?_⟩
    simp only [isOutdated, hne h', Bool.not_false, Bool.true_and, Bool.or_eq_true, bne_iff_ne, not_or,
      Decidable.not_not] at ho
    exact ho

end Store

end IncrementalLint
