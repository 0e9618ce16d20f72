import LogPrune.Journal
import LogPrune.Proofs.Json.RoundTrip
import LogPrune.Proofs.Text.Lines

/-!
# LogPrune.Proofs.Journal

A journal that was written is read back as it was, whatever the contents and
paths in it are (`parse_write`).
-/

namespace LogPrune

/-! ## Entries -/

@[simp] theorem Json.text?_ofString (s : String) : (Json.ofString s).text? = some s := by
  simp [ofString, text?, string?]

@[simp] theorem Json.isTextual_ofString (s : String) : (Json.ofString s).isTextual := rfl

theorem JournalEntry.isTextual_toJson (e : JournalEntry) : e.toJson.isTextual := rfl

/-- An entry is read back. -/
theorem JournalEntry.ofJson?_toJson (e : JournalEntry) : ofJson? e.toJson = some e := by
  simp [ofJson?, toJson, Json.values?, Json.onlyField?, Json.string?]

namespace Journal

/-! ## Journals -/

theorem itemsTextual_entries (entries : List JournalEntry) :
    Json.itemsTextual (entries.map JournalEntry.toJson) := by
  induction entries with
  | nil => rfl
  | cons e entries ih => simp [Json.itemsTextual, e.isTextual_toJson, ih]

theorem isTextual_toJson (j : Journal) : j.toJson.isTextual := by
  simp [toJson, Json.isTextual, Json.fieldsTextual, itemsTextual_entries]

theorem ofJson?_toJson {j : Journal} (h : Timestamp.isValid j.timestamp.toList) :
    ofJson? j.toJson = some j := by
  have hentries := mapM_map_eq_some JournalEntry.ofJson?_toJson j.entries
  simp only [ofJson?, toJson, Json.values?, Json.onlyField?]
  simp [Json.ofString, Json.string?, Json.items?, Json.text?, hentries, h]

/-- A journal with a proper time is read back as it was written. -/
theorem parse_write {j : Journal} (h : Timestamp.isValid j.timestamp.toList) :
    parse j.write = .ok j := by
  simp [parse, write, Json.parse?_pretty j.isTextual_toJson, ofJson?_toJson h]

end Journal
end LogPrune
