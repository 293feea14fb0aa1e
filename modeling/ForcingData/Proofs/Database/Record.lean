import ForcingData.Database.Basic
import ForcingData.Proofs.Json.Decode
import ForcingData.Proofs.Time.Instant

/-! # Records of entries, there and back

`entryOf?_recordContent`: an entry whose times are valid is read from its record as it was. -/

namespace ForcingData
open Json

/-! ### Parts of entries -/

theorem CvVersion.ofTree?_json (v : CvVersion) : CvVersion.ofTree? v.json.tree = some v := rfl

theorem CvVersion.isPlain_json (v : CvVersion) : v.json.isPlain = true := rfl

theorem Finding.ofTree?_json (f : Finding) : Finding.ofTree? f.json.tree = some f := by
  obtain ⟨rule, target, status, message, fault⟩ := f
  cases status <;> cases fault with
  | none => rfl
  | some k => cases k <;> rfl

theorem Finding.isPlain_json (f : Finding) : f.json.isPlain = true := by
  obtain ⟨rule, target, status, message, fault⟩ := f
  cases fault <;> rfl

theorem Findings.ofTree?_json (fs : Findings) : Findings.ofTree? fs.json.tree = some fs :=
  Tree.list?_map fun f _ => f.ofTree?_json

theorem Findings.isPlain_json (fs : Findings) : fs.json.isPlain = true :=
  Value.isPlain_array fun f _ => f.isPlain_json

theorem EntryStatus.ofTree?_name (s : EntryStatus) :
    EntryStatus.ofTree? (.text (some s.name)) = some s := by
  cases s <;> rfl

theorem Metadata.ofTree?_json (m : Metadata) : Metadata.ofTree? m.json.tree = some m := by
  have hattributes : Tree.dict? Tree.string? (Value.ofDict .text m.attributes).tree =
      some m.attributes := Tree.dict?_ofDict (fun _ => rfl) _
  show (do
    let attributes ← Tree.dict? Tree.string? (Value.ofDict .text m.attributes).tree
    let cvVersion ← CvVersion.ofTree? m.cvVersion.json.tree
    some (⟨attributes, cvVersion⟩ : Metadata)) = some m
  rw [hattributes, CvVersion.ofTree?_json]
  rfl

theorem Metadata.isPlain_json (m : Metadata) : m.json.isPlain = true := by
  refine Value.isPlain_object fun member hmember => ?_
  rcases List.mem_cons.mp hmember with rfl | hmember
  · exact Value.isPlain_ofDict (fun _ => rfl) _
  · obtain rfl := List.mem_singleton.mp hmember
    rfl

theorem instantUtc?_utcText {t : Instant} (h : t.IsValid) :
    instantUtc? (.text (some t.utcText)) = some t := by
  simp only [instantUtc?, Tree.string?, Option.bind_some, Instant.parseUtc?_utcText h]

theorem option?_cvVersion (v : Option CvVersion) :
    Tree.option? CvVersion.ofTree? (Value.ofOption CvVersion.json v).tree = some v :=
  Tree.option?_ofOption CvVersion.ofTree?_json (fun _ h => by cases h) v

/-- What the record of an item says. -/
theorem HistoryItem.exists_record (h : HistoryItem) : ∃ r,
    Tree.record? ["revision", "timestamp", "validation_status", "sha256", "cv_version",
      "validation_results"] h.json.tree = some r ∧
      r.field? "revision" = some (Value.nat h.revision.toNat).tree ∧
      r.field? "timestamp" = some (.text (some h.timestamp.utcText)) ∧
      r.field? "validation_status" = some (.text (some h.status.name)) ∧
      r.field? "sha256" = some (Value.ofOption .text h.sha256).tree ∧
      r.field? "cv_version" = some (Value.ofOption CvVersion.json h.cvVersion).tree ∧
      r.field? "validation_results" = some h.findings.json.tree :=
  ⟨_, rfl, rfl, rfl, rfl, rfl, rfl, rfl⟩

theorem HistoryItem.ofTree?_json {h : HistoryItem} (ht : h.timestamp.IsValid) :
    HistoryItem.ofTree? h.json.tree = some h := by
  obtain ⟨r, hr, hrevision, htimestamp, hstatus, hsha256, hversion, hfindings⟩ := h.exists_record
  rw [ofTree?, hr, Option.bind_eq_bind, Option.bind_some,
    Record.required_eq_some hrevision (Tree.uint32?_nat _),
    Record.required_eq_some htimestamp (instantUtc?_utcText ht),
    Record.required_eq_some hstatus (EntryStatus.ofTree?_name _),
    Record.optional_eq_some hsha256 (Tree.option?_text _),
    Record.withDefault_eq_some hversion (option?_cvVersion _),
    Record.withDefault_eq_some hfindings (Findings.ofTree?_json _)]
  rfl

theorem HistoryItem.isPlain_json (h : HistoryItem) : h.json.isPlain = true := by
  have hrevision := Value.isPlain_nat (uint32_le h.revision)
  have hsha256 : (Value.ofOption .text h.sha256).isPlain = true :=
    Value.isPlain_ofOption (fun _ => rfl) _
  have hversion := Value.isPlain_ofOption CvVersion.isPlain_json h.cvVersion
  have hfindings := Findings.isPlain_json h.findings
  refine Value.isPlain_object fun member hmember => ?_
  simp only [List.mem_cons, List.not_mem_nil, or_false] at hmember
  rcases hmember with rfl | rfl | rfl | rfl | rfl | rfl <;> first | assumption | rfl

/-! ### Entries -/

namespace Entry

/-- All times in the entry are valid. -/
structure IsTimed (e : Entry) : Prop where
  timestamp : e.timestamp.IsValid
  history : ∀ h ∈ e.history, h.timestamp.IsValid

theorem IsTimed.revise {e previous : Entry} (h : previous.IsTimed) (he : e.timestamp.IsValid) :
    (e.revise previous).IsTimed := by
  refine ⟨he, fun item hitem => ?_⟩
  rcases List.mem_append.mp hitem with hitem | hitem
  · exact h.history item hitem
  · rw [List.mem_singleton.mp hitem]
    exact h.timestamp

/-- What the record of an entry says. -/
theorem exists_record (e : Entry) : ∃ r,
    Tree.record? ["filepath", "sha256", "master_id", "timestamp", "validation_status",
      "metadata", "attributes", "cv_version", "validation_results", "history", "revision", "doi",
      "comment", "publication_status"] e.json.tree = some r ∧
      r.field? "filepath" = some (.text (some e.path.text)) ∧
      r.field? "sha256" = some (Value.ofOption .text e.sha256).tree ∧
      r.field? "master_id" = some (Value.ofOption .text e.masterId).tree ∧
      r.field? "timestamp" = some (.text (some e.timestamp.utcText)) ∧
      r.field? "validation_status" = some (.text (some e.status.name)) ∧
      r.field? "metadata" = some (Value.ofOption Metadata.json e.metadata).tree ∧
      r.field? "attributes" = some (Value.ofDict .text e.attributes).tree ∧
      r.field? "cv_version" = some (Value.ofOption CvVersion.json e.cvVersion).tree ∧
      r.field? "validation_results" = some e.findings.json.tree ∧
      r.field? "history" = some (Value.array (e.history.map HistoryItem.json)).tree ∧
      r.field? "revision" = some (Value.nat e.revision.toNat).tree ∧
      r.field? "doi" = some (Value.ofOption .text e.doi).tree ∧
      r.field? "comment" = some (Value.ofOption .text e.comment).tree ∧
      r.field? "publication_status" = some (Value.ofOption .text e.publicationStatus).tree :=
  ⟨_, rfl, rfl, rfl, rfl, rfl, rfl, rfl, rfl, rfl, rfl, rfl, rfl, rfl, rfl, rfl⟩

theorem ofTree?_json {e : Entry} (he : e.IsTimed) : Entry.ofTree? e.json.tree = some e := by
  have hmetadata : Tree.option? Metadata.ofTree? (Value.ofOption Metadata.json e.metadata).tree =
      some e.metadata := Tree.option?_ofOption Metadata.ofTree?_json (fun _ h => by cases h) _
  have hattributes : Tree.dict? Tree.string? (Value.ofDict .text e.attributes).tree =
      some e.attributes := Tree.dict?_ofDict (fun _ => rfl) _
  have hhistory : Tree.list? HistoryItem.ofTree?
      (Value.array (e.history.map HistoryItem.json)).tree = some e.history :=
    Tree.list?_map fun h hh => HistoryItem.ofTree?_json (he.history h hh)
  obtain ⟨r, hr, h₁, h₂, h₃, h₄, h₅, h₆, h₇, h₈, h₉, h₁₀, h₁₁, h₁₂, h₁₃, h₁₄⟩ := e.exists_record
  rw [ofTree?, hr, Option.bind_eq_bind, Option.bind_some,
    Record.required_eq_some (a := e.path.text) h₁ rfl,
    Record.optional_eq_some h₂ (Tree.option?_text _),
    Record.optional_eq_some h₃ (Tree.option?_text _),
    Record.required_eq_some h₄ (instantUtc?_utcText he.timestamp),
    Record.required_eq_some h₅ (EntryStatus.ofTree?_name _),
    Record.optional_eq_some h₆ hmetadata,
    Record.withDefault_eq_some h₇ hattributes,
    Record.optional_eq_some h₈ (option?_cvVersion _),
    Record.withDefault_eq_some h₉ (Findings.ofTree?_json _),
    Record.withDefault_eq_some h₁₀ hhistory,
    Record.withDefault_eq_some h₁₁ (Tree.uint32?_nat _),
    Record.optional_eq_some h₁₂ (Tree.option?_text _),
    Record.optional_eq_some h₁₃ (Tree.option?_text _),
    Record.optional_eq_some h₁₄ (Tree.option?_text _)]
  rfl

theorem isPlain_json (e : Entry) : e.json.isPlain = true := by
  have htext (x : Option String) : (Value.ofOption .text x).isPlain = true :=
    Value.isPlain_ofOption (fun _ => rfl) x
  have hmetadata := Value.isPlain_ofOption Metadata.isPlain_json e.metadata
  have hattributes : (Value.ofDict .text e.attributes).isPlain = true :=
    Value.isPlain_ofDict (fun _ => rfl) _
  have hversion := Value.isPlain_ofOption CvVersion.isPlain_json e.cvVersion
  have hfindings := Findings.isPlain_json e.findings
  have hhistory : (Value.array (e.history.map HistoryItem.json)).isPlain = true :=
    Value.isPlain_array fun h _ => h.isPlain_json
  have hrevision := Value.isPlain_nat (uint32_le e.revision)
  refine Value.isPlain_object fun member hmember => ?_
  simp only [List.mem_cons, List.not_mem_nil, or_false] at hmember
  rcases hmember with rfl | rfl | rfl | rfl | rfl | rfl | rfl | rfl | rfl | rfl | rfl | rfl | rfl |
    rfl <;> first | assumption | exact htext _ | rfl

end Entry

namespace Database

/-- The entry that a record holds. -/
def entryOf? (content : ByteArray) : Option Entry :=
  (Tree.ofBytes? content).bind Entry.ofTree?

theorem entryOf?_recordContent {e : Entry} (he : e.IsTimed) :
    entryOf? (recordContent e) = some e := by
  rw [entryOf?, recordContent, Tree.ofBytes?_pretty e.isPlain_json]
  exact Entry.ofTree?_json he

end Database
end ForcingData
