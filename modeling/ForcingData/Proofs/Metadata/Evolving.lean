import ForcingData.Proofs.Metadata.Reached

/-! # Changes in a row

Changes that are made one after the other are one map of changes, in which the later ones count
(`applyChanges_applyChanges`), and metadata that a step has reached takes every further step as the
metadata before it takes both at once (`evolve?_of_evolve?`). So a run of steps is as good as one:
`Evolves.composes`. -/

namespace ForcingData.Metadata

variable {m m₁ m₂ : Metadata} {x y : Attributes} {cv cv₁ cv₂ : Vocabularies}

/-! ### Changes -/

theorem get?_applyChanges (attributes changes : Attributes) (key : String) :
    (applyChanges attributes changes).get? key =
      (changes.get? key).elim (attributes.get? key) fun value =>
        if value = "" then none else some value := by
  refine Dict.get?_foldl_toList (fun _ value => if value = "" then none else some value)
    (fun d e k => ?_) changes attributes key
  simp only
  split
  · rename_i hv
    rw [Dict.get?_erase]
  · rw [Dict.get?_insert]

theorem applyChanges_applyChanges (attributes x y : Attributes) :
    applyChanges (applyChanges attributes x) y = applyChanges attributes (x.insertAll y) := by
  refine Dict.ext_get? fun key => ?_
  simp only [get?_applyChanges, Dict.get?_insertAll]
  cases y.get? key <;> rfl

theorem knownAttributes_applyChanges (attributes changes : Attributes) :
    knownAttributes (applyChanges (knownAttributes attributes) changes) =
      knownAttributes (applyChanges attributes changes) := by
  refine Dict.ext_get? fun key => ?_
  simp only [get?_knownAttributes, get?_applyChanges]
  cases changes.get? key with
  | some value => rfl
  | none => simp only [Option.elim_none, Option.filter_filter, Bool.and_self]

theorem ofAttributes?_knownAttributes (attributes : Attributes) (cv : Vocabularies) :
    ofAttributes? (knownAttributes attributes) cv = ofAttributes? attributes cv := by
  unfold ofAttributes?
  rw [missing_knownAttributes, knownAttributes_knownAttributes]

theorem ofAttributes?_applyChanges (attributes changes : Attributes) (cv : Vocabularies) :
    ofAttributes? (applyChanges (knownAttributes attributes) changes) cv =
      ofAttributes? (applyChanges attributes changes) cv := by
  rw [← ofAttributes?_knownAttributes, knownAttributes_applyChanges, ofAttributes?_knownAttributes]

/-! ### Steps -/

/-- After a step every further step gives what it gives with the first one's changes under its own;
both fail for the same reason, too. -/
theorem evolve?_of_evolve? (h : m.evolve? x cv₁ = .ok m₁) (y : Attributes) (cv₂ : Vocabularies) :
    m₁.evolve? y cv₂ = m.evolve? (x.insertAll y) cv₂ := by
  obtain ⟨hknown, hmade⟩ := evolve?_eq_ok.mp h
  obtain ⟨-, -, rfl⟩ := ofAttributes?_eq_ok.mp hmade
  have hunknown : (x.insertAll y).keys.find? (!isKnown ·) = y.keys.find? (!isKnown ·) := by
    refine Dict.find?_keys_congr fun key hkey => ?_
    have hx : x.get? key = none := by
      by_contra hne
      have hmem := x.mem_keys.mpr (Option.isSome_iff_ne_none.mpr hne)
      simp [hknown key hmem] at hkey
    rw [Dict.mem_keys, Dict.mem_keys, Dict.get?_insertAll, hx, Option.or_none]
  unfold evolve?
  rw [hunknown]
  cases y.keys.find? (!isKnown ·) with
  | some key => rfl
  | none =>
    show ofAttributes? (applyChanges (knownAttributes (applyChanges m.attributes x)) y) cv₂ = _
    rw [ofAttributes?_applyChanges, applyChanges_applyChanges]

/-- A run of steps, each under vocabularies of its own: all changes as one map, in which later ones
count, the last vocabularies, and the outcome. -/
inductive Evolves (m : Metadata) : Attributes → Vocabularies → Metadata → Prop
  | once {x : Attributes} {cv : Vocabularies} {m₁ : Metadata} (h : m.evolve? x cv = .ok m₁) :
      Evolves m x cv m₁
  | again {x y : Attributes} {cv₁ cv₂ : Vocabularies} {m₁ m₂ : Metadata}
      (h : Evolves m x cv₁ m₁) (hstep : m₁.evolve? y cv₂ = .ok m₂) :
      Evolves m (x.insertAll y) cv₂ m₂

theorem Evolves.evolve?_eq_ok (h : Evolves m x cv m₁) : m.evolve? x cv = .ok m₁ := by
  induction h with
  | once h => exact h
  | again _ hstep ih => rw [← evolve?_of_evolve? ih, hstep]

/-- A run is as good as one step: it leads where all its changes at once lead under the last
vocabularies, making them again changes nothing, and whatever follows, it is as if it came with
them. -/
theorem Evolves.composes (h : Evolves m x cv₁ m₁) :
    m.evolve? x cv₁ = .ok m₁ ∧ m₁.evolve? x cv₁ = .ok m₁ ∧
      ∀ y cv₂, m₁.evolve? y cv₂ = m.evolve? (x.insertAll y) cv₂ := by
  have honce := h.evolve?_eq_ok
  refine ⟨honce, ?_, evolve?_of_evolve? honce⟩
  rw [evolve?_of_evolve? honce, Dict.insertAll_self, honce]

/-- Gives the license of the first vocabularies back, and a comment. -/
def returningChanges : Attributes := Dict.ofList [("comment", "again"), ("license", "Free.")]

theorem composes_sample :
    ∃ m₁ m₂, Evolves sample sampleChanges laterVocabularies m₁ ∧ m₁.get? "comment" = none ∧
      m₁.evolve? returningChanges FileValidation.sampleVocabularies = .ok m₂ ∧
      m₂.get? "comment" = some "again" ∧
      sample.evolve? (sampleChanges.insertAll returningChanges)
        FileValidation.sampleVocabularies = .ok m₂ := by
  let a₁ : Attributes := knownAttributes (applyChanges sample.attributes sampleChanges)
  let a₂ : Attributes := knownAttributes (applyChanges a₁ returningChanges)
  have h₁ : sample.evolve? sampleChanges laterVocabularies = .ok ⟨a₁, ⟨"later", ""⟩⟩ :=
    Metadata.evolve?_eq_ok.mpr ⟨by decide +kernel,
      ofAttributes?_eq_ok.mpr ⟨by decide +kernel, by decide +kernel, rfl⟩⟩
  have h₂ : evolve? ⟨a₁, ⟨"later", ""⟩⟩ returningChanges FileValidation.sampleVocabularies =
      .ok ⟨a₂, ⟨"sample", ""⟩⟩ :=
    Metadata.evolve?_eq_ok.mpr ⟨by decide +kernel,
      ofAttributes?_eq_ok.mpr ⟨by decide +kernel, by decide +kernel, rfl⟩⟩
  refine ⟨_, _, .once h₁, by decide +kernel, h₂, by decide +kernel, ?_⟩
  rw [← (Evolves.once h₁).composes.2.2, h₂]

end ForcingData.Metadata
