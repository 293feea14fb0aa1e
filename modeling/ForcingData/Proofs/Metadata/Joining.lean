import ForcingData.Proofs.Drs.FileName
import ForcingData.Proofs.Metadata.Steps

/-! # Inference with and without a file name

Two runs of the inference side by side, where the second one also has values from a file name.
Each of these values is unset in the first run until the step that settles its key; there the first
run infers a value, and the second one keeps its own or gets the inferred one in its place
(`Joins.infer`, `Joins.settleWith`). If these are the same, so is what the runs end with
(`Joins.settles`). -/

namespace ForcingData
namespace Layers

variable {l l' l'' : Layers} {key : String}

/-! ### What is inferred, as a name shows it -/

theorem replaced_knownValue {known : List (String × String)} {variableId value : String}
    (hknown : ∀ e ∈ known, Drs.applyKnownReplacements e.2 = e.2)
    (hv : knownValue key known variableId = .ok value) :
    Drs.applyKnownReplacements value = value := by
  rw [knownValue] at hv
  split at hv
  · rename_i found hlookup
    obtain ⟨_, _, rfl, _⟩ := List.lookup_eq_some_iff.mp hlookup
    obtain rfl := Except.ok.inj hv
    exact hknown (variableId, found) (by simp)
  · cases hv

theorem replaced_frequencyValue {d : Dataset} {value : String}
    (hv : frequencyValue d = .ok value) : Drs.applyKnownReplacements value = value := by
  rw [frequencyValue] at hv
  split at hv
  · rename_i f _
    obtain rfl := Except.ok.inj hv
    cases f <;> decide
  · cases hv

theorem replaced_datasetCategories :
    ∀ e ∈ KnownVariables.datasetCategories, Drs.applyKnownReplacements e.2 = e.2 := by
  decide +kernel

theorem replaced_realms : ∀ e ∈ KnownVariables.realms, Drs.applyKnownReplacements e.2 = e.2 := by
  decide +kernel

/-- A value from the file name gives way to an inferred one that is shown as this value. -/
theorem get?_infer_fileName {value : String} (horigin : l.origins.get? key = some .fileName)
    (hv : l.get? key = some (Drs.applyKnownReplacements value)) :
    (l.infer key value).get? key = some value := by
  have hsame : sameInFileName (Drs.applyKnownReplacements value) value = true := by
    simp [sameInFileName, Drs.applyKnownReplacements_idem]
  unfold infer
  rw [hv]
  simp only [horigin, hsame]
  by_cases he : Drs.applyKnownReplacements value = value
  · simp [he, hv]
  · simp [he, get?, Dict.get?_insert]

theorem get?_infer_congr (hget : l'.get? key = l.get? key)
    (horigin : l'.origins.get? key = l.origins.get? key) (value : String) :
    (l'.infer key value).get? key = (l.infer key value).get? key := by
  unfold infer
  rw [hget, horigin]
  cases hv : l.get? key with
  | none => rw [get?_set, get?_set, if_pos rfl, if_pos rfl]
  | some existing =>
    simp only
    split
    · simp [get?, Dict.get?_insert]
    · exact hget

/-! ### Side by side -/

/-- Beside the run that is at `l`, the run at `l'` has the values `taken` from a file name. The keys
are those whose steps are done. -/
structure Joins (taken : String → Option String) (keys : List String) (l l' : Layers) : Prop where
  discrepancies : l'.discrepancies = l.discrepancies
  settled : ∀ key ∈ keys, l'.get? key = l.get? key
  same : ∀ key ∉ keys, taken key = none →
    l'.get? key = l.get? key ∧ l'.origins.get? key = l.origins.get? key
  pending : ∀ key ∉ keys, ∀ value, taken key = some value →
    l.Unset key ∧ l'.get? key = some value ∧ l'.origins.get? key = some .fileName

namespace Joins
variable {taken : String → Option String} {keys : List String} {l₁ l₁' : Layers}

/-- Both runs take the step of a key. -/
theorem step (h : Joins taken keys l l') (hl : OnlyAt key l l₁) (hl' : OnlyAt key l' l₁')
    (hv : l₁'.get? key = l₁.get? key) : Joins taken (key :: keys) l₁ l₁' where
  discrepancies := by rw [hl'.discrepancies_eq, hl.discrepancies_eq, h.discrepancies]
  settled k hmem := by
    by_cases hk : k = key
    · rw [hk, hv]
    · rw [hl'.get?_eq k hk, hl.get?_eq k hk]
      exact h.settled k (List.mem_of_ne_of_mem hk hmem)
  same k hmem := by
    obtain ⟨hk, hmem⟩ := not_or.mp (mt List.mem_cons.mpr hmem)
    rw [hl'.get?_eq k hk, hl.get?_eq k hk, hl'.origins_eq k hk, hl.origins_eq k hk]
    exact h.same k hmem
  pending k hmem := by
    obtain ⟨hk, hmem⟩ := not_or.mp (mt List.mem_cons.mpr hmem)
    rw [Unset, hl.get?_eq k hk, hl.origins_eq k hk, hl'.get?_eq k hk, hl'.origins_eq k hk]
    exact h.pending k hmem

/-- What both runs infer ends up the same: what the file name shows of it gives way. -/
theorem infer {value : String} (h : Joins taken keys l l') (hkey : key ∉ keys)
    (hread : ∀ w, taken key = some w →
      ((l.infer key value).get? key).map Drs.applyKnownReplacements = some w) :
    Joins taken (key :: keys) (l.infer key value) (l'.infer key value) := by
  refine h.step (onlyAt_infer ..) (onlyAt_infer ..) ?_
  cases htaken : taken key with
  | none =>
    obtain ⟨hget, horigin⟩ := h.same key hkey htaken
    exact get?_infer_congr hget horigin value
  | some w =>
    obtain ⟨hunset, hget, horigin⟩ := h.pending key hkey w htaken
    have hw := hread w htaken
    rw [get?_infer hunset.1] at hw ⊢
    exact get?_infer_fileName horigin (hget.trans hw.symm)

/-- A value of the file name that stays has to be the one that the first run infers. -/
theorem settleWith {value : Except InferenceError String} (h : Joins taken keys l l')
    (hkey : key ∉ keys) (hstep : Layers.settleWith key value l = .ok l₁)
    (hread : ∀ w v, taken key = some w → value = .ok v → l₁.get? key = some v → w = v) :
    ∃ l₁', Layers.settleWith key value l' = .ok l₁' ∧ Joins taken (key :: keys) l₁ l₁' := by
  cases htaken : taken key with
  | none =>
    obtain ⟨hget, horigin⟩ := h.same key hkey htaken
    rcases settleWith_eq_ok.mp hstep with ⟨hsome, rfl⟩ | ⟨hnone, v, hv, rfl⟩
    · exact ⟨l', settleWith_eq_ok.mpr (.inl ⟨hget ▸ hsome, rfl⟩), h.step .refl .refl hget⟩
    · exact ⟨l'.infer key v, settleWith_eq_ok.mpr (.inr ⟨hget.trans hnone, v, hv, rfl⟩),
        h.step (onlyAt_infer ..) (onlyAt_infer ..) (get?_infer_congr hget horigin v)⟩
  | some w =>
    obtain ⟨hunset, hget, _⟩ := h.pending key hkey w htaken
    rcases settleWith_eq_ok.mp hstep with ⟨hsome, _⟩ | ⟨hnone, v, hv, rfl⟩
    · exact absurd hunset.1 hsome
    · have hset := get?_infer hnone v
      obtain rfl := hread w v htaken hv hset
      exact ⟨l', settleWith_eq_ok.mpr (.inl ⟨by simp [hget], rfl⟩),
        h.step (onlyAt_infer ..) .refl (hget.trans hset.symm)⟩

/-- Where all that can be inferred shows as it is, so does the value of the file name. -/
theorem settleShown {value : Except InferenceError String} (h : Joins taken keys l l')
    (hkey : key ∉ keys) (hstep : Layers.settleWith key value l = .ok l₁)
    (hvalue : ∀ v, value = .ok v → Drs.applyKnownReplacements v = v)
    (hread : ∀ w, taken key = some w →
      (l₁.get? key).map Drs.applyKnownReplacements = some w) :
    ∃ l₁', Layers.settleWith key value l' = .ok l₁' ∧ Joins taken (key :: keys) l₁ l₁' := by
  refine h.settleWith hkey hstep fun w v htaken hv hset => ?_
  have hw := hread w htaken
  rw [hset] at hw
  rw [← Option.some.inj hw]
  exact hvalue v hv

/-- Where the value of the file name stays, it has to be the right one. -/
theorem settleRaw {value : Except InferenceError String} (h : Joins taken keys l l')
    (hkey : key ∉ keys) (hstep : Layers.settleWith key value l = .ok l₁)
    (hraw : ∀ w, taken key = some w → l₁.get? key = some w) :
    ∃ l₁', Layers.settleWith key value l' = .ok l₁' ∧ Joins taken (key :: keys) l₁ l₁' :=
  h.settleWith hkey hstep fun w _ htaken _ hset =>
    Option.some.inj ((hraw w htaken).symm.trans hset)

theorem congr {ks : List String} (h : Joins taken keys l l') (hks : ∀ k, k ∈ ks ↔ k ∈ keys) :
    Joins taken ks l l' where
  discrepancies := h.discrepancies
  settled k hk := h.settled k ((hks k).mp hk)
  same k hk := h.same k (mt (hks k).mpr hk)
  pending k hk := h.pending k (mt (hks k).mpr hk)

theorem ne_none (h : Joins taken keys l l') (hv : l.get? key ≠ none) : l'.get? key ≠ none := by
  by_cases hkey : key ∈ keys
  · rwa [h.settled key hkey]
  · cases htaken : taken key with
    | none => rwa [(h.same key hkey htaken).1]
    | some w => simp [(h.pending key hkey w htaken).2.1]

/-! ### The steps side by side -/

theorem settleVariable {d : Dataset} {indicators : List String} (h : Joins taken keys l l')
    (hkey : "variable_id" ∉ keys) (hstep : l.settleVariable d indicators = .ok l₁)
    (hread : ∀ w, taken "variable_id" = some w →
      (l₁.get? "variable_id").map Drs.applyKnownReplacements = some w) :
    ∃ l₁', l'.settleVariable d indicators = .ok l₁' ∧
      Joins taken ("variable_id" :: keys) l₁ l₁' := by
  cases htaken : taken "variable_id" with
  | none =>
    obtain ⟨hget, horigin⟩ := h.same _ hkey htaken
    have hopen : l'.isOpenVariable = l.isOpenVariable := by rw [isOpenVariable, horigin]; rfl
    rcases settleVariable_eq_ok.mp hstep with ⟨ho, name, hname, rfl⟩ | ⟨hskip, rfl⟩
    · exact ⟨_, settleVariable_eq_ok.mpr (.inl ⟨hopen.trans ho, name, hname, rfl⟩),
        h.infer hkey hread⟩
    · rw [← hopen, ← hget] at hskip
      exact ⟨l', settleVariable_eq_ok.mpr (.inr ⟨hskip, rfl⟩), h.step .refl .refl hget⟩
  | some w =>
    -- nothing but the name of the file has a variable, so both runs look for it in the data
    obtain ⟨hunset, hget, horigin⟩ := h.pending _ hkey w htaken
    have ho : l.isOpenVariable = true := by rw [isOpenVariable, hunset.2]; rfl
    have ho' : l'.isOpenVariable = true := by rw [isOpenVariable, horigin]; rfl
    rcases settleVariable_eq_ok.mp hstep with ⟨_, name, hname, rfl⟩ | ⟨hskip, _⟩
    · exact ⟨_, settleVariable_eq_ok.mpr (.inl ⟨ho', name, hname, rfl⟩), h.infer hkey hread⟩
    · rcases hskip with hclosed | ⟨hsome, _⟩
      · rw [ho] at hclosed
        cases hclosed
      · exact absurd hunset.1 hsome

theorem settleKnown {known : List (String × String)} (h : Joins taken keys l l')
    (hvariable : "variable_id" ∈ keys) (hkey : key ∉ keys)
    (hknown : ∀ e ∈ known, Drs.applyKnownReplacements e.2 = e.2)
    (hstep : Layers.settleKnown key known l = .ok l₁)
    (hread : ∀ w, taken key = some w →
      (l₁.get? key).map Drs.applyKnownReplacements = some w) :
    ∃ l₁', Layers.settleKnown key known l' = .ok l₁' ∧ Joins taken (key :: keys) l₁ l₁' := by
  rw [settleKnown_eq] at hstep ⊢
  rw [h.settled _ hvariable]
  exact h.settleShown hkey hstep (fun _ => replaced_knownValue hknown) hread

theorem settleCategories (h : Joins taken keys l l') (hvariable : "variable_id" ∈ keys)
    (hcategory : "dataset_category" ∉ keys) (hrealm : "realm" ∉ keys)
    (hstep : l.settleCategories = .ok l₁)
    (hread : ∀ key ∈ ["dataset_category", "realm"], ∀ w, taken key = some w →
      (l₁.get? key).map Drs.applyKnownReplacements = some w) :
    ∃ l₁', l'.settleCategories = .ok l₁' ∧
      Joins taken ("realm" :: "dataset_category" :: keys) l₁ l₁' := by
  obtain ⟨hexplicit, l₂, h₂, h₁⟩ := settleCategories_eq_ok.mp hstep
  have hkeep : l₁.get? "dataset_category" = l₂.get? "dataset_category" :=
    keeps_settleKnown h₁ _ (by decide)
  obtain ⟨l₂', h₂', hj⟩ := h.settleKnown hvariable hcategory replaced_datasetCategories h₂
    (hkeep ▸ hread "dataset_category" (by decide))
  obtain ⟨l₁', h₁', hj⟩ := hj.settleKnown (List.mem_cons_of_mem _ hvariable)
    (by simp [hrealm]) replaced_realms h₁ (hread "realm" (by decide))
  refine ⟨l₁', settleCategories_eq_ok.mpr ⟨fun hmultiple => ?_, l₂', h₂', h₁'⟩, hj⟩
  rw [h.settled _ hvariable] at hmultiple
  exact ⟨h.ne_none (hexplicit hmultiple).1, h.ne_none (hexplicit hmultiple).2⟩

theorem settleFrequency {d : Dataset} (h : Joins taken keys l l') (hkey : "frequency" ∉ keys)
    (hstep : l.settleFrequency d = .ok l₁)
    (hread : ∀ w, taken "frequency" = some w →
      (l₁.get? "frequency").map Drs.applyKnownReplacements = some w) :
    ∃ l₁', l'.settleFrequency d = .ok l₁' ∧ Joins taken ("frequency" :: keys) l₁ l₁' := by
  rw [settleFrequency_eq] at hstep ⊢
  exact h.settleShown hkey hstep (fun _ => replaced_frequencyValue) hread

theorem settleTimeRange {d : Dataset} (h : Joins taken keys l l') (hfrequency : "frequency" ∈ keys)
    (hkey : "time_range" ∉ keys) (hstep : l.settleTimeRange d = .done l₁)
    (hread : ∀ w, taken "time_range" = some w →
      (l₁.get? "time_range").map Drs.applyKnownReplacements = some w) :
    ∃ l₁', l'.settleTimeRange d = .done l₁' ∧ Joins taken ("time_range" :: keys) l₁ l₁' := by
  obtain ⟨range?, hrange, rfl⟩ := settleTimeRange_eq_done.mp hstep
  rw [← h.settled _ hfrequency] at hrange
  refine ⟨_, settleTimeRange_eq_done.mpr ⟨range?, hrange, rfl⟩, ?_⟩
  cases range? with
  | some range => exact h.infer hkey hread
  | none =>
    refine h.step .refl .refl ?_
    cases htaken : taken "time_range" with
    | none => exact (h.same _ hkey htaken).1
    | some w =>
      -- no range goes with the data, so there is none to show
      have hw := hread w htaken
      rw [Option.elim_none, (h.pending _ hkey w htaken).1.1] at hw
      cases hw

theorem settleDetermined {cv : Vocabularies} {sourceId : String} :
    ∀ {cs : List Category} {keys : List String} {l l' : Layers}, Joins taken keys l l' →
      (cs.map Category.name).Nodup → (∀ c ∈ cs, c.name ∉ keys) →
      settleDetermined cv sourceId cs l = .ok l₁ →
      (∀ c ∈ cs, ∀ w, taken c.name = some w → l₁.get? c.name = some w) →
        ∃ l₁', settleDetermined cv sourceId cs l' = .ok l₁' ∧
          Joins taken (cs.map Category.name ++ keys) l₁ l₁'
  | [], keys, l, l', h, _, _, hstep, _ => by
    cases hstep
    exact ⟨l', rfl, h⟩
  | c :: cs, keys, l, l', h, hnodup, hkeys, hstep, hraw => by
    rw [settleDetermined_cons] at hstep
    obtain ⟨l₂, h₂, hrest⟩ := Except.bind_eq_ok.mp hstep
    obtain ⟨hc, hnodup⟩ := List.nodup_cons.mp hnodup
    -- later categories leave the value of this one alone
    have hkeep : l₁.get? c.name = l₂.get? c.name := keeps_settleDetermined hrest _ hc
    obtain ⟨l₂', h₂', hj⟩ := h.settleRaw (hkeys c (List.mem_cons_self ..)) h₂
      (hkeep ▸ hraw c (List.mem_cons_self ..))
    have hfresh : ∀ c' ∈ cs, c'.name ∉ c.name :: keys := fun c' hc' hmem => by
      rcases List.mem_cons.mp hmem with he | hmem
      · exact hc (he ▸ List.mem_map_of_mem hc')
      · exact hkeys c' (List.mem_cons_of_mem _ hc') hmem
    obtain ⟨l₁', h₁', hj⟩ := settleDetermined hj hnodup hfresh hrest
      fun c' hc' => hraw c' (List.mem_cons_of_mem _ hc')
    refine ⟨l₁', ?_, hj.congr fun k => ?_⟩
    · rw [settleDetermined_cons]
      exact Except.bind_eq_ok.mpr ⟨l₂', h₂', h₁'⟩
    · simp only [List.map_cons, List.cons_append, List.mem_cons, List.mem_append]
      tauto

theorem settleLicense {cv : Vocabularies} (h : Joins taken keys l l')
    (hlicense : "license_id" ∈ keys) (hkey : "license" ∉ keys)
    (hstep : l.settleLicense cv = .ok l₁)
    (hraw : ∀ w, taken "license" = some w → l₁.get? "license" = some w) :
    ∃ l₁', l'.settleLicense cv = .ok l₁' ∧ Joins taken ("license" :: keys) l₁ l₁' := by
  rw [settleLicense_eq] at hstep ⊢
  rw [h.settled _ hlicense]
  exact h.settleRaw hkey hstep hraw

end Joins

/-! ### All steps -/

/-- The keys that are inferred only where there is no value at all. -/
def keptKeys : List String :=
  "activity_id" :: determinedCategories.map Category.name ++ ["license"]

/-- The keys that are settled before the values are made that are new each time. -/
def settledKeys : List String :=
  ["variable_id", "dataset_category", "realm", "frequency", "time_range"] ++ keptKeys

section
variable {m : Minimum} {d : Dataset} {cv : Vocabularies} {indicators : List String}

theorem Settles.keeps (h : Settles m d cv indicators l l') : Keeps settledKeys l l' := by
  obtain ⟨l₁, l₂, l₃, l₄, l₅, l₆, h₁, h₂, h₃, h₄, h₅, h₆, h₇⟩ := h
  exact (keeps_settleVariable h₁).trans <| (keeps_settleCategories h₂).trans <|
    (keeps_settleFrequency h₃).trans <| (keeps_settleTimeRange h₄).trans <|
      (keeps_settleActivity h₅).trans <| (keeps_settleDetermined h₆).trans <| keeps_settleLicense h₇

/-- A second run with values from a file name gets through, if these are shown for what the first
run ends with, and are the very same where they are kept. -/
theorem Joins.settles {taken : String → Option String} {l₀ l₀' : Layers}
    (h : Joins taken [] l₀ l₀') (hs : Settles m d cv indicators l₀ l)
    (hread : ∀ key ∈ settledKeys, ∀ w, taken key = some w →
      (l.get? key).map Drs.applyKnownReplacements = some w)
    (hraw : ∀ key ∈ keptKeys, ∀ w, taken key = some w → l.get? key = some w) :
    ∃ l', Settles m d cv indicators l₀' l' ∧ Joins taken settledKeys l l' := by
  obtain ⟨l₁, l₂, l₃, l₄, l₅, l₆, h₁, h₂, h₃, h₄, h₅, h₆, h₇⟩ := hs
  -- what a step settles is there at the end
  have k₆ := keeps_settleLicense h₇
  have k₅ := (keeps_settleDetermined h₆).trans k₆
  have k₄ := (keeps_settleActivity h₅).trans k₅
  have k₃ := (keeps_settleTimeRange h₄).trans k₄
  have k₂ := (keeps_settleFrequency h₃).trans k₃
  have k₁ := (keeps_settleCategories h₂).trans k₂
  obtain ⟨l₁', h₁', j₁⟩ := h.settleVariable List.not_mem_nil h₁ <| by
    rw [← k₁ "variable_id" (by decide)]
    exact hread _ (by decide)
  obtain ⟨l₂', h₂', j₂⟩ := j₁.settleCategories (by decide) (by decide) (by decide) h₂ <| by
    intro key hkey
    have hlater : ∀ key ∈ ["dataset_category", "realm"], key ∈ settledKeys ∧
      key ∉ ["frequency"] ++ (["time_range"] ++ (["activity_id"] ++
        (determinedCategories.map Category.name ++ ["license"]))) := by decide
    rw [← k₂ key (hlater key hkey).2]
    exact hread key (hlater key hkey).1
  obtain ⟨l₃', h₃', j₃⟩ := j₂.settleFrequency (by decide) h₃ <| by
    rw [← k₃ "frequency" (by decide)]
    exact hread _ (by decide)
  obtain ⟨l₄', h₄', j₄⟩ := j₃.settleTimeRange (by decide) (by decide) h₄ <| by
    rw [← k₄ "time_range" (by decide)]
    exact hread _ (by decide)
  obtain ⟨l₅', h₅', j₅⟩ := j₄.settleRaw (by decide) h₅ <| by
    rw [← k₅ "activity_id" (by decide)]
    exact hraw _ (by decide)
  obtain ⟨l₆', h₆', j₆⟩ := j₅.settleDetermined (by decide) (by decide) h₆ fun c hc => by
    have hlater : ∀ c ∈ determinedCategories, c.name ∈ keptKeys ∧ c.name ∉ ["license"] := by decide
    rw [← k₆ c.name (hlater c hc).2]
    exact hraw _ (hlater c hc).1
  obtain ⟨l', h₇', j₇⟩ := j₆.settleLicense (by decide) (by decide) h₇ (hraw _ (by decide))
  exact ⟨l', ⟨l₁', l₂', l₃', l₄', l₅', l₆', h₁', h₂', h₃', h₄', h₅', h₆', h₇'⟩,
    j₇.congr fun _ => List.Perm.mem_iff (by decide)⟩

end
end Layers
end ForcingData