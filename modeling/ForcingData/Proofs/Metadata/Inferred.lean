import ForcingData.Metadata.Inference
import ForcingData.Proofs.Metadata.Gates
import ForcingData.Proofs.Validation.Placing

/-! # Inferred metadata against the data

What is inferred from a dataset has to satisfy the rules that compare metadata with the dataset. A
key that no source supplies is unset after the sources (`Layers.unset_ofSources`); every step of the
inference keeps all keys but its own (`Layers.Keeps`), so the one value that is ever set for such a
key is the one that follows from the data. -/

namespace ForcingData

namespace Metadata
variable {attributes : Attributes} {cv : Vocabularies} {m : Metadata}

theorem get?_of_ofAttributes? (h : ofAttributes? attributes cv = .ok m) {key : String}
    (hkey : isKnown key = true) {value : String} (hne : value ≠ "")
    (hv : attributes.get? key = some value) : m.get? key = some value := by
  obtain ⟨_, _, rfl⟩ := ofAttributes?_eq_ok.mp h
  rw [get?, get?_knownAttributes, hv, hkey]
  simp [hne]

theorem get?_of_ofAttributes?_none (h : ofAttributes? attributes cv = .ok m) {key : String}
    (hv : attributes.get? key = none) : m.get? key = none := by
  obtain ⟨_, _, rfl⟩ := ofAttributes?_eq_ok.mp h
  rw [get?, get?_knownAttributes, hv]
  rfl

theorem get?_of_ofAttributes?_required (h : ofAttributes? attributes cv = .ok m) {key : String}
    (hkey : isRequired key = true) : m.get? key = attributes.get? key := by
  obtain ⟨value, hv, hne⟩ := ne_empty_of_missing (ofAttributes?_eq_ok.mp h).1 hkey
  rw [hv]
  exact get?_of_ofAttributes? h (isKnown_of_mem (List.contains_iff_mem.mp hkey)) hne hv

theorem getD_get?_of_ofAttributes? (h : ofAttributes? attributes cv = .ok m) {key : String}
    (hkey : isKnown key = true) : (m.get? key).getD "" = (attributes.get? key).getD "" := by
  obtain ⟨_, _, rfl⟩ := ofAttributes?_eq_ok.mp h
  rw [get?, get?_knownAttributes, hkey]
  cases attributes.get? key with
  | none => rfl
  | some value => by_cases hne : value = "" <;> simp [Option.filter, hne]

end Metadata

namespace Layers

/-- Neither a value nor an origin. -/
def Unset (l : Layers) (key : String) : Prop := l.get? key = none ∧ l.origins.get? key = none

/-- The attributes that the three kinds of sources have, the first of them first. -/
def sources (m : Minimum) (d : Dataset) (path? : Option Path) (drs : Drs) : List Attributes :=
  [m.attributes, d.textAttributes] ++ (path?.bind fun path =>
    (drs.parsePath path).toOption.or (drs.parseFileName path).toOption).toList

/-- Some source has a value; an empty one is none. -/
def Supplied (m : Minimum) (d : Dataset) (path? : Option Path) (drs : Drs) (key : String) : Prop :=
  ∃ attributes ∈ sources m d path? drs, (attributes.get? key).any (· ≠ "") = true

instance (m : Minimum) (d : Dataset) (path? : Option Path) (drs : Drs) (key : String) :
    Decidable (Supplied m d path? drs key) :=
  inferInstanceAs (Decidable (∃ _ ∈ _, _))

variable {l l' l'' : Layers} {key : String}

/-! ### Sources -/

theorem get?_set (l : Layers) (origin : Origin) (k value key : String) :
    (l.set origin k value).get? key = if key = k then some value else l.get? key :=
  Dict.get?_insert ..

theorem Unset.set (h : l.Unset key) (origin : Origin) {k : String} (hk : key ≠ k)
    (value : String) : (l.set origin k value).Unset key := by
  refine ⟨?_, ?_⟩
  · rw [get?_set, if_neg hk]
    exact h.1
  · exact (Dict.get?_insert ..).trans ((if_neg hk).trans h.2)

theorem Unset.add (h : l.Unset key) (origin : Origin) {k value : String}
    (hk : key = k → value = "") : (l.add origin k value).Unset key := by
  unfold Layers.add
  split
  · exact h
  · rename_i hused
    simp only [Bool.or_eq_true, decide_eq_true_eq, not_or] at hused
    split
    · exact h.set origin (fun he => hused.2 (hk he)) value
    · split <;> exact h

theorem Unset.addSource (h : l.Unset key) (origin : Origin) {attributes : Attributes}
    (hempty : ∀ value, attributes.get? key = some value → value = "") :
    (l.addSource origin attributes).Unset key := by
  have hentries : ∀ e ∈ attributes.toList, key = e.1 → e.2 = "" := by
    rintro ⟨k, value⟩ he rfl
    exact hempty value ((Dict.mem_toList _).mp he)
  unfold Layers.addSource
  generalize attributes.toList = entries at hentries
  induction entries generalizing l with
  | nil => exact h
  | cons e entries ih =>
    exact ih (h.add origin (hentries e (List.mem_cons_self ..)))
      fun e' he' => hentries e' (List.mem_cons_of_mem e he')

theorem unset_ofSources {m : Minimum} {d : Dataset} {path? : Option Path} {drs : Drs}
    (h : ¬Supplied m d path? drs key) : (ofSources m d path? drs).Unset key := by
  have hempty : ∀ attributes ∈ sources m d path? drs,
      ∀ value, attributes.get? key = some value → value = "" := fun attributes hmem value hv =>
    by_contra fun hne => h ⟨attributes, hmem, by simp [hv, hne]⟩
  have hnone : Layers.empty.Unset key := ⟨rfl, rfl⟩
  have hdata := (hnone.addSource .arguments (hempty m.attributes (by simp [sources]))).addSource
    .content (hempty d.textAttributes (by simp [sources]))
  unfold ofSources
  cases path? with
  | none => exact hdata
  | some path =>
    simp only
    split
    · rename_i fields hfields
      exact hdata.addSource .fileName (hempty fields (by simp [sources, hfields, Except.toOption]))
    · rename_i e fields he hfields
      exact hdata.addSource .fileName
        (hempty fields (by simp [sources, he, hfields, Except.toOption]))
    · exact hdata

/-! ### What a step keeps -/

/-- The step from `l` to `l'` changes no value but those of the keys. -/
def Keeps (keys : List String) (l l' : Layers) : Prop := ∀ key ∉ keys, l'.get? key = l.get? key

theorem Keeps.refl {keys : List String} : Keeps keys l l := fun _ _ => rfl

theorem Keeps.trans {ks ks' : List String} (h : Keeps ks l l') (h' : Keeps ks' l' l'') :
    Keeps (ks ++ ks') l l'' := fun key hkey => by
  rw [List.mem_append, not_or] at hkey
  rw [h' key hkey.2, h key hkey.1]

theorem Keeps.mono {ks ks' : List String} (h : Keeps ks l l') (hks : ks ⊆ ks') : Keeps ks' l l' :=
  fun key hkey => h key fun hmem => hkey (hks hmem)

theorem keeps_infer {k value : String} : Keeps [k] l (l.infer k value) := by
  intro key hkey
  rw [List.mem_singleton] at hkey
  unfold infer
  split
  · rw [get?_set, if_neg hkey]
  · split
    · exact (Dict.get?_insert ..).trans (if_neg hkey)
    · rfl

theorem get?_infer (h : l.get? key = none) (value : String) :
    (l.infer key value).get? key = some value := by
  rw [infer, h]
  exact (get?_set ..).trans (if_pos rfl)

theorem keeps_settleVariable {d : Dataset} {indicators : List String}
    (h : l.settleVariable d indicators = .ok l') : Keeps ["variable_id"] l l' := by
  unfold settleVariable at h
  split at h
  · split at h
    · cases h
      exact keeps_infer
    · split at h
      · cases h
      · cases h
        exact .refl
  · cases h
    exact .refl

theorem keeps_settleKnown {known : List (String × String)} (h : settleKnown key known l = .ok l') :
    Keeps [key] l l' := by
  unfold settleKnown at h
  simp only at h
  split at h
  · cases h
    exact .refl
  · cases h
    exact keeps_infer
  · cases h

theorem keeps_settleCategories (h : l.settleCategories = .ok l') :
    Keeps ["dataset_category", "realm"] l l' := by
  have hkeeps : ∀ {l₁}, settleKnown "dataset_category" KnownVariables.datasetCategories l = .ok l₁ →
      settleKnown "realm" KnownVariables.realms l₁ = .ok l' →
        Keeps ["dataset_category", "realm"] l l' :=
    fun h₁ h₂ => (keeps_settleKnown h₁).trans (keeps_settleKnown h₂)
  unfold settleCategories at h
  split at h
  · obtain ⟨_, _, h⟩ := Except.bind_eq_ok.mp h
    obtain ⟨_, _, h⟩ := Except.bind_eq_ok.mp h
    obtain ⟨l₁, h₁, h₂⟩ := Except.bind_eq_ok.mp h
    exact hkeeps h₁ h₂
  · obtain ⟨l₁, h₁, h₂⟩ := Except.bind_eq_ok.mp h
    exact hkeeps h₁ h₂

theorem keeps_settleFrequency {d : Dataset} (h : l.settleFrequency d = .ok l') :
    Keeps ["frequency"] l l' := by
  unfold settleFrequency at h
  split at h
  · cases h
    exact .refl
  · cases h
    exact keeps_infer
  · cases h

theorem keeps_settleTimeRange {d : Dataset} (h : l.settleTimeRange d = .done l') :
    Keeps ["time_range"] l l' := by
  unfold settleTimeRange at h
  split at h
  · cases h
    exact .refl
  · obtain ⟨range?, _, h⟩ := Outcome.bind_eq_done.mp h
    cases range? with
    | none =>
      cases h
      exact .refl
    | some range =>
      cases h
      exact keeps_infer

theorem keeps_settleActivity {cv : Vocabularies} {sourceId : String}
    (h : l.settleActivity cv sourceId = .ok l') : Keeps ["activity_id"] l l' := by
  unfold settleActivity at h
  split at h
  · cases h
    exact .refl
  · obtain ⟨activity, _, h⟩ := Except.bind_eq_ok.mp h
    cases h
    exact keeps_infer

theorem keeps_settleDetermined {cv : Vocabularies} {sourceId : String} :
    ∀ {cs : List Category} {l : Layers}, settleDetermined cv sourceId cs l = .ok l' →
      Keeps (cs.map Category.name) l l'
  | [], l, h => by
    cases h
    exact .refl
  | c :: cs, l, h => by
    rw [settleDetermined] at h
    split at h
    · exact (keeps_settleDetermined h).mono (List.subset_cons_self ..)
    · exact keeps_infer.trans (keeps_settleDetermined h)
    · cases h

theorem keeps_settleLicense {cv : Vocabularies} (h : l.settleLicense cv = .ok l') :
    Keeps ["license"] l l' := by
  unfold settleLicense at h
  simp only at h
  split at h
  · cases h
    exact .refl
  · cases h
    exact keeps_infer
  · cases h

theorem keeps_settleFresh {fresh : Fresh} :
    Keeps ["Conventions", "creation_date", "tracking_id", "version"] l (l.settleFresh fresh) :=
  ((keeps_infer.trans keeps_infer).trans keeps_infer).trans keeps_infer

/-- What the source prescribes. -/
def determinedCategories : List Category :=
  [.institutionId, .contact, .furtherInfoUrl, .licenseId, .mipEra, .sourceVersion]

/-- The steps that lead from `l` to `l'`, one for each group of keys. -/
def Settles (m : Minimum) (d : Dataset) (cv : Vocabularies) (indicators : List String)
    (l l' : Layers) : Prop :=
  ∃ l₁ l₂ l₃ l₄ l₅ l₆, l.settleVariable d indicators = .ok l₁ ∧ l₁.settleCategories = .ok l₂ ∧
    l₂.settleFrequency d = .ok l₃ ∧ l₃.settleTimeRange d = .done l₄ ∧
    l₄.settleActivity cv m.sourceId = .ok l₅ ∧
    settleDetermined cv m.sourceId determinedCategories l₅ = .ok l₆ ∧ l₆.settleLicense cv = .ok l'

end Layers

/-! ### The whole inference -/

theorem TimeAxis.ne_empty_of_range {axis : TimeAxis} {f : Frequency} {text : String}
    (h : axis.range f = .done (some text)) : text ≠ "" := by
  unfold TimeAxis.range at h
  split at h
  · cases h
  · split at h
    · simp only at h
      split at h
      · obtain ⟨stop, _, h⟩ := Outcome.bind_eq_done.mp h
        cases h
        simp [toString]
      · cases h
    · split at h
      · cases h
        simp [toString]
      · cases h

theorem Consistency.ne_empty_of_expectedRange {d : Dataset} {f : Frequency} {text : String}
    (h : expectedRange d f = .done (some text)) : text ≠ "" := by
  unfold expectedRange at h
  split at h
  · exact TimeAxis.ne_empty_of_range h
  · cases h

namespace Layers
variable {d : Dataset} {l l' : Layers}

theorem get?_settleVariable {indicators : List String} (hl : l.Unset "variable_id")
    (h : l.settleVariable d indicators = .ok l') :
    ∃ name, d.dataVariables indicators = [name] ∧ l'.get? "variable_id" = some name := by
  unfold settleVariable inferVariable at h
  rw [hl.2, hl.1] at h
  simp only [Option.all_none, ↓reduceIte] at h
  cases hvars : d.dataVariables indicators with
  | nil =>
    rw [hvars] at h
    cases h
  | cons name names =>
    rw [hvars] at h
    cases names with
    | nil =>
      cases h
      exact ⟨name, rfl, get?_infer hl.1 name⟩
    | cons _ _ => cases h

theorem get?_settleFrequency (hl : l.get? "frequency" = none) (h : l.settleFrequency d = .ok l') :
    ∃ f, Frequency.infer? d.time = some f ∧ l'.get? "frequency" = some f.name := by
  unfold settleFrequency at h
  rw [hl] at h
  cases hf : Frequency.infer? d.time with
  | none =>
    rw [hf] at h
    cases h
  | some f =>
    rw [hf] at h
    cases h
    exact ⟨f, rfl, get?_infer hl f.name⟩

/-- Where the time range depends on the frequency, the time axis has been read. -/
theorem get?_settleTimeRange (h : l.settleTimeRange d = .done l') {f : Frequency}
    (hf : (l.get? "frequency").bind Frequency.ofName? = some f) :
    ∃ range?, Consistency.expectedRange d f = .done range? ∧
      (l.get? "time_range" = none → l'.get? "time_range" = range?) := by
  unfold settleTimeRange at h
  rw [hf] at h
  obtain ⟨range?, hrange, h⟩ := Outcome.bind_eq_done.mp h
  refine ⟨range?, hrange, fun hl => ?_⟩
  cases range? with
  | none =>
    cases h
    exact hl
  | some range =>
    cases h
    exact get?_infer hl range

end Layers

namespace Inferred
open Layers
variable {m : Minimum} {d : Dataset} {path? : Option Path} {cv : Vocabularies}
  {indicators : List String} {fresh : Fresh} {i : Inferred}

/-- What is settled after the time range. -/
def laterKeys : List String :=
  ["activity_id", "institution_id", "contact", "further_info_url", "license_id", "mip_era",
    "source_version", "license", "Conventions", "creation_date", "tracking_id", "version"]

theorem ofMinimum_eq_ok : ofMinimum m d path? cv indicators fresh = .done (.ok i) ↔
    ∃ l, Settles m d cv indicators (ofSources m d path? cv.drs) l ∧
      Metadata.ofAttributes? (l.settleFresh fresh).values cv = .ok i.metadata ∧
      i.discrepancies = (l.settleFresh fresh).discrepancies := by
  constructor
  · intro h
    unfold ofMinimum at h
    split at h
    · cases h
    · rename_i l₃ hbefore
      obtain ⟨l₁, h₁, hbefore⟩ := Except.bind_eq_ok.mp hbefore
      obtain ⟨l₂, h₂, h₃⟩ := Except.bind_eq_ok.mp hbefore
      obtain ⟨l₄, h₄, hafter⟩ := Outcome.bind_eq_done.mp h
      obtain ⟨l₅, h₅, hafter⟩ := Except.bind_eq_ok.mp (Outcome.done.inj hafter)
      obtain ⟨l₆, h₆, hafter⟩ := Except.bind_eq_ok.mp hafter
      obtain ⟨l₇, h₇, hafter⟩ := Except.bind_eq_ok.mp hafter
      refine ⟨l₇, ⟨l₁, l₂, l₃, l₄, l₅, l₆, h₁, h₂, h₃, h₄, h₅, h₆, h₇⟩, ?_⟩
      simp only at hafter
      split at hafter
      · rename_i hm
        cases hafter
        exact ⟨hm, rfl⟩
      · cases hafter
  · rintro ⟨l, ⟨l₁, l₂, l₃, l₄, l₅, l₆, h₁, h₂, h₃, h₄, h₅, h₆, h₇⟩, hm, hd⟩
    have hbefore : beforeRange m d path? cv indicators = .ok l₃ :=
      Except.bind_eq_ok.mpr ⟨l₁, h₁, Except.bind_eq_ok.mpr ⟨l₂, h₂, h₃⟩⟩
    have hafter : afterRange m cv fresh l₄ = .ok i := by
      refine Except.bind_eq_ok.mpr ⟨l₅, h₅, Except.bind_eq_ok.mpr ⟨l₆, h₆,
        Except.bind_eq_ok.mpr ⟨l, h₇, ?_⟩⟩⟩
      simp only [hm, ← hd]
      rfl
    unfold ofMinimum
    rw [hbefore]
    exact Outcome.bind_eq_done.mpr ⟨l₄, h₄, congrArg Outcome.done hafter⟩

/-- The values after each of the steps that set what the data says, and the last ones, of which the
metadata is made. -/
theorem exists_layers (h : ofMinimum m d path? cv indicators fresh = .done (.ok i)) :
    ∃ l₁ l₂ l₃ l₄ l₅, (ofSources m d path? cv.drs).settleVariable d indicators = .ok l₁ ∧
      l₁.settleCategories = .ok l₂ ∧ l₂.settleFrequency d = .ok l₃ ∧
      l₃.settleTimeRange d = .done l₄ ∧ Keeps laterKeys l₄ l₅ ∧
      Metadata.ofAttributes? l₅.values cv = .ok i.metadata := by
  obtain ⟨l, ⟨l₁, l₂, l₃, l₄, l₅, l₆, h₁, h₂, h₃, h₄, h₅, h₆, h₇⟩, hm, _⟩ := ofMinimum_eq_ok.mp h
  exact ⟨l₁, l₂, l₃, l₄, l.settleFresh fresh, h₁, h₂, h₃, h₄,
    (((keeps_settleActivity h₅).trans (keeps_settleDetermined h₆)).trans
      (keeps_settleLicense h₇)).trans keeps_settleFresh, hm⟩

theorem get?_variable (h : ofMinimum m d path? cv indicators fresh = .done (.ok i))
    (hs : ¬Supplied m d path? cv.drs "variable_id") :
    ∃ name, d.dataVariables indicators = [name] ∧ i.metadata.get? "variable_id" = some name := by
  obtain ⟨l₁, l₂, l₃, l₄, l₅, h₁, h₂, h₃, h₄, h₅, hm⟩ := exists_layers h
  obtain ⟨name, hvars, hname⟩ := get?_settleVariable (unset_ofSources hs) h₁
  refine ⟨name, hvars, ?_⟩
  rw [← keeps_settleCategories h₂ "variable_id" (by decide),
    ← keeps_settleFrequency h₃ "variable_id" (by decide),
    ← keeps_settleTimeRange h₄ "variable_id" (by decide), ← h₅ "variable_id" (by decide)] at hname
  exact (Metadata.get?_of_ofAttributes?_required hm (by decide)).trans hname

theorem get?_frequency (h : ofMinimum m d path? cv indicators fresh = .done (.ok i))
    (hs : ¬Supplied m d path? cv.drs "frequency") :
    ∃ f, Frequency.infer? d.time = some f ∧ i.metadata.get? "frequency" = some f.name := by
  obtain ⟨l₁, l₂, l₃, l₄, l₅, h₁, h₂, h₃, h₄, h₅, hm⟩ := exists_layers h
  have hnone : l₂.get? "frequency" = none := by
    rw [keeps_settleCategories h₂ "frequency" (by decide),
      keeps_settleVariable h₁ "frequency" (by decide)]
    exact (unset_ofSources hs).1
  obtain ⟨f, hf, hname⟩ := get?_settleFrequency hnone h₃
  refine ⟨f, hf, ?_⟩
  rw [← keeps_settleTimeRange h₄ "frequency" (by decide), ← h₅ "frequency" (by decide)] at hname
  exact (Metadata.get?_of_ofAttributes?_required hm (by decide)).trans hname

theorem exists_frequency (h : ofMinimum m d path? cv indicators fresh = .done (.ok i)) :
    ∃ frequency, i.metadata.get? "frequency" = some frequency := by
  obtain ⟨_, _, _, _, l₅, _, _, _, _, _, hm⟩ := exists_layers h
  have hrequired : Metadata.isRequired "frequency" = true := by decide
  obtain ⟨frequency, hv, _⟩ :=
    Metadata.ne_empty_of_missing (Metadata.ofAttributes?_eq_ok.mp hm).1 hrequired
  exact ⟨frequency, (Metadata.get?_of_ofAttributes?_required hm hrequired).trans hv⟩

/-- The time range is the one that goes with the frequency, wherever that comes from. -/
theorem get?_timeRange (h : ofMinimum m d path? cv indicators fresh = .done (.ok i))
    {f : Frequency} (hf : (i.metadata.get? "frequency").bind Frequency.ofName? = some f) :
    ∃ range?, Consistency.expectedRange d f = .done range? ∧
      (¬Supplied m d path? cv.drs "time_range" → i.metadata.get? "time_range" = range?) := by
  obtain ⟨l₁, l₂, l₃, l₄, l₅, h₁, h₂, h₃, h₄, h₅, hm⟩ := exists_layers h
  have hfrequency : i.metadata.get? "frequency" = l₃.get? "frequency" :=
    (Metadata.get?_of_ofAttributes?_required hm (by decide)).trans
      ((h₅ "frequency" (by decide)).trans (keeps_settleTimeRange h₄ "frequency" (by decide)))
  rw [hfrequency] at hf
  obtain ⟨range?, hrange, hl₄⟩ := get?_settleTimeRange h₄ hf
  refine ⟨range?, hrange, fun hs => ?_⟩
  have hnone : l₃.get? "time_range" = none := by
    rw [keeps_settleFrequency h₃ "time_range" (by decide),
      keeps_settleCategories h₂ "time_range" (by decide),
      keeps_settleVariable h₁ "time_range" (by decide)]
    exact (unset_ofSources hs).1
  have hl₅ : l₅.get? "time_range" = range? := (h₅ "time_range" (by decide)).trans (hl₄ hnone)
  cases range? with
  | none => exact Metadata.get?_of_ofAttributes?_none hm hl₅
  | some text =>
    exact Metadata.get?_of_ofAttributes? hm (by decide)
      (Consistency.ne_empty_of_expectedRange hrange) hl₅

end Inferred

/-! ### The rules on the data -/

namespace Consistency
variable {attributes : Attributes} {d : Dataset}

theorem rule_checkVariable (attributes : Attributes) (dataVars : List String) :
    (checkVariable attributes dataVars).rule = variableRule := by
  unfold checkVariable
  split
  · rfl
  · split
    · rfl
    · split <;> rfl

theorem rule_checkFrequency (attributes : Attributes) (d : Dataset) :
    (checkFrequency attributes d).rule = frequencyRule := by
  unfold checkFrequency
  split
  · rfl
  · split
    · split <;> rfl
    · rfl

theorem rule_compareRanges (declared expected : Option String) :
    (compareRanges declared expected).rule = timeRangeRule := by
  unfold compareRanges
  split
  · rfl
  · rfl
  · split <;> rfl

theorem rule_checkExternal (attributes : Attributes) (d : Dataset) :
    (checkExternal attributes d).rule = externalRule := by
  unfold checkExternal
  simp only
  split <;> rfl

theorem rule_checkTimeDimension (attributes : Attributes) (d : Dataset) (dataVars : List String) :
    (checkTimeDimension attributes d dataVars).rule = timeDimensionRule := by
  unfold checkTimeDimension
  split
  · rfl
  · simp only
    split <;> rfl

theorem status_checkVariable {name : String} (hv : attributes.get? "variable_id" = some name)
    (hname : name ≠ Metadata.multipleVariables) :
    (checkVariable attributes [name]).status = .pass := by
  simp [checkVariable, hv, hname, Finding.pass]

theorem status_checkFrequency {f : Frequency} (hf : Frequency.infer? d.time = some f)
    (hv : attributes.get? "frequency" = some f.name) :
    (checkFrequency attributes d).status = .pass := by
  simp [checkFrequency, hv, hf, Finding.pass]

theorem status_compareRanges (range? : Option String) :
    (compareRanges range? range?).status = .pass := by
  cases range? <;> simp [compareRanges, Finding.pass]

/-- The check of the time range compares what is declared with what goes with the frequency. -/
theorem exists_checkTimeRange {frequency : String}
    (hv : attributes.get? "frequency" = some frequency)
    (hrange : ∀ f, Frequency.ofName? frequency = some f → ∃ r, expectedRange d f = .done r) :
    ∃ finding, checkTimeRange attributes d = .done finding ∧ finding.rule = timeRangeRule ∧
      ((∀ f, Frequency.ofName? frequency = some f →
        expectedRange d f = .done (attributes.get? "time_range")) → finding.status = .pass) := by
  unfold checkTimeRange
  rw [hv]
  simp only
  cases hf : Frequency.ofName? frequency with
  | none => exact ⟨_, rfl, rfl, fun _ => rfl⟩
  | some f =>
    obtain ⟨r, hr⟩ := hrange f hf
    refine ⟨compareRanges (attributes.get? "time_range") r, ?_, rule_compareRanges .., fun h => ?_⟩
    · simp only [hr]
      rfl
    · rw [Outcome.done.inj (hr.symm.trans (h f rfl))]
      exact status_compareRanges _

end Consistency

namespace Findings

/-- The findings of the rule pass. -/
def Passes (fs : Findings) (rule : String) : Prop := ∀ f ∈ fs, f.rule = rule → f.status = .pass

theorem passes_of_mem {fs : Findings} (hn : (fs.map (·.rule)).Nodup) {f : Finding} (hf : f ∈ fs)
    (hp : f.status = .pass) : fs.Passes f.rule := fun g hg hrule => by
  rw [List.inj_on_of_nodup_map hn hg hf hrule]
  exact hp

end Findings

namespace Inferred
open Layers Consistency
variable {m : Minimum} {d : Dataset} {path? : Option Path} {cv : Vocabularies}
  {indicators : List String} {fresh : Fresh} {i : Inferred}

theorem ne_multiple_of_dataVariables (hd : d.vars.contains Metadata.multipleVariables = false)
    {name : String} (hvars : d.dataVariables indicators = [name]) :
    name ≠ Metadata.multipleVariables := by
  rintro rfl
  have hmem : Metadata.multipleVariables ∈ d.vars.keys := by
    refine (List.mem_filter.mp (?_ : _ ∈ d.dataVariables indicators)).1
    rw [hvars]
    exact List.mem_singleton_self _
  rw [Dict.mem_keys] at hmem
  exact absurd hmem (Bool.eq_false_iff.mp hd)

/-- What no source supplies is inferred as the rules on the data want it. -/
theorem passes_validate (h : ofMinimum m d path? cv indicators fresh = .done (.ok i))
    (hd : d.vars.contains Metadata.multipleVariables = false) :
    ∃ findings, Consistency.validate d i.metadata.attributes indicators = .done findings ∧
      findings.map (·.rule) =
        [variableRule, frequencyRule, timeRangeRule, externalRule, timeDimensionRule] ∧
      (¬Supplied m d path? cv.drs "variable_id" → Findings.Passes findings variableRule) ∧
      (¬Supplied m d path? cv.drs "frequency" → Findings.Passes findings frequencyRule) ∧
      (¬Supplied m d path? cv.drs "time_range" → Findings.Passes findings timeRangeRule) := by
  obtain ⟨frequency, hfrequency⟩ := exists_frequency h
  have htimeRange : ∀ f, Frequency.ofName? frequency = some f →
      ∃ range?, Consistency.expectedRange d f = .done range? ∧
        (¬Supplied m d path? cv.drs "time_range" → i.metadata.get? "time_range" = range?) :=
    fun f hf => get?_timeRange h (by rw [hfrequency]; exact hf)
  obtain ⟨timeRange, hcheck, hrule, hpass⟩ := exists_checkTimeRange hfrequency
    fun f hf => (htimeRange f hf).imp fun _ hr => hr.1
  let variable' := checkVariable i.metadata.attributes (d.dataVariables indicators)
  let frequency' := checkFrequency i.metadata.attributes d
  let findings : Findings := [variable', frequency', timeRange,
    checkExternal i.metadata.attributes d,
    checkTimeDimension i.metadata.attributes d (d.dataVariables indicators)]
  have hrules : findings.map (·.rule) =
      [variableRule, frequencyRule, timeRangeRule, externalRule, timeDimensionRule] := by
    simp [findings, variable', frequency', rule_checkVariable, rule_checkFrequency, hrule,
      rule_checkExternal, rule_checkTimeDimension]
  have hnodup : (findings.map (·.rule)).Nodup := by
    rw [hrules]
    decide
  refine ⟨findings, ?_, hrules, fun hs => ?_, fun hs => ?_, fun hs => ?_⟩
  · rw [validate, hcheck]
    rfl
  · -- what was not supplied was inferred from the dataset, which the check compares it with
    obtain ⟨name, hvars, hname⟩ := get?_variable h hs
    have hstatus : variable'.status = .pass := by
      rw [show variable' = checkVariable i.metadata.attributes [name] by rw [← hvars]]
      exact status_checkVariable hname (ne_multiple_of_dataVariables hd hvars)
    have hpasses := Findings.passes_of_mem hnodup (f := variable') (by simp [findings]) hstatus
    rwa [rule_checkVariable] at hpasses
  · obtain ⟨f, hf, hname⟩ := get?_frequency h hs
    have hpasses := Findings.passes_of_mem hnodup (f := frequency') (by simp [findings])
      (status_checkFrequency hf hname)
    rwa [rule_checkFrequency] at hpasses
  · have hstatus : timeRange.status = .pass := hpass fun f hf => by
      obtain ⟨range?, hrange, hdeclared⟩ := htimeRange f hf
      rw [hrange, ← hdeclared hs]
      rfl
    have hpasses := Findings.passes_of_mem hnodup (f := timeRange) (by simp [findings]) hstatus
    rwa [hrule] at hpasses

def sampleMinimum : Minimum where
  gridLabel := "gn"
  nominalResolution := "10 km"
  sourceId := "s1"
  targetMip := "any"
  extra := ∅

/-- Monthly values of one variable, with one attribute. -/
def sampleMonths : Dataset where
  attributes := Dict.ofList [("activity_id", .text "input")]
  dimensions := Dict.ofList [("time", 3)]
  vars := Dict.ofList [("time", ⟨["time"], ∅⟩), ("tos", ⟨["time"], ∅⟩)]
  time := some ⟨"time", [⟨⟨2000, 1, 1⟩, 0, 0⟩, ⟨⟨2000, 2, 1⟩, 0, 0⟩, ⟨⟨2000, 3, 1⟩, 0, 0⟩],
    none, false⟩

def sampleFresh : Fresh where
  creationDate := "2020-01-01T00:00:00Z"
  trackingId := "hdl:21.14100/01234567-89ab-4cde-8f01-23456789abcd"

def sampleInferred : Outcome (Except InferenceError Inferred) :=
  ofMinimum sampleMinimum sampleMonths none FileValidation.sampleVocabularies [] sampleFresh

/-- Variable, frequency and time range of what was inferred, or nothing where this failed. -/
def sampleValues : Outcome (Except InferenceError Inferred) → List (Option String)
  | .done (.ok i) => ["variable_id", "frequency", "time_range"].map i.metadata.get?
  | _ => []

theorem passes_validate_sample :
    ∃ i, sampleInferred = .done (.ok i) ∧ i.metadata.get? "variable_id" = some "tos" ∧
      i.metadata.get? "frequency" = some "mon" ∧
      i.metadata.get? "time_range" = some "200001-200003" ∧
      ∃ findings, Consistency.validate sampleMonths i.metadata.attributes [] = .done findings ∧
        findings.Passes variableRule ∧ findings.Passes frequencyRule ∧
          findings.Passes timeRangeRule := by
  have hvalues : sampleValues sampleInferred =
      [some "tos", some "mon", some "200001-200003"] := by decide +kernel
  rw [sampleValues.eq_def] at hvalues
  split at hvalues
  · rename_i i hi
    simp only [List.map_cons, List.map_nil, List.cons.injEq, and_true] at hvalues
    obtain ⟨hvariable, hfrequency, htimeRange⟩ := hvalues
    have hsupplied : ∀ key ∈ ["variable_id", "frequency", "time_range"],
        ¬Supplied sampleMinimum sampleMonths none FileValidation.sampleVocabularies.drs key := by
      decide +kernel
    obtain ⟨findings, hvalidate, _, hpasses⟩ := passes_validate hi (by decide +kernel)
    exact ⟨i, hi, hvariable, hfrequency, htimeRange, findings, hvalidate,
      hpasses.1 (hsupplied _ (by decide)), hpasses.2.1 (hsupplied _ (by decide)),
      hpasses.2.2 (hsupplied _ (by decide))⟩
  · cases hvalues

end Inferred
end ForcingData
