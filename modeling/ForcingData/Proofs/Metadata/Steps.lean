import ForcingData.Proofs.Metadata.Sources

/-! # The steps of the inference

Most steps leave a value that is there as it is (`settleWith`). Whatever a step does, it does by
inferring values one after the other (`Infers`), for keys without a value or for keys whose value
may be respelt; so what a single inference keeps is kept by all steps together (`Settles.infers`,
`infers_settleFresh`), among it the values that no file name has (`Infers.retains`). -/

namespace ForcingData
namespace Layers

variable {l l' l'' : Layers} {key : String}

/-! ### A value for one key -/

/-- Most steps leave a value that is there as it is. -/
def settleWith (key : String) (value : Except InferenceError String) (l : Layers) :
    Except InferenceError Layers :=
  match l.get? key with
  | some _ => .ok l
  | none => do return l.infer key (← value)

theorem settleWith_eq_ok {value : Except InferenceError String} :
    settleWith key value l = .ok l' ↔ (l.get? key ≠ none ∧ l' = l) ∨
      (l.get? key = none ∧ ∃ v, value = .ok v ∧ l' = l.infer key v) := by
  unfold settleWith
  cases l.get? key with
  | some _ => simp [eq_comm]
  | none =>
    simp only [ne_eq, not_true_eq_false, false_and, true_and, false_or]
    exact Except.bind_eq_ok.trans (exists_congr fun v =>
      and_congr_right fun _ => Except.pure_eq_ok.trans eq_comm)

def knownValue (key : String) (known : List (String × String)) (variableId : String) :
    Except InferenceError String :=
  match known.lookup variableId with
  | some value => .ok value
  | none =>
    .error (.missingRequiredField key s!"no known {key} for variable_id={Text.quoted variableId}")

def frequencyValue (d : Dataset) : Except InferenceError String :=
  match Frequency.infer? d.time with
  | some f => .ok f.name
  | none => .error (.missingRequiredField "frequency" "the time axis fits no known frequency")

def determinedValue (cv : Vocabularies) (sourceId : String) (c : Category) :
    Except InferenceError String :=
  match (cv.sources.get? sourceId).bind (·.determined? c) with
  | some value => .ok value
  | none =>
    .error (.missingRequiredField c.name s!"source_id={Text.quoted sourceId} is not in the CVs")

def licenseValue (cv : Vocabularies) (licenseId : String) : Except InferenceError String :=
  match cv.licenses.get? licenseId with
  | some license => .ok license.conditions
  | none =>
    .error (.missingRequiredField "license"
      s!"license_id={Text.quoted licenseId} is not in the CVs")

theorem settleKnown_eq (key : String) (known : List (String × String)) (l : Layers) :
    settleKnown key known l =
      settleWith key (knownValue key known ((l.get? "variable_id").getD "")) l := by
  unfold settleKnown settleWith knownValue
  simp only
  cases l.get? key with
  | some _ => rfl
  | none => cases known.lookup ((l.get? "variable_id").getD "") <;> rfl

theorem settleFrequency_eq (d : Dataset) (l : Layers) :
    l.settleFrequency d = settleWith "frequency" (frequencyValue d) l := by
  unfold settleFrequency settleWith frequencyValue
  cases l.get? "frequency" with
  | some _ => rfl
  | none => cases Frequency.infer? d.time <;> rfl

theorem settleActivity_eq (cv : Vocabularies) (sourceId : String) (l : Layers) :
    l.settleActivity cv sourceId = settleWith "activity_id" (inferActivity cv sourceId) l := rfl

theorem settleDetermined_cons (cv : Vocabularies) (sourceId : String) (c : Category)
    (cs : List Category) (l : Layers) : settleDetermined cv sourceId (c :: cs) l =
      settleWith c.name (determinedValue cv sourceId c) l >>= settleDetermined cv sourceId cs := by
  rw [settleDetermined]
  unfold settleWith determinedValue
  cases l.get? c.name with
  | some _ => rfl
  | none => cases (cv.sources.get? sourceId).bind (·.determined? c) <;> rfl

theorem settleLicense_eq (cv : Vocabularies) (l : Layers) : l.settleLicense cv =
    settleWith "license" (licenseValue cv ((l.get? "license_id").getD "")) l := by
  unfold settleLicense settleWith licenseValue
  simp only
  cases l.get? "license" with
  | some _ => rfl
  | none => cases cv.licenses.get? ((l.get? "license_id").getD "") <;> rfl

theorem requireExplicit_eq_ok {u : Unit} :
    l.requireExplicit key = .ok u ↔ l.get? key ≠ none := by
  unfold requireExplicit
  split <;> simp_all

theorem settleCategories_eq_ok : l.settleCategories = .ok l' ↔
    (l.get? "variable_id" = some Metadata.multipleVariables →
      l.get? "dataset_category" ≠ none ∧ l.get? "realm" ≠ none) ∧
    ∃ l₁, settleKnown "dataset_category" KnownVariables.datasetCategories l = .ok l₁ ∧
      settleKnown "realm" KnownVariables.realms l₁ = .ok l' := by
  unfold settleCategories
  by_cases hmultiple : l.get? "variable_id" = some Metadata.multipleVariables
  · simp only [hmultiple, if_true, Except.bind_eq_ok, requireExplicit_eq_ok, exists_const,
      forall_const, and_assoc]
  · simp only [hmultiple, if_false, Except.bind_eq_ok, false_implies, true_and]

/-- May the variable still be inferred? -/
def isOpenVariable (l : Layers) : Bool := (l.origins.get? "variable_id").all (· = .fileName)

theorem settleVariable_eq_ok {d : Dataset} {indicators : List String} :
    l.settleVariable d indicators = .ok l' ↔
      (l.isOpenVariable = true ∧ ∃ name, inferVariable d indicators = .ok name ∧
        l' = l.infer "variable_id" name) ∨
      ((l.isOpenVariable = false ∨ l.get? "variable_id" ≠ none ∧
        ∃ e, inferVariable d indicators = .error e) ∧ l' = l) := by
  unfold settleVariable
  rw [← isOpenVariable]
  cases l.isOpenVariable with
  | false => simp [eq_comm]
  | true =>
    rw [if_pos rfl]
    cases inferVariable d indicators with
    | ok name => simp [eq_comm]
    | error e => by_cases hv : l.get? "variable_id" = none <;> simp [hv, eq_comm]

/-- The time range that goes with the data, where the frequency is a known one. -/
def rangeValue (d : Dataset) (frequency? : Option String) : Outcome (Option String) :=
  match frequency?.bind Frequency.ofName? with
  | none => .done none
  | some f => Consistency.expectedRange d f

theorem settleTimeRange_eq_done {d : Dataset} : l.settleTimeRange d = .done l' ↔
    ∃ range?, rangeValue d (l.get? "frequency") = .done range? ∧
      l' = range?.elim l (l.infer "time_range") := by
  unfold settleTimeRange rangeValue
  cases (l.get? "frequency").bind Frequency.ofName? with
  | none => simp [eq_comm]
  | some f =>
    refine Outcome.bind_eq_done.trans (exists_congr fun range? => and_congr_right fun _ => ?_)
    cases range? <;> exact (Outcome.done.injEq ..).to_iff.trans eq_comm

/-! ### Inferring one value after the other -/

theorem onlyAt_infer (l : Layers) (key value : String) : OnlyAt key l (l.infer key value) := by
  refine ⟨fun k hk => keeps_infer k (by simpa using hk), fun k hk => ?_, ?_⟩
  all_goals unfold infer
  · split
    · exact (Dict.get?_insert ..).trans (if_neg hk)
    · split <;> rfl
  · split
    · rfl
    · split <;> rfl

theorem infer_eq_self {existing : String} (hv : l.get? key = some existing)
    (horigin : l.origins.get? key ≠ some .fileName) (value : String) : l.infer key value = l := by
  rw [infer, hv]
  simp [horigin]

/-- From `l` to `l'` values are inferred, for keys without one or where this is allowed. -/
inductive Infers (allowed : String → String → Prop) : Layers → Layers → Prop
  | refl (l : Layers) : Infers allowed l l
  | infer {l l' : Layers} (h : Infers allowed l l') {key value : String}
      (hv : l'.get? key = none ∨ allowed key value) : Infers allowed l (l'.infer key value)

section
variable {allowed : String → String → Prop}

theorem Infers.trans (h : Infers allowed l l') (h' : Infers allowed l' l'') :
    Infers allowed l l'' := by
  induction h' with
  | refl => exact h
  | infer _ hv ih => exact ih.infer hv

theorem Infers.discrepancies_eq (h : Infers allowed l l') :
    l'.discrepancies = l.discrepancies := by
  induction h with
  | refl => rfl
  | infer _ _ ih => rw [(onlyAt_infer ..).discrepancies_eq, ih]

/-- A value stays, or what takes its place is allowed to and shows in a file name as it does. -/
theorem Infers.respelt (h : Infers allowed l l') {value : String} (hv : l.get? key = some value) :
    ∃ w, l'.get? key = some w ∧ (w = value ∨ allowed key w ∧
      Drs.applyKnownReplacements w = Drs.applyKnownReplacements value) := by
  induction h with
  | refl => exact ⟨value, hv, .inl rfl⟩
  | @infer l₁ _ k x hk ih =>
    obtain ⟨w, hw, hor⟩ := ih
    by_cases he : key = k
    · subst he
      have hallowed : allowed key x := hk.resolve_left (by simp [hw])
      unfold Layers.infer
      rw [hw]
      dsimp only
      split_ifs with hrespell
      · simp only [Bool.and_eq_true, sameInFileName, decide_eq_true_eq] at hrespell
        refine ⟨x, (Dict.get?_insert ..).trans (if_pos rfl), .inr ⟨hallowed, ?_⟩⟩
        rw [← hrespell.2]
        rcases hor with rfl | ⟨_, hsame⟩
        · rfl
        · exact hsame
      · exact ⟨w, hw, hor⟩
    · exact ⟨w, ((onlyAt_infer ..).get?_eq key he).trans hw, hor⟩

theorem infers_settleWith {value : Except InferenceError String}
    (h : settleWith key value l = .ok l') : Infers allowed l l' := by
  rcases settleWith_eq_ok.mp h with ⟨_, rfl⟩ | ⟨hnone, v, _, rfl⟩
  · exact .refl l'
  · exact (Infers.refl l).infer (.inl hnone)

theorem infers_settleDetermined {cv : Vocabularies} {sourceId : String} :
    ∀ {cs : List Category} {l : Layers}, settleDetermined cv sourceId cs l = .ok l' →
      Infers allowed l l'
  | [], l, h => by
    cases h
    exact .refl _
  | c :: cs, l, h => by
    rw [settleDetermined_cons] at h
    obtain ⟨l₁, h₁, h₂⟩ := Except.bind_eq_ok.mp h
    exact (infers_settleWith h₁).trans (infers_settleDetermined h₂)

theorem infers_settleCategories (h : l.settleCategories = .ok l') : Infers allowed l l' := by
  obtain ⟨_, l₁, h₁, h₂⟩ := settleCategories_eq_ok.mp h
  rw [settleKnown_eq] at h₁ h₂
  exact (infers_settleWith h₁).trans (infers_settleWith h₂)

/-- The variable and the time range are all that may be inferred for keys with a value. -/
theorem Settles.infers {m : Minimum} {d : Dataset} {cv : Vocabularies} {indicators : List String}
    (h : Settles m d cv indicators l l')
    (hvariable : ∀ name, inferVariable d indicators = .ok name → allowed "variable_id" name)
    (hrange : ∀ range, rangeValue d (l'.get? "frequency") = .done (some range) →
      allowed "time_range" range) : Infers allowed l l' := by
  obtain ⟨l₁, l₂, l₃, l₄, l₅, l₆, h₁, h₂, h₃, h₄, h₅, h₆, h₇⟩ := h
  have hfrequency : l'.get? "frequency" = l₃.get? "frequency" := by
    rw [keeps_settleLicense h₇ _ (by decide), keeps_settleDetermined h₆ _ (by decide),
      keeps_settleActivity h₅ _ (by decide), keeps_settleTimeRange h₄ _ (by decide)]
  have hfirst : Infers allowed l l₁ := by
    rcases settleVariable_eq_ok.mp h₁ with ⟨_, name, hname, rfl⟩ | ⟨_, rfl⟩
    · exact (Infers.refl l).infer (.inr (hvariable name hname))
    · exact .refl l₁
  have hfourth : Infers allowed l₃ l₄ := by
    obtain ⟨range?, hvalue, rfl⟩ := settleTimeRange_eq_done.mp h₄
    cases range? with
    | none => exact .refl l₃
    | some range => exact (Infers.refl l₃).infer (.inr (hrange range (hfrequency ▸ hvalue)))
  rw [settleFrequency_eq] at h₃
  rw [settleActivity_eq] at h₅
  rw [settleLicense_eq] at h₇
  exact hfirst.trans <| (infers_settleCategories h₂).trans <| (infers_settleWith h₃).trans <|
    hfourth.trans <| (infers_settleWith h₅).trans <| (infers_settleDetermined h₆).trans <|
      infers_settleWith h₇

/-- What is made anew, and the version that goes with the creation date. -/
theorem infers_settleFresh (fresh : Fresh) (l : Layers)
    (hconventions : allowed "Conventions" defaultConventions)
    (hdate : allowed "creation_date" fresh.creationDate)
    (hid : allowed "tracking_id" fresh.trackingId)
    (hversion : allowed "version"
      (versionOf (((l.settleFresh fresh).get? "creation_date").getD ""))) :
    Infers allowed l (l.settleFresh fresh) := by
  unfold settleFresh at hversion ⊢
  simp only at hversion ⊢
  rw [(onlyAt_infer ..).get?_eq "creation_date" (by decide)] at hversion
  exact ((((Infers.refl l).infer (.inr hconventions)).infer (.inr hdate)).infer (.inr hid)).infer
    (.inr hversion)

end

theorem discrepancies_settleFresh (fresh : Fresh) (l : Layers) :
    (l.settleFresh fresh).discrepancies = l.discrepancies := by
  have hinfers : Infers (fun _ _ => True) l (l.settleFresh fresh) :=
    infers_settleFresh fresh l trivial trivial trivial trivial
  exact hinfers.discrepancies_eq

theorem Settles.discrepancies_eq {m : Minimum} {d : Dataset} {cv : Vocabularies}
    {indicators : List String} (h : Settles m d cv indicators l l') :
    l'.discrepancies = l.discrepancies := by
  have hinfers : Infers (fun _ _ => True) l l' := h.infers (fun _ _ => trivial) fun _ _ => trivial
  exact hinfers.discrepancies_eq

/-! ### Values that are there to stay -/

/-- The keys that are inferred also where a file name shows a value. -/
def inferredKeys : List String :=
  ["variable_id", "time_range", "Conventions", "creation_date", "tracking_id", "version"]

/-- The value of the key is there to stay. -/
def Stays (key value : String) (l : Layers) : Prop :=
  l.get? key = some value ∧ (key ∈ inferredKeys → l.origins.get? key ≠ some .fileName)

theorem Sourced.stays {value : String} (hl : l.Sourced) (hv : l.get? key = some value) :
    l.Stays key value :=
  ⟨hv, fun _ => hl.elsewhere key⟩

theorem Stays.infer {value k v : String} (h : l.Stays key value)
    (hk : k ∈ inferredKeys ∨ l.get? k = none) : (l.infer k v).Stays key value := by
  by_cases he : key = k
  · subst he
    rcases hk with hk | hnone
    · rwa [infer_eq_self h.1 (h.2 hk)]
    · cases hnone.symm.trans h.1
  · have honly := onlyAt_infer l k v
    rwa [Stays, honly.get?_eq key he, honly.origins_eq key he]

/-- The steps from `l` to `l'` take nothing away that is there to stay. -/
def Retains (l l' : Layers) : Prop := ∀ key value, l.Stays key value → l'.Stays key value

theorem Retains.trans (h : Retains l l') (h' : Retains l' l'') : Retains l l'' :=
  fun key value hv => h' key value (h key value hv)

theorem Infers.retains (h : Infers (fun key _ => key ∈ inferredKeys) l l') : Retains l l' := by
  induction h with
  | refl => exact fun _ _ => id
  | infer _ hv ih => exact fun key value hs => (ih key value hs).infer hv.symm

theorem Settles.retains {m : Minimum} {d : Dataset} {cv : Vocabularies} {indicators : List String}
    (h : Settles m d cv indicators l l') : Retains l l' :=
  (h.infers (fun _ _ => by decide) fun _ _ => by decide).retains

theorem retains_settleFresh (fresh : Fresh) (l : Layers) : Retains l (l.settleFresh fresh) :=
  (infers_settleFresh fresh l (by decide) (by decide) (by decide) (by decide)).retains

end Layers
end ForcingData
