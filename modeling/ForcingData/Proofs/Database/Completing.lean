import ForcingData.Proofs.Database.Agreement
import ForcingData.Proofs.Database.Writing
import ForcingData.Proofs.Drs.Rebuilding

/-! # Completing the attributes of an entry

An entry takes its attributes from the file, from the path, and from the time axis, in two steps
that ask each time whether there is an attribute, be it an empty one. `get?_complete` says what
comes of it, `prescribed` what the order of the sources asks for, and `Departs` where the two
part: `completed`. -/

namespace ForcingData

namespace Drs
variable {d : Drs}

theorem ne_empty_of_foldl_addCapture {key : String} : ∀ {caps : List Capture} {acc : Attributes},
    (∀ cap ∈ caps, cap.text ≠ []) → acc.get? key ≠ some "" →
      (caps.foldl addCapture acc).get? key ≠ some ""
  | [], _, _, hacc => hacc
  | cap :: caps, acc, h, hacc => by
    obtain ⟨hcap, h⟩ := List.forall_mem_cons.mp h
    rw [List.foldl_cons]
    refine ne_empty_of_foldl_addCapture h ?_
    by_cases hkey : cap.key = key
    · have hput : (acc.insert cap.key (String.ofList cap.text)).get? key ≠ some "" := by
        rw [Dict.get?_insert, if_pos hkey.symm]
        simpa using hcap
      unfold addCapture
      split
      · exact hput
      · split_ifs
        · exact hacc
        · exact hput
    · rwa [get?_addCapture_of_ne hkey]

theorem ne_empty_of_parsePath {path : Path} {fields : Attributes}
    (h : d.parsePath path = .ok fields) (key : String) : fields.get? key ≠ some "" := by
  obtain ⟨caps, hcaps, rfl⟩ := parsePath_eq_ok.mp h
  obtain ⟨_, _, -, -, hreads⟩ := findEnd_sound hcaps
  exact ne_empty_of_foldl_addCapture (fun cap hcap => (hreads.captures cap hcap).1)
    (by simp [Dict.get?_empty])

end Drs

namespace EntryContext
open Drs Text

/-- What the file says, without the blanks around it. -/
def said (d : Dataset) : Attributes := d.textAttributes.map trim

/-- What the path says. -/
def encoded (c : EntryContext) (path : Path) : Attributes :=
  (c.cv.drs.parsePath path).toOption.getD ∅

/-- The frequency off the time axis, or that of files without one. -/
def axisFrequency (c : EntryContext) (d : Dataset) : Option String :=
  match d.time with
  | none => some c.frequencyKeys.withoutTimeAxis
  | some _ => (Frequency.infer? d.time).map Frequency.name

variable (c : EntryContext) (path : Path) (d : Dataset)

/-- The value that is taken for a key: the first one that there is, be it empty. -/
def taken (key : String) : Option String :=
  if key = "frequency" then
    ((said d).get? "frequency").or (((c.encoded path).get? "frequency").or
      (((said d).get? c.frequencyKeys.key).or
        (((c.encoded path).get? c.frequencyKeys.key).or (c.axisFrequency d))))
  else ((said d).get? key).or ((c.encoded path).get? key)

/-! ### The two steps -/

theorem encoded_ne_empty (key : String) : (c.encoded path).get? key ≠ some "" := by
  unfold encoded
  cases h : c.cv.drs.parsePath path with
  | error e => simp [Except.toOption, Dict.get?_empty]
  | ok fields => exact ne_empty_of_parsePath h key

theorem get?_addFromPath (attributes : Attributes) (key : String) :
    (c.addFromPath path attributes).get? key =
      (attributes.get? key).or ((c.encoded path).get? key) := by
  unfold addFromPath encoded
  cases c.cv.drs.parsePath path with
  | error e => simp [Except.toOption, Dict.get?_empty]
  | ok fields =>
    refine (Dict.get?_foldl_toList (fun old value => old.or (some value))
      (fun acc e k => ?_) fields attributes key).trans ?_
    · simp only
      split_ifs with hcontains hk hk
      · subst hk
        obtain ⟨value, hvalue⟩ := (acc.contains_iff e.1).mp hcontains
        rw [hvalue, Option.some_or]
      · rfl
      · subst hk
        have hnone : acc.get? e.1 = none := by
          simpa [Dict.contains] using hcontains
        rw [Dict.get?_insert, if_pos rfl, hnone, Option.none_or]
      · rw [Dict.get?_insert, if_neg hk]
    · show (fields.get? key).elim _ _ = (attributes.get? key).or (fields.get? key)
      cases fields.get? key with
      | none => exact Option.or_none.symm
      | some value => rfl

theorem settleFrequency_of_unset {attributes : Attributes}
    (h : attributes.get? "frequency" = none) : c.settleFrequency d attributes =
      ((attributes.get? c.frequencyKeys.key).or (c.axisFrequency d)).elim attributes
        (attributes.insert "frequency") := by
  unfold settleFrequency axisFrequency
  rw [if_neg (by simp [Dict.contains, h])]
  cases attributes.get? c.frequencyKeys.key with
  | some value => rfl
  | none =>
    cases d.time with
    | none => rfl
    | some axis => simp only [Option.none_or]; cases Frequency.infer? (some axis) <;> rfl

theorem get?_settleFrequency (attributes : Attributes) (key : String) :
    (c.settleFrequency d attributes).get? key =
      if key = "frequency" then (attributes.get? "frequency").or
        ((attributes.get? c.frequencyKeys.key).or (c.axisFrequency d))
      else attributes.get? key := by
  cases hset : attributes.get? "frequency" with
  | some value =>
    rw [settleFrequency_eq ((attributes.contains_iff _).mpr ⟨value, hset⟩)]
    split_ifs with hkey
    · rw [hkey, hset, Option.some_or]
    · rfl
  | none =>
    rw [c.settleFrequency_of_unset d hset, Option.none_or]
    cases (attributes.get? c.frequencyKeys.key).or (c.axisFrequency d) with
    | some value => exact Dict.get?_insert ..
    | none =>
      split_ifs with hkey
      · rw [hkey]
        exact hset
      · rfl

theorem get?_complete (key : String) :
    (c.complete path d).get? key = c.taken path d key := by
  rw [complete, get?_settleFrequency, taken]
  simp only [get?_addFromPath, said, Option.or_assoc]

/-! ### The order of the sources -/

/-- The value that the sources ask for, where an empty one is none: the file comes before the path,
and for the frequency it comes before both the path and the time axis, under any of the two keys. -/
def prescribed (key : String) : Option String :=
  if key = "frequency" then
    (fieldValue? (said d) "frequency").or ((fieldValue? (said d) c.frequencyKeys.key).or
      ((fieldValue? (c.encoded path) "frequency").or ((c.axisFrequency d).filter (· ≠ ""))))
  else (fieldValue? (said d) key).or (fieldValue? (c.encoded path) key)

/-- Where the entry has another value. -/
inductive Departs : String → Prop
  /-- An empty value in the file is in the way of a later one. -/
  | hidden {key value : String} (hsaid : (said d).get? key = some "")
      (hlater : c.prescribed path d key = some value) : Departs key
  /-- The path is asked before the other key of the file. -/
  | overruled {value other : String} (hsaid : (said d).get? "frequency" = none)
      (hpath : (c.encoded path).get? "frequency" = some value)
      (hother : fieldValue? (said d) c.frequencyKeys.key = some other) (hne : value ≠ other) :
      Departs "frequency"
  /-- An empty value under the other key is in the way of the time axis. -/
  | hiddenAxis {value : String} (hsaid : (said d).get? "frequency" = none)
      (hpath : (c.encoded path).get? "frequency" = none)
      (hother : (said d).get? c.frequencyKeys.key = some "")
      (haxis : c.axisFrequency d = some value) (hne : value ≠ "") : Departs "frequency"
  /-- The other key is looked for in the path as well, before the time axis. -/
  | borrowed {value : String} (hsaid : (said d).get? "frequency" = none)
      (hpath : (c.encoded path).get? "frequency" = none)
      (hother : (said d).get? c.frequencyKeys.key = none)
      (hborrowed : (c.encoded path).get? c.frequencyKeys.key = some value)
      (hne : c.axisFrequency d ≠ some value) : Departs "frequency"

theorem prescribed_frequency : c.prescribed path d "frequency" =
    (fieldValue? (said d) "frequency").or ((fieldValue? (said d) c.frequencyKeys.key).or
      ((fieldValue? (c.encoded path) "frequency").or ((c.axisFrequency d).filter (· ≠ "")))) :=
  if_pos rfl

theorem get?_complete_frequency : (c.complete path d).get? "frequency" =
    ((said d).get? "frequency").or (((c.encoded path).get? "frequency").or
      (((said d).get? c.frequencyKeys.key).or
        (((c.encoded path).get? c.frequencyKeys.key).or (c.axisFrequency d)))) :=
  (c.get?_complete path d _).trans (if_pos rfl)

variable {c path d}

theorem get?_complete_of_said {key value : String} (h : (said d).get? key = some value) :
    (c.complete path d).get? key = some value := by
  rw [get?_complete, taken]
  split_ifs with hkey
  · rw [← hkey, h, Option.some_or]
  · rw [h, Option.some_or]

theorem prescribed_of_said {key value : String} (h : (said d).get? key = some value)
    (hne : value ≠ "") : c.prescribed path d key = some value := by
  have hsaid : fieldValue? (said d) key = some value := fieldValue?_eq_some.mpr ⟨h, hne⟩
  unfold prescribed
  split_ifs with hkey
  · rw [← hkey, hsaid, Option.some_or]
  · rw [hsaid, Option.some_or]

theorem fieldValue?_encoded {key value : String} (h : (c.encoded path).get? key = some value) :
    fieldValue? (c.encoded path) key = some value := by
  refine fieldValue?_eq_some.mpr ⟨h, ?_⟩
  rintro rfl
  exact c.encoded_ne_empty path key h

theorem fieldValue?_of_none {fields : Attributes} {key : String} (h : fields.get? key = none) :
    fieldValue? fields key = none := by
  rw [fieldValue?, h, Option.filter_none]

theorem fieldValue?_of_empty {fields : Attributes} {key : String} (h : fields.get? key = some "") :
    fieldValue? fields key = none := by
  rw [fieldValue?, h, Option.filter_some]
  exact if_neg (by simp)

theorem Departs.ne {key : String} (h : c.Departs path d key) :
    fieldValue? (c.complete path d) key ≠ c.prescribed path d key := by
  intro heq
  cases h with
  -- in each case the value that is taken is known, and is not the prescribed one
  | hidden hsaid hlater =>
    rw [fieldValue?_of_empty (get?_complete_of_said hsaid), hlater] at heq
    cases heq
  | overruled hsaid hpath hother hne =>
    rw [prescribed_frequency, fieldValue?_of_none hsaid, hother, Option.none_or,
      Option.some_or] at heq
    have hget := (fieldValue?_eq_some.mp heq).1
    rw [get?_complete_frequency, hsaid, hpath, Option.none_or, Option.some_or] at hget
    exact hne (Option.some.inj hget)
  | hiddenAxis hsaid hpath hother haxis hne =>
    have hget : (c.complete path d).get? "frequency" = some "" := by
      rw [get?_complete_frequency, hsaid, hpath, hother]
      rfl
    rw [prescribed_frequency, fieldValue?_of_empty hget, fieldValue?_of_none hsaid,
      fieldValue?_of_empty hother, fieldValue?_of_none hpath, haxis,
      Option.filter_some_pos (by simpa using hne)] at heq
    cases heq
  | @borrowed value hsaid hpath hother hborrowed hne =>
    have hget : fieldValue? (c.complete path d) "frequency" = some value := by
      refine fieldValue?_eq_some.mpr
        ⟨?_, (fieldValue?_eq_some.mp (fieldValue?_encoded hborrowed)).2⟩
      rw [get?_complete_frequency, hsaid, hpath, hother, hborrowed]
      rfl
    rw [hget, prescribed_frequency, fieldValue?_of_none hsaid, fieldValue?_of_none hother,
      fieldValue?_of_none hpath] at heq
    exact hne (Option.filter_eq_some_iff.mp heq.symm).1

/-- Without a frequency in the file, the sources come in their order where none of them is in the
way of another. -/
theorem frequency_of_not_departs (hsaid : (said d).get? "frequency" = none)
    (h : ¬c.Departs path d "frequency") :
    fieldValue? (c.complete path d) "frequency" = c.prescribed path d "frequency" := by
  have hget := c.get?_complete_frequency path d
  rw [hsaid, Option.none_or] at hget
  rw [prescribed_frequency, fieldValue?_of_none hsaid, Option.none_or]
  -- the path is asked before the other key of the file, then this key, then the axis
  cases hpath : (c.encoded path).get? "frequency" with
  | some value =>
    have hvalue := fieldValue?_encoded hpath
    rw [hpath, Option.some_or] at hget
    rw [fieldValue?_eq_some.mpr ⟨hget, (fieldValue?_eq_some.mp hvalue).2⟩, hvalue]
    cases hother : fieldValue? (said d) c.frequencyKeys.key with
    | none => rfl
    | some other =>
      by_contra hne
      exact h (.overruled hsaid hpath hother fun heq => hne (congrArg some heq))
  | none =>
    rw [hpath, Option.none_or] at hget
    rw [fieldValue?_of_none hpath, Option.none_or]
    cases hother : (said d).get? c.frequencyKeys.key with
    | some other =>
      rw [hother, Option.some_or] at hget
      by_cases hempty : other = ""
      · subst hempty
        rw [fieldValue?_of_empty hget, fieldValue?_of_empty hother, Option.none_or]
        by_contra hne
        obtain ⟨value, haxis⟩ := Option.ne_none_iff_exists'.mp (Ne.symm hne)
        obtain ⟨haxis, hvalue⟩ := Option.filter_eq_some_iff.mp haxis
        exact h (.hiddenAxis hsaid hpath hother haxis (of_decide_eq_true hvalue))
      · rw [fieldValue?_eq_some.mpr ⟨hget, hempty⟩, fieldValue?_eq_some.mpr ⟨hother, hempty⟩,
          Option.some_or]
    | none =>
      rw [hother, Option.none_or] at hget
      rw [fieldValue?_of_none hother, Option.none_or, fieldValue?, hget]
      cases hborrowed : (c.encoded path).get? c.frequencyKeys.key with
      | none => rfl
      | some value =>
        by_contra hne
        have haxis : c.axisFrequency d ≠ some value := fun heq => hne (by rw [heq]; rfl)
        exact h (.borrowed hsaid hpath hother hborrowed haxis)

theorem eq_of_not_departs {key : String} (h : ¬c.Departs path d key) :
    fieldValue? (c.complete path d) key = c.prescribed path d key := by
  cases hsaid : (said d).get? key with
  | some value =>
    have hget : (c.complete path d).get? key = some value := get?_complete_of_said hsaid
    by_cases hempty : value = ""
    · subst hempty
      rw [fieldValue?_of_empty hget]
      cases hlater : c.prescribed path d key with
      | none => rfl
      | some later => exact absurd (.hidden hsaid hlater) h
    · rw [prescribed_of_said hsaid hempty]
      exact fieldValue?_eq_some.mpr ⟨hget, hempty⟩
  | none =>
    by_cases hkey : key = "frequency"
    · subst hkey
      exact frequency_of_not_departs hsaid h
    · rw [prescribed, if_neg hkey, fieldValue?_of_none hsaid, Option.none_or, fieldValue?,
        fieldValue?, get?_complete, taken, if_neg hkey, hsaid, Option.none_or]

/-! ### Entries -/

variable {t : FileTree} {e : Entry}

/-- What goes into the entry of a file. -/
theorem exists_of_createEntry (h : c.createEntry t path = .done (.ok e)) :
    ∃ d consistency, c.loader t path = .done (.ok d) ∧
      Consistency.validate d (c.complete path d) c.indicators = .done consistency ∧
      e.attributes = c.complete path d ∧ e.cvVersion = some c.cv.version ∧
      e.metadata = (Metadata.ofFile? (c.complete path d) c.cv).toOption ∧
      e.status = .ofStatus (Findings.withTarget
        (Rule.validateAttributes (c.complete path d) c.cv ++ consistency) path.text).summary := by
  obtain ⟨d, made, hash, hload, hmade, rfl⟩ := exists_ofDataset_of_createEntry h
  obtain ⟨consistency, hconsistency, hmade⟩ := Outcome.bind_eq_done.mp hmade
  cases hmade
  exact ⟨d, consistency, hload, hconsistency, rfl, rfl, rfl, rfl⟩

/-- An attribute of an entry is the first value that there is, and it is the prescribed one unless
an empty value is in the way of a later one or the path comes before the file. -/
theorem completed (h : c.createEntry t path = .done (.ok e)) :
    ∃ d, c.loader t path = .done (.ok d) ∧ ∀ key,
      e.attributes.get? key = c.taken path d key ∧
        (fieldValue? e.attributes key = c.prescribed path d key ↔ ¬c.Departs path d key) := by
  obtain ⟨d, _, hload, -, hattributes, -⟩ := exists_of_createEntry h
  rw [hattributes]
  exact ⟨d, hload, fun key => ⟨c.get?_complete path d key,
    fun heq hdeparts => hdeparts.ne heq, eq_of_not_departs⟩⟩

/-! ### A file with the frequency under another key -/

/-- The frequency is that of a file without a time axis. -/
def keyedDataset : Dataset :=
  { ValidationContext.agreeingDataset with
    attributes :=
      (ValidationContext.agreeingDataset.attributes.erase "frequency").insert "freq" (.text "fx") }

/-- A path says the frequency as well. -/
def keyedContext : EntryContext where
  cv := { FileValidation.sampleVocabularies with
    drs := ⟨[⟨"<source_id>", [.item (.key "source_id")]⟩], ⟨"<variable_id>_<frequency>",
      [.item (.key "variable_id"), .item (.literal ['_']), .item (.key "frequency")]⟩⟩ }
  frequencyKeys := ⟨"freq", "fx"⟩
  indicators := []
  loader := fun _ _ => .done (.ok keyedDataset)
  now := default

/-- The path is asked first, and says that the file is a monthly one. -/
theorem completed_sample :
    ∃ e, keyedContext.createEntry (ValidationContext.treeWith "tas_mon") ⟨"s1/tas_mon"⟩ =
        .done (.ok e) ∧
      e.attributes.get? "frequency" = some "mon" ∧ e.attributes.get? "freq" = some "fx" ∧
      fieldValue? e.attributes "frequency" ≠
        keyedContext.prescribed ⟨"s1/tas_mon"⟩ keyedDataset "frequency" ∧
      keyedContext.prescribed ⟨"s1/tas_mon"⟩ keyedDataset "frequency" = some "fx" := by
  have hread : (ValidationContext.treeWith "tas_mon").read ⟨"s1/tas_mon"⟩ = .ok ByteArray.empty :=
    ValidationContext.read_treeWith (by decide) (by decide) (by decide)
      ⟨by decide, by decide, by decide⟩
  obtain ⟨e, he⟩ : ∃ e, keyedContext.createEntry (ValidationContext.treeWith "tas_mon")
      ⟨"s1/tas_mon"⟩ = .done (.ok e) := ⟨_, createEntry_eq_done rfl rfl hread⟩
  obtain ⟨d, hload, hvalues⟩ := completed he
  obtain rfl : keyedDataset = d := Except.ok.inj (Outcome.done.inj hload)
  have hpath : (keyedContext.encoded ⟨"s1/tas_mon"⟩).get? "frequency" = some "mon" := by
    decide +kernel
  have hother : fieldValue? (said keyedDataset) keyedContext.frequencyKeys.key = some "fx" := by
    decide +kernel
  have hdeparts : keyedContext.Departs ⟨"s1/tas_mon"⟩ keyedDataset "frequency" :=
    .overruled (by decide +kernel) hpath hother (by decide)
  refine ⟨e, he, ?_, ?_, fun heq => (hvalues _).2.mp heq hdeparts, by decide +kernel⟩
  · rw [(hvalues _).1]
    decide +kernel
  · rw [(hvalues _).1]
    decide +kernel

end EntryContext
end ForcingData
