import ForcingData.Proofs.Drs.Building
import ForcingData.Proofs.Metadata.Sources

/-! # Sources in the order of their rank

After the sources have been added, there is under every known key the value of the first source
that has one (`first?`), and there is a warning for every later source with a value that a file name
would show otherwise (`warningsAt`): `holds_ofSources`. -/

namespace ForcingData
namespace Layers
open Text

/-- What a path says; what is no path is read as a name. -/
def readPath? (drs : Drs) (path : Path) : Option Attributes :=
  (drs.parsePath path).toOption.or (drs.parseFileName path).toOption

/-- The sources with their names, the first of them first. -/
def ranked (m : Minimum) (d : Dataset) (path? : Option Path) (drs : Drs) :
    List (Origin × Attributes) :=
  [(.arguments, m.attributes), (.content, d.textAttributes)] ++
    ((path?.bind (readPath? drs)).map (Origin.fileName, ·)).toList

/-- The first value under the key that is not empty, and where it comes from. -/
def first? (key : String) (sources : List (Origin × Attributes)) : Option (Origin × String) :=
  sources.findSome? fun s => (Drs.fieldValue? s.2 key).map (s.1, ·)

/-- The warning that one value is used and another one is not. -/
def disagreement (key : String) (kept : Origin × String) (origin : Origin) (value : String) :
    Finding :=
  (Finding.warning sourcesAgreeRule .discrepancy
    (s!"Using {key}={quoted kept.2} from {kept.1.text}, ignoring {key}={quoted value} from "
      ++ origin.text)).withTarget key

/-- The warning about a source, where there may be a value before it. -/
def disagreement? (key : String) (kept? : Option (Origin × String)) (s : Origin × Attributes) :
    Option Finding :=
  kept?.bind fun kept => (Drs.fieldValue? s.2 key).bind fun value =>
    if sameInFileName kept.2 value then none else some (disagreement key kept s.1 value)

/-- The warnings about the values of a key in `sources`, which come after the ones in `before`. -/
def warningsAt (key : String) : List (Origin × Attributes) → List (Origin × Attributes) → Findings
  | _, [] => []
  | before, s :: sources =>
    (disagreement? key (first? key before) s).toList ++ warningsAt key (before ++ [s]) sources

section
variable {key : String} {before sources sources' : List (Origin × Attributes)}

theorem first?_append :
    first? key (sources ++ sources') = (first? key sources).or (first? key sources') :=
  List.findSome?_append

theorem first?_singleton (s : Origin × Attributes) :
    first? key [s] = (Drs.fieldValue? s.2 key).map (s.1, ·) := by
  rw [first?, List.findSome?_cons, List.findSome?_nil]
  cases Drs.fieldValue? s.2 key <;> rfl

theorem warningsAt_append : warningsAt key before (sources ++ sources') =
    warningsAt key before sources ++ warningsAt key (before ++ sources) sources' := by
  induction sources generalizing before with
  | nil => rw [List.nil_append, List.append_nil, warningsAt, List.nil_append]
  | cons s sources ih =>
    rw [List.cons_append, warningsAt, warningsAt, ih, List.append_assoc, List.append_assoc,
      List.singleton_append]

theorem exists_of_first? {kept : Origin × String} (h : first? key sources = some kept) :
    ∃ s ∈ sources, s.1 = kept.1 ∧ Drs.fieldValue? s.2 key = some kept.2 := by
  obtain ⟨s, hs, hkept⟩ := List.exists_of_findSome?_eq_some h
  obtain ⟨value, hv, rfl⟩ := Option.map_eq_some_iff.mp hkept
  exact ⟨s, hs, rfl, hv⟩

theorem disagreement?_eq_some {kept? : Option (Origin × String)} {s : Origin × Attributes}
    {f : Finding} : disagreement? key kept? s = some f ↔ ∃ kept value, kept? = some kept ∧
      Drs.fieldValue? s.2 key = some value ∧ sameInFileName kept.2 value = false ∧
      f = disagreement key kept s.1 value := by
  unfold disagreement?
  simp only [Option.bind_eq_some_iff]
  constructor
  · rintro ⟨kept, hkept, value, hv, hf⟩
    split_ifs at hf with hs
    exact ⟨kept, value, hkept, hv, eq_false_of_ne_true hs, (Option.some.inj hf).symm⟩
  · rintro ⟨kept, value, hkept, hv, hs, hf⟩
    exact ⟨kept, hkept, value, hv, by simp [hs, hf]⟩

theorem mem_warningsAt {f : Finding} (h : f ∈ warningsAt key before sources) : ∃ xs s ys,
    sources = xs ++ s :: ys ∧ disagreement? key (first? key (before ++ xs)) s = some f := by
  induction sources generalizing before with
  | nil => cases h
  | cons s sources ih =>
    rw [warningsAt, List.mem_append, Option.mem_toList] at h
    rcases h with h | h
    · exact ⟨[], s, sources, rfl, by rwa [List.append_nil]⟩
    · obtain ⟨xs, s', ys, rfl, hf⟩ := ih h
      exact ⟨s :: xs, s', ys, rfl, by rwa [List.append_assoc] at hf⟩

/-- A warning names the source that it is about. -/
theorem origin_eq_of_disagreement_eq {kept kept' : Origin × String} {origin origin' : Origin}
    {value value' : String}
    (h : disagreement key kept origin value = disagreement key kept' origin' value') :
    origin = origin' := by
  have hlast : ∀ (kept : Origin × String) (origin : Origin) (value : String),
      (disagreement key kept origin value).message.toList.reverse.take 2 =
        origin.text.toList.reverse.take 2 := fun kept origin value => by
    have hlength : 2 ≤ origin.text.toList.reverse.length := by cases origin <;> decide
    obtain ⟨before, hmessage⟩ : ∃ before,
      (disagreement key kept origin value).message = before ++ origin.text := ⟨_, rfl⟩
    rw [hmessage, String.toList_append, List.reverse_append, List.take_append_of_le_length hlength]
  have htext := hlast kept origin value
  rw [h, hlast kept' origin' value'] at htext
  cases origin <;> cases origin' <;> first | rfl | exact absurd htext (by decide)

theorem count_warningsAt_eq_zero {kept : Origin × String} {origin : Origin} {value : String}
    (h : ∀ s ∈ sources, s.1 ≠ origin) :
    (warningsAt key before sources).count (disagreement key kept origin value) = 0 := by
  refine List.count_eq_zero.mpr fun hmem => ?_
  obtain ⟨xs, s, ys, rfl, hs⟩ := mem_warningsAt hmem
  obtain ⟨_, _, _, _, _, he⟩ := disagreement?_eq_some.mp hs
  exact h s (by simp) (origin_eq_of_disagreement_eq he).symm

end

theorem nodup_ranked (m : Minimum) (d : Dataset) (path? : Option Path) (drs : Drs) :
    ((ranked m d path? drs).map (·.1)).Nodup := by
  unfold ranked
  cases path?.bind (readPath? drs) <;> simp

/-! ### The entries of one key -/

theorem target_warning? {l : Layers} {origin : Origin} {e : String × String} {f : Finding}
    (h : l.warning? origin e = some f) : f.target = e.1 ∧ Metadata.isKnown e.1 = true := by
  unfold warning? at h
  split_ifs at h with hcounts
  obtain ⟨kept, _, h⟩ := Option.bind_eq_some_iff.mp h
  split_ifs at h
  obtain rfl := Option.some.inj h
  rw [counts, Bool.and_eq_true] at hcounts
  exact ⟨rfl, hcounts.1⟩

/-- Of the findings that entries give rise to, those about one key come from its entry. -/
theorem filter_filterMap_entries {w : String × String → Option Finding}
    (hw : ∀ e f, w e = some f → f.target = e.1) (a : Attributes) (key : String) :
    (a.toList.filterMap w).filter (·.target = key) =
      ((a.get? key).bind fun value => w (key, value)).toList := by
  have hnone : ∀ entries : List (String × String), key ∉ entries.map (·.1) →
      (entries.filterMap w).filter (·.target = key) = [] := fun entries hkey => by
    rw [List.filter_eq_nil_iff]
    intro f hf
    obtain ⟨e, he, hf⟩ := List.mem_filterMap.mp hf
    rw [decide_eq_true_eq, hw e f hf]
    rintro rfl
    exact hkey (List.mem_map_of_mem he)
  cases hv : a.get? key with
  | none =>
    refine hnone _ fun hmem => ?_
    have hsome := a.mem_keys.mp hmem
    rw [hv] at hsome
    cases hsome
  | some value =>
    -- only the entry with this key is left, as keys are there once
    obtain ⟨xs, ys, hsplit⟩ := List.append_of_mem (a.mem_toList.mpr hv)
    have hnodup : (a.toList.map (·.1)).Nodup := a.nodup_keys
    rw [hsplit, List.map_append, List.map_cons, List.nodup_append, List.nodup_cons] at hnodup
    obtain ⟨_, ⟨hys, _⟩, hxs⟩ := hnodup
    rw [hsplit, List.filterMap_append, List.filter_append, hnone xs, List.nil_append,
      ← List.singleton_append, List.filterMap_append, List.filter_append, hnone ys hys,
      List.append_nil, Option.bind_some]
    · cases hf : w (key, value) with
      | none => simp [hf]
      | some f => simp [hf, hw _ _ hf]
    · exact fun hmem => hxs key hmem key (List.mem_cons_self ..) rfl

/-! ### Adding a source -/

/-- Under every known key the layers have what the sources say first, and they hold the warnings
about what the other sources say. -/
structure Holds (sources : List (Origin × Attributes)) (l : Layers) : Prop where
  value : ∀ key, Metadata.isKnown key = true → l.get? key = (first? key sources).map (·.2)
  origin : ∀ key, Metadata.isKnown key = true →
    l.origins.get? key = (first? key sources).map (·.1)
  warnings : ∀ key, Metadata.isKnown key = true →
    l.discrepancies.filter (·.target = key) = warningsAt key [] sources
  known : ∀ f ∈ l.discrepancies, Metadata.isKnown f.target = true

theorem holds_empty : empty.Holds [] :=
  ⟨fun _ _ => rfl, fun _ _ => rfl, fun _ _ => rfl, nofun⟩

theorem counts_of_fieldValue? {a : Attributes} {key value : String}
    (hkey : Metadata.isKnown key = true) (hv : Drs.fieldValue? a key = some value) :
    (key, value) ∈ a.toList ∧ counts (key, value) = true := by
  obtain ⟨hget, hne⟩ := Drs.fieldValue?_eq_some.mp hv
  exact ⟨a.mem_toList.mpr hget, by simp [counts, hkey, hne]⟩

theorem not_counts_of_fieldValue? {a : Attributes} {key value : String}
    (hv : Drs.fieldValue? a key = none) (hmem : (key, value) ∈ a.toList) :
    counts (key, value) = false := by
  have hempty : value = "" := by
    by_contra hne
    cases hv.symm.trans (Drs.fieldValue?_eq_some.mpr ⟨a.mem_toList.mp hmem, hne⟩)
  simp [counts, hempty]

/-- The warning about an entry is the one about the source. -/
theorem Holds.warning?_eq {sources : List (Origin × Attributes)} {l : Layers} (h : l.Holds sources)
    {key : String} (hkey : Metadata.isKnown key = true) (s : Origin × Attributes) :
    ((s.2.get? key).bind fun value => l.warning? s.1 (key, value)) =
      disagreement? key (first? key sources) s := by
  have hget := h.value key hkey
  have horigin := h.origin key hkey
  cases hv : s.2.get? key with
  | none => cases first? key sources <;> simp [disagreement?, Drs.fieldValue?, hv]
  | some value =>
    rw [Option.bind_some, warning?, disagreement?]
    by_cases hne : value = ""
    · have hnot : counts (key, value) = false := by simp [counts, hne]
      have hnone : Drs.fieldValue? s.2 key = none := by simp [Drs.fieldValue?, hv, hne]
      rw [hnot, hnone]
      cases first? key sources <;> rfl
    · have hcounts : counts (key, value) = true := by simp [counts, hkey, hne]
      rw [if_pos hcounts, Drs.fieldValue?_eq_some.mpr ⟨hv, hne⟩, hget]
      cases hfirst : first? key sources with
      | none => rfl
      | some kept =>
        rw [hfirst, Option.map_some] at horigin
        simp only [Option.map_some, Option.bind_some, dropped, horigin]
        rfl

theorem Holds.addSource {sources : List (Origin × Attributes)} {l : Layers} (h : l.Holds sources)
    (s : Origin × Attributes) : (l.addSource s.1 s.2).Holds (sources ++ [s]) := by
  have hadded : Added s.1 s.2.toList l (l.addSource s.1 s.2) := added_foldl s.2.nodup_keys
  have hvalue : ∀ key, Metadata.isKnown key = true →
      (l.addSource s.1 s.2).get? key = (first? key (sources ++ [s])).map (·.2) ∧
        (l.addSource s.1 s.2).origins.get? key = (first? key (sources ++ [s])).map (·.1) := by
    intro key hkey
    have hget := h.value key hkey
    have horigin := h.origin key hkey
    rw [first?_append, first?_singleton]
    -- an earlier source has a value, this one is the first to have one, or there still is none
    cases hfirst : first? key sources with
    | some kept =>
      rw [hfirst] at hget horigin
      obtain ⟨hget', horigin'⟩ := hadded.kept key (.inl (by simp [hget]))
      exact ⟨hget'.trans hget, horigin'.trans horigin⟩
    | none =>
      rw [hfirst] at hget horigin
      cases hv : Drs.fieldValue? s.2 key with
      | none =>
        obtain ⟨hget', horigin'⟩ := hadded.kept key <| .inr fun value hmem =>
          not_counts_of_fieldValue? hv hmem
        exact ⟨hget'.trans hget, horigin'.trans horigin⟩
      | some value =>
        obtain ⟨hmem, hcounts⟩ := counts_of_fieldValue? hkey hv
        exact hadded.taken (key, value) hmem hcounts hget
  refine ⟨fun key hkey => (hvalue key hkey).1, fun key hkey => (hvalue key hkey).2,
    fun key hkey => ?_, fun f hf => ?_⟩
  · rw [hadded.discrepancies, List.filter_append, h.warnings key hkey, warningsAt_append,
      filter_filterMap_entries fun e f he => (target_warning? he).1]
    simp only [h.warning?_eq hkey, warningsAt, List.nil_append, List.append_nil]
  · rw [hadded.discrepancies, List.mem_append] at hf
    rcases hf with hf | hf
    · exact h.known f hf
    · obtain ⟨e, _, he⟩ := List.mem_filterMap.mp hf
      obtain ⟨htarget, hknown⟩ := target_warning? he
      rwa [htarget]

theorem holds_ofSources (m : Minimum) (d : Dataset) (path? : Option Path) (drs : Drs) :
    (ofSources m d path? drs).Holds (ranked m d path? drs) := by
  have hdata := (holds_empty.addSource (.arguments, m.attributes)).addSource
    (.content, d.textAttributes)
  rw [List.nil_append] at hdata
  unfold ofSources ranked
  cases path? with
  | none => exact hdata
  | some path =>
    rw [Option.bind_some, readPath?]
    cases hpath : drs.parsePath path with
    | ok fields => simpa [hpath, Except.toOption] using hdata.addSource (.fileName, fields)
    | error e =>
      cases hname : drs.parseFileName path with
      | ok fields =>
        simpa [hpath, hname, Except.toOption] using hdata.addSource (.fileName, fields)
      | error e => simpa [hpath, hname, Except.toOption] using hdata

end Layers
end ForcingData
