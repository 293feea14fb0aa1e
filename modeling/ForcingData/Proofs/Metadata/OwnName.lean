import ForcingData.Proofs.Metadata.Joining
import ForcingData.Proofs.Metadata.Stamp

/-! # A dataset under its own name

Inference for a dataset, and once more for a file with the name that the first outcome prescribes.
The name shows values with some characters replaced. Those that the sources have already are not
taken from it, and those that are inferred get their characters back, but for `keptKeys`. The
outcome is the same (`Renewed`) exactly if none of these is shown otherwise than it is (`Respelt`).
-/

namespace ForcingData

/-- The keys of the values that are made anew for each file. -/
def freshKeys : List String := ["creation_date", "tracking_id", "version"]

namespace Rule
variable {attributes : Attributes} {cv : Vocabularies}

theorem isFail_creationDateFormat : (creationDateFormat.run attributes cv).isFail = false ↔
    ∀ value, attributes.get? "creation_date" = some value →
      isCreationDate value.toList = true := by
  simp only [run, check]
  cases attributes.get? "creation_date" with
  | none => simp [Finding.pass, Finding.isFail]
  | some value =>
    by_cases hdate : isCreationDate value.toList = true <;>
      simp [hdate, Finding.pass, Finding.fail, Finding.isFail]

theorem isFail_trackingIdFormat : (trackingIdFormat.run attributes cv).isFail = false ↔
    ∀ value, attributes.get? "tracking_id" = some value → isTrackingId value = true := by
  simp only [run, check]
  cases attributes.get? "tracking_id" with
  | none => simp [Finding.pass, Finding.isFail]
  | some value =>
    by_cases hid : isTrackingId value = true <;>
      simp [hid, Finding.pass, Finding.fail, Finding.isFail]

/-- Nothing but the formats depends on values that are made anew. -/
theorem notMem_freshKeys_of_reads : ∀ r ∈ all, r ≠ creationDateFormat → r ≠ trackingIdFormat →
    ∀ key ∈ r.reads, key ∉ freshKeys := by
  decide

end Rule

namespace Metadata
open Rule
variable {a b : Attributes} {cv : Vocabularies} {m : Metadata} {key value : String}

/-! ### The gate -/

theorem get?_eq_some_of_ofAttributes? (h : ofAttributes? a cv = .ok m)
    (hv : m.get? key = some value) : a.get? key = some value ∧ isKnown key = true ∧ value ≠ "" := by
  obtain ⟨_, _, rfl⟩ := ofAttributes?_eq_ok.mp h
  rw [get?, get?_knownAttributes, Option.filter_eq_some_iff] at hv
  simpa using hv

theorem isFail_of_ofAttributes? (h : ofAttributes? a cv = .ok m) {r : Rule} (hr : r ∈ all) :
    (r.run m.attributes cv).isFail = false := by
  obtain ⟨_, hrules, rfl⟩ := ofAttributes?_eq_ok.mp h
  exact hasFailures_runAll.mp hrules r hr

theorem isCreationDate_of_ofAttributes? (h : ofAttributes? a cv = .ok m)
    (hv : m.get? "creation_date" = some value) : isCreationDate value.toList = true :=
  isFail_creationDateFormat.mp (isFail_of_ofAttributes? h (by decide)) value hv

theorem isTrackingId_of_ofAttributes? (h : ofAttributes? a cv = .ok m)
    (hv : m.get? "tracking_id" = some value) : isTrackingId value = true :=
  isFail_trackingIdFormat.mp (isFail_of_ofAttributes? h (by decide)) value hv

/-- Attributes that get through do so with other well formed values for those made anew. -/
theorem ofAttributes?_of_renewed (h : ofAttributes? a cv = .ok m)
    (hsame : ∀ key ∉ freshKeys, b.get? key = a.get? key)
    (hdate : ∀ value ≠ "", b.get? "creation_date" = some value →
      isCreationDate value.toList = true)
    (hid : ∀ value ≠ "", b.get? "tracking_id" = some value → isTrackingId value = true) :
    ofAttributes? b cv = .ok ⟨knownAttributes b, cv.version⟩ := by
  obtain ⟨hmissing, hrules, _⟩ := ofAttributes?_eq_ok.mp h
  refine ofAttributes?_eq_ok.mpr ⟨?_, hasFailures_runAll.mpr fun r hr => ?_, rfl⟩
  · rw [← hmissing]
    refine List.filter_congr fun key hkey => ?_
    have hnot : ∀ key ∈ requiredAttributes, key ∉ freshKeys := by decide
    rw [hsame key (hnot key hkey)]
  · have hvalue : ∀ key value, (knownAttributes b).get? key = some value →
        value ≠ "" ∧ b.get? key = some value := fun key value hv => by
      rw [get?_knownAttributes, Option.filter_eq_some_iff, Bool.and_eq_true] at hv
      exact ⟨by simpa using hv.2.2, hv.1⟩
    -- the two rules on what is made anew pass by assumption, all others read the same values
    by_cases hrdate : r = creationDateFormat
    · subst hrdate
      exact isFail_creationDateFormat.mpr fun value hv =>
        hdate value (hvalue _ value hv).1 (hvalue _ value hv).2
    · by_cases hrid : r = trackingIdFormat
      · subst hrid
        exact isFail_trackingIdFormat.mpr fun value hv =>
          hid value (hvalue _ value hv).1 (hvalue _ value hv).2
      · have hcheck : r.check (knownAttributes b) cv = r.check (knownAttributes a) cv :=
          check_eq_of_reads (fun key hkey => by
            rw [get?_knownAttributes, get?_knownAttributes,
              hsame key (notMem_freshKeys_of_reads r hr hrdate hrid key hkey)]) cv
        rw [run, hcheck]
        exact hasFailures_runAll.mp hrules r hr

end Metadata

/-! ### What can not stand in a name -/

namespace Drs

/-- A colon shows in no file name. -/
theorem notMem_renderedKeys {d : Drs} {fields : Attributes} {spec : PathSpec}
    (hb : d.buildPath fields = .ok spec) {key : String}
    (hcolon : ∀ value, fields.get? key = some value → ':' ∈ value.toList) :
    key ∉ d.renderedKeys fields := fun hkey => by
  obtain ⟨value, hv, _, hchars⟩ := mem_renderedKeys_chars hb hkey
  have hmem : ':' ∈ (applyKnownReplacements value).toList := by
    rw [applyKnownReplacements, String.toList_ofList]
    exact List.mem_map.mpr ⟨':', hcolon value hv, by decide⟩
  exact absurd (hchars ':' hmem) (by decide)

end Drs

namespace Rule

theorem colon_mem_of_isCreationDate {cs : List Char} (h : isCreationDate cs = true) :
    ':' ∈ cs := by
  obtain ⟨stamp, hcs⟩ := isCreationDate_iff.mp h
  simp [hcs, stamp.toList_text]

theorem colon_mem_of_isTrackingId {s : String} (h : isTrackingId s = true) : ':' ∈ s.toList := by
  unfold isTrackingId at h
  split at h
  · rename_i rest hprefix
    rw [Text.dropPrefix?_eq_some.mp hprefix]
    exact List.mem_append_left _ (by decide)
  · cases h

end Rule

theorem Metadata.creationDate_notMem_renderedKeys {a : Attributes} {cv : Vocabularies}
    {m : Metadata} {d : Drs} {spec : Drs.PathSpec} (h : ofAttributes? a cv = .ok m)
    (hb : d.buildPath m.attributes = .ok spec) :
    "creation_date" ∉ d.renderedKeys m.attributes :=
  Drs.notMem_renderedKeys hb fun _ hv =>
    Rule.colon_mem_of_isCreationDate (isCreationDate_of_ofAttributes? h hv)

theorem Metadata.trackingId_notMem_renderedKeys {a : Attributes} {cv : Vocabularies}
    {m : Metadata} {d : Drs} {spec : Drs.PathSpec} (h : ofAttributes? a cv = .ok m)
    (hb : d.buildPath m.attributes = .ok spec) :
    "tracking_id" ∉ d.renderedKeys m.attributes :=
  Drs.notMem_renderedKeys hb fun _ hv =>
    Rule.colon_mem_of_isTrackingId (isTrackingId_of_ofAttributes? h hv)

namespace Layers

theorem applyKnownReplacements_versionOf (creationDate : String) :
    Drs.applyKnownReplacements (versionOf creationDate) = versionOf creationDate := by
  refine Drs.applyKnownReplacements_eq fun c hc => ?_
  rw [versionOf, String.toList_ofList] at hc
  have hdigit : c.isDigit = true := (List.mem_filter.mp hc).2
  refine ⟨?_, ?_⟩ <;>
  · rintro rfl
    exact absurd hdigit (by decide)

theorem versionOf_ne_empty {creationDate : String}
    (h : Rule.isCreationDate creationDate.toList = true) : versionOf creationDate ≠ "" := by
  obtain ⟨stamp, hdate⟩ := Rule.isCreationDate_iff.mp h
  rw [String.toList_injective hdate, stamp.versionOf_text]
  exact stamp.day_ne_empty

/-! ### Two runs -/

/-- The values of keys that have none. -/
def takenFrom (read : Attributes) (l : Layers) (key : String) : Option String :=
  if l.get? key = none then read.get? key else none

theorem takenFrom_eq_some {d : Drs} {fields read : Attributes} {l : Layers} {key w : String}
    (hshown : d.Shown fields read) (h : takenFrom read l key = some w) :
    l.get? key = none ∧ key ∈ d.renderedKeys fields ∧
      (fields.get? key).map Drs.applyKnownReplacements = some w := by
  unfold takenFrom at h
  split_ifs at h with hnone
  rw [hshown key] at h
  split_ifs at h with hkey
  exact ⟨hnone, hkey, h⟩

/-- Where all values of the file name count, and are shown for the ones that were there before. -/
theorem joins_of_added {read : Attributes} {l l' : Layers} (hl : l.Sourced)
    (hadd : Added .fileName read.toList l l')
    (hread : ∀ e ∈ read.toList, counts e = true ∧
      ∀ kept, l.get? e.1 = some kept → sameInFileName kept e.2 = true) :
    Joins (takenFrom read l) [] l l' where
  discrepancies := by
    have hnone : read.toList.filterMap (l.warning? .fileName) = [] :=
      List.filterMap_eq_nil_iff.mpr fun e he => by
        rw [warning?, if_pos (hread e he).1, Option.bind_eq_none_iff]
        exact fun kept hkept => if_pos ((hread e he).2 kept hkept)
    rw [hadd.discrepancies, hnone, List.append_nil]
  settled := nofun
  same key _ htaken := by
    refine hadd.kept key ?_
    by_cases hnone : l.get? key = none
    · rw [takenFrom, if_pos hnone] at htaken
      refine .inr fun value hmem => ?_
      cases htaken.symm.trans (read.mem_toList.mp hmem)
    · exact .inl hnone
  pending key _ value htaken := by
    unfold takenFrom at htaken
    split_ifs at htaken with hnone
    have hmem := read.mem_toList.mpr htaken
    exact ⟨hl.unset key hnone, hadd.taken (key, value) hmem (hread _ hmem).1 hnone⟩

theorem get?_settleFresh_of_notMem {l : Layers} {key : String} (fresh : Fresh)
    (h : key ∉ ["Conventions", "creation_date", "tracking_id", "version"]) :
    (l.settleFresh fresh).get? key = l.get? key := keeps_settleFresh key h

theorem get?_settleFresh_conventions (fresh : Fresh) (l : Layers) :
    (l.settleFresh fresh).get? "Conventions" =
      (l.infer "Conventions" defaultConventions).get? "Conventions" := by
  unfold settleFresh
  simp only
  rw [(onlyAt_infer ..).get?_eq _ (by decide), (onlyAt_infer ..).get?_eq _ (by decide),
    (onlyAt_infer ..).get?_eq _ (by decide)]

theorem get?_settleFresh_creationDate {l : Layers} (fresh : Fresh)
    (h : l.get? "creation_date" = none) :
    (l.settleFresh fresh).get? "creation_date" = some fresh.creationDate := by
  unfold settleFresh
  simp only
  rw [(onlyAt_infer ..).get?_eq _ (by decide), (onlyAt_infer ..).get?_eq _ (by decide)]
  refine get?_infer ?_ _
  rw [(onlyAt_infer ..).get?_eq _ (by decide), h]

theorem get?_settleFresh_trackingId {l : Layers} (fresh : Fresh)
    (h : l.get? "tracking_id" = none) :
    (l.settleFresh fresh).get? "tracking_id" = some fresh.trackingId := by
  unfold settleFresh
  simp only
  rw [(onlyAt_infer ..).get?_eq _ (by decide)]
  refine get?_infer ?_ _
  rw [(onlyAt_infer ..).get?_eq _ (by decide), (onlyAt_infer ..).get?_eq _ (by decide), h]

/-- Values that are shown as they are do not give way to each other. -/
theorem get?_infer_of_replaced {l : Layers} {key existing value : String}
    (hv : l.get? key = some existing) (he : Drs.applyKnownReplacements existing = existing)
    (hvalue : Drs.applyKnownReplacements value = value) :
    (l.infer key value).get? key = some existing := by
  unfold infer
  rw [hv]
  simp only [sameInFileName, he, hvalue, Bool.and_eq_true, decide_eq_true_eq]
  rw [if_neg fun h => h.1.2 h.2, hv]

theorem get?_settleFresh_version {l : Layers} (fresh : Fresh)
    (h : ∀ w, l.get? "version" = some w → Drs.applyKnownReplacements w = w) :
    (l.settleFresh fresh).get? "version" = some ((l.get? "version").getD
      (versionOf (((l.settleFresh fresh).get? "creation_date").getD ""))) := by
  unfold settleFresh
  simp only
  rw [(onlyAt_infer _ "version" _).get?_eq "creation_date" (by decide)]
  generalize hstamped : ((l.infer "Conventions" defaultConventions).infer "creation_date"
    fresh.creationDate).infer "tracking_id" fresh.trackingId = stamped
  have hversion : stamped.get? "version" = l.get? "version" := by
    rw [← hstamped, (onlyAt_infer ..).get?_eq _ (by decide),
      (onlyAt_infer ..).get?_eq _ (by decide), (onlyAt_infer ..).get?_eq _ (by decide)]
  rw [← hversion] at h ⊢
  cases hv : stamped.get? "version" with
  | none => exact get?_infer hv _
  | some w => exact get?_infer_of_replaced hv (h w hv) (applyKnownReplacements_versionOf _)

/-- A run without a file name and one with values from it, side by side to where values are made
anew. What is taken from the name shows what the first run ends with; a creation date and a tracking
id show in no name. -/
structure Twice (m : Minimum) (d : Dataset) (cv : Vocabularies) (indicators : List String)
    (path : Path) (fresh : Fresh) (taken : String → Option String) (l l' : Layers) : Prop where
  start : Joins taken [] (ofSources m d none cv.drs) (ofSources m d (some path) cv.drs)
  first : Settles m d cv indicators (ofSources m d none cv.drs) l
  second : Settles m d cv indicators (ofSources m d (some path) cv.drs) l'
  finish : Joins taken settledKeys l l'
  shown : ∀ key w, taken key = some w →
    ((l.settleFresh fresh).get? key).map Drs.applyKnownReplacements = some w
  creationDate : taken "creation_date" = none
  trackingId : taken "tracking_id" = none

namespace Twice
variable {m : Minimum} {d : Dataset} {cv : Vocabularies} {indicators : List String} {path : Path}
  {taken : String → Option String} {l l' : Layers} {fresh : Fresh} {key : String}
  (h : Twice m d cv indicators path fresh taken l l') (fresh' : Fresh)
include h

/-- A value that some source has is the same in both runs, whatever is made anew. -/
theorem get?_of_supplied (hknown : Metadata.isKnown key = true)
    (hs : Supplied m d none cv.drs key) : ∃ value,
      (l.settleFresh fresh).get? key = some value ∧
        (l'.settleFresh fresh').get? key = some value := by
  obtain ⟨value, hv⟩ := Option.ne_none_iff_exists'.mp ((supplied_iff hknown).mp hs)
  have htaken : taken key = none := Option.eq_none_iff_forall_ne_some.mpr fun w hw => by
    cases (h.start.pending key List.not_mem_nil w hw).1.1.symm.trans hv
  obtain ⟨hget, horigin⟩ := h.start.same key List.not_mem_nil htaken
  have hsourced : (ofSources m d none cv.drs).Sourced := sourced_ofSources
  have hstays' : (ofSources m d (some path) cv.drs).Stays key value :=
    ⟨hget.trans hv, fun _ => horigin ▸ hsourced.elsewhere key⟩
  exact ⟨value, (retains_settleFresh _ _ _ _ (h.first.retains _ _ (hsourced.stays hv))).1,
    (retains_settleFresh _ _ _ _ (h.second.retains _ _ hstays')).1⟩

/-- Before values are made anew, the keys for them are as the sources left them. -/
theorem get?_eq_none (hkey : key ∉ settledKeys) (hs : ¬Supplied m d none cv.drs key)
    (htaken : taken key = none) : l.get? key = none ∧ l'.get? key = none := by
  have hv := (unset_ofSources hs).1
  have hget := (h.start.same key List.not_mem_nil htaken).1
  exact ⟨(h.first.keeps key hkey).trans hv, (h.second.keeps key hkey).trans (hget.trans hv)⟩

theorem discrepancies_eq :
    (l'.settleFresh fresh').discrepancies = (l.settleFresh fresh).discrepancies := by
  rw [discrepancies_settleFresh, discrepancies_settleFresh, h.finish.discrepancies]

theorem get?_eq (hkey : key ∉ freshKeys) :
    (l'.settleFresh fresh').get? key = (l.settleFresh fresh).get? key := by
  by_cases hconventions : key = "Conventions"
  · subst hconventions
    rw [get?_settleFresh_conventions, get?_settleFresh_conventions]
    refine (h.finish.infer (by decide) fun w htaken => ?_).settled _ (List.mem_cons_self ..)
    rw [← get?_settleFresh_conventions fresh]
    exact h.shown _ w htaken
  · have hnot : key ∉ ["Conventions", "creation_date", "tracking_id", "version"] :=
      fun hmem => (List.mem_cons.mp hmem).elim hconventions hkey
    rw [get?_settleFresh_of_notMem _ hnot, get?_settleFresh_of_notMem _ hnot]
    by_cases hsettled : key ∈ settledKeys
    · exact h.finish.settled key hsettled
    · cases htaken : taken key with
      | none => exact (h.finish.same key hsettled htaken).1
      | some w =>
        -- no step infers this key, so there was no value to show
        have hw := h.shown key w htaken
        rw [get?_settleFresh_of_notMem _ hnot, (h.finish.pending key hsettled w htaken).1.1] at hw
        cases hw

/-! ### What is made anew -/

theorem get?_creationDate (hs : ¬Supplied m d none cv.drs "creation_date") :
    (l'.settleFresh fresh').get? "creation_date" = some fresh'.creationDate :=
  get?_settleFresh_creationDate fresh' (h.get?_eq_none (by decide) hs h.creationDate).2

theorem get?_trackingId (hs : ¬Supplied m d none cv.drs "tracking_id") :
    (l'.settleFresh fresh').get? "tracking_id" = some fresh'.trackingId :=
  get?_settleFresh_trackingId fresh' (h.get?_eq_none (by decide) hs h.trackingId).2

theorem get?_version_of_taken {w : String} (htaken : taken "version" = some w) :
    (l'.settleFresh fresh').get? "version" = (l.settleFresh fresh).get? "version" := by
  obtain ⟨hunset, hget, _⟩ := h.finish.pending "version" (by decide) w htaken
  have hw := h.shown _ w htaken
  have hfirst := get?_settleFresh_version fresh (l := l) fun v hv => by
    cases hunset.1.symm.trans hv
  rw [hfirst, hunset.1, Option.getD_none, Option.map_some,
    applyKnownReplacements_versionOf] at hw
  have hsecond := get?_settleFresh_version fresh' (l := l') fun v hv => by
    rw [hget, ← hw] at hv
    obtain rfl := Option.some.inj hv
    exact applyKnownReplacements_versionOf _
  rw [hsecond, hget, hfirst, hunset.1, ← hw, Option.getD_some, Option.getD_none]

/-- Without a version or a date in the sources, and none in the name, the version is a new one. -/
theorem get?_version : (l'.settleFresh fresh').get? "version" =
      (l.settleFresh fresh).get? "version" ∨
    ¬Supplied m d none cv.drs "version" ∧ ¬Supplied m d none cv.drs "creation_date" ∧
      (l'.settleFresh fresh').get? "version" = some (versionOf fresh'.creationDate) := by
  cases htaken : taken "version" with
  | some w => exact .inl (h.get?_version_of_taken fresh' htaken)
  | none =>
    by_cases hs : Supplied m d none cv.drs "version"
    · obtain ⟨value, hfirst, hsecond⟩ := h.get?_of_supplied fresh' (by decide) hs
      exact .inl (hsecond.trans hfirst.symm)
    · obtain ⟨hl, hl'⟩ := h.get?_eq_none (by decide) hs htaken
      have hfirst := get?_settleFresh_version fresh (l := l) fun v hv => by
        cases hl.symm.trans hv
      have hsecond := get?_settleFresh_version fresh' (l := l') fun v hv => by
        cases hl'.symm.trans hv
      rw [hl] at hfirst
      rw [hl'] at hsecond
      by_cases hdate : Supplied m d none cv.drs "creation_date"
      · obtain ⟨date, hold, hnew⟩ := h.get?_of_supplied fresh' (by decide) hdate
        rw [hfirst, hsecond, hold, hnew]
        exact .inl rfl
      · rw [h.get?_creationDate fresh' hdate] at hsecond
        exact .inr ⟨hs, hdate, hsecond⟩

/-- What gets through the first time does so the second time. -/
theorem ofAttributes? {metadata : Metadata}
    (hm : Metadata.ofAttributes? (l.settleFresh fresh).values cv = .ok metadata)
    (hdate : Rule.isCreationDate fresh'.creationDate.toList = true)
    (hid : Rule.isTrackingId fresh'.trackingId = true) :
    Metadata.ofAttributes? (l'.settleFresh fresh').values cv =
      .ok ⟨Metadata.knownAttributes (l'.settleFresh fresh').values, cv.version⟩ := by
  refine Metadata.ofAttributes?_of_renewed hm (fun key hkey => h.get?_eq fresh' hkey)
    (fun value hne hv => ?_) fun value hne hv => ?_
  · by_cases hs : Supplied m d none cv.drs "creation_date"
    · obtain ⟨old, hold, hnew⟩ := h.get?_of_supplied fresh' (by decide) hs
      obtain rfl := Option.some.inj (hnew.symm.trans hv)
      exact Metadata.isCreationDate_of_ofAttributes? hm
        (Metadata.get?_of_ofAttributes? hm (by decide) hne hold)
    · obtain rfl := Option.some.inj ((h.get?_creationDate fresh' hs).symm.trans hv)
      exact hdate
  · by_cases hs : Supplied m d none cv.drs "tracking_id"
    · obtain ⟨old, hold, hnew⟩ := h.get?_of_supplied fresh' (by decide) hs
      obtain rfl := Option.some.inj (hnew.symm.trans hv)
      exact Metadata.isTrackingId_of_ofAttributes? hm
        (Metadata.get?_of_ofAttributes? hm (by decide) hne hold)
    · obtain rfl := Option.some.inj ((h.get?_trackingId fresh' hs).symm.trans hv)
      exact hid

end Twice
end Layers

namespace Inferred
open Layers
variable {m : Minimum} {d : Dataset} {path? : Option Path} {cv : Vocabularies}
  {indicators : List String} {fresh fresh' : Fresh} {i i' : Inferred} {spec : Drs.PathSpec}

/-- The second outcome is the first one, but for what had to be made anew. -/
structure Renewed (m : Minimum) (d : Dataset) (drs : Drs) (fresh : Fresh) (i i' : Inferred) :
    Prop where
  discrepancies : i'.discrepancies = i.discrepancies
  same : ∀ key, key ∉ freshKeys ∨ Supplied m d none drs key →
    i'.metadata.get? key = i.metadata.get? key
  creationDate : ¬Supplied m d none drs "creation_date" →
    i'.metadata.get? "creation_date" = some fresh.creationDate
  trackingId : ¬Supplied m d none drs "tracking_id" →
    i'.metadata.get? "tracking_id" = some fresh.trackingId
  version : i'.metadata.get? "version" = i.metadata.get? "version" ∨
    ¬Supplied m d none drs "version" ∧ ¬Supplied m d none drs "creation_date" ∧
      i'.metadata.get? "version" = some (versionOf fresh.creationDate)

/-- The file name shows an inferred value otherwise than it is, and does not let go of it. -/
structure Respelt (m : Minimum) (d : Dataset) (drs : Drs) (i : Inferred) (key : String) :
    Prop where
  kept : key ∈ keptKeys
  rendered : key ∈ drs.renderedKeys i.metadata.attributes
  unsupplied : ¬Supplied m d none drs key
  differs : (i.metadata.get? key).map Drs.applyKnownReplacements ≠ i.metadata.get? key

/-- With the name the sources have what it shows, and otherwise nothing new. -/
theorem exists_joins {directory fileName : String}
    (hd : Drs.ofTemplates? directory fileName = .ok cv.drs) (hs : cv.drs.nameOnly.WellSeparated)
    (h : ofMinimum m d none cv indicators fresh = .done (.ok i))
    (hb : cv.drs.buildPath i.metadata.attributes = .ok spec) :
    ∃ read, cv.drs.Shown i.metadata.attributes read ∧
      Joins (takenFrom read (ofSources m d none cv.drs)) [] (ofSources m d none cv.drs)
        (ofSources m d (some ⟨spec.fileName⟩) cv.drs) := by
  obtain ⟨l, hsettles, hm, _⟩ := ofMinimum_eq_ok.mp h
  obtain ⟨e, hpath⟩ := Drs.exists_parsePath_fileName hs hb (Drs.ofTemplates?_eq_ok hd).1
  have hshown := Drs.shown_of_parseFileName hs hb
  rw [ofSources_of_parsePath_error hpath]
  generalize (cv.drs.parseFileName ⟨spec.fileName⟩).toOption.getD ∅ = read at hshown ⊢
  refine ⟨read, hshown, joins_of_added sourced_ofSources (added_foldl read.nodup_keys) ?_⟩
  rintro ⟨key, w⟩ hmem
  have hw := (hshown key).symm.trans (read.mem_toList.mp hmem)
  split_ifs at hw with hkey
  obtain ⟨value, hvalue, rfl⟩ := Option.map_eq_some_iff.mp hw
  obtain ⟨hfinal, hknown, hne⟩ := Metadata.get?_eq_some_of_ofAttributes? hm hvalue
  refine ⟨?_, fun kept hkept => ?_⟩
  · simp [counts, hknown, Drs.applyKnownReplacements_ne_empty hne]
  · -- a value that is there from the beginning is the one that the name shows
    have hend := retains_settleFresh fresh _ _ _
      (hsettles.retains _ _ (sourced_ofSources.stays hkept))
    obtain rfl := Option.some.inj (hend.1.symm.trans hfinal)
    simp [sameInFileName, Drs.applyKnownReplacements_idem]

section
variable {directory fileName : String} (hd : Drs.ofTemplates? directory fileName = .ok cv.drs)
  (hs : cv.drs.nameOnly.WellSeparated)
  (h : ofMinimum m d none cv indicators fresh = .done (.ok i))
  (hb : cv.drs.buildPath i.metadata.attributes = .ok spec)
include hd hs h hb

theorem get?_of_respelt {key : String} (hr : Respelt m d cv.drs i key)
    (h' : ofMinimum m d (some ⟨spec.fileName⟩) cv indicators fresh' = .done (.ok i')) :
    i'.metadata.get? key = (i.metadata.get? key).map Drs.applyKnownReplacements := by
  obtain ⟨read, hshown, hj⟩ := exists_joins hd hs h hb
  obtain ⟨l, _, hm, _⟩ := ofMinimum_eq_ok.mp h
  obtain ⟨l', hsecond, hm', _⟩ := ofMinimum_eq_ok.mp h'
  obtain ⟨value, hvalue, hne, _⟩ := Drs.mem_renderedKeys_chars hb hr.rendered
  have htaken : takenFrom read (ofSources m d none cv.drs) key =
      some (Drs.applyKnownReplacements value) := by
    rw [takenFrom, if_pos (unset_ofSources hr.unsupplied).1, hshown key, if_pos hr.rendered, hvalue]
    rfl
  have hfixed : ∀ key ∈ keptKeys, key ∉ inferredKeys := by decide
  have hstays : (ofSources m d (some ⟨spec.fileName⟩) cv.drs).Stays key
      (Drs.applyKnownReplacements value) :=
    ⟨(hj.pending key List.not_mem_nil _ htaken).2.1, fun hmem => absurd hmem (hfixed key hr.kept)⟩
  have hend := retains_settleFresh fresh' _ _ _ (hsecond.retains _ _ hstays)
  rw [Metadata.get?_of_ofAttributes? hm' (Metadata.get?_eq_some_of_ofAttributes? hm hvalue).2.1
    (Drs.applyKnownReplacements_ne_empty hne) hend.1]
  exact (congrArg (Option.map _) hvalue).symm

theorem exists_twice (hkept : ∀ key, ¬Respelt m d cv.drs i key) :
    ∃ taken l l', Twice m d cv indicators ⟨spec.fileName⟩ fresh taken l l' ∧
      Metadata.ofAttributes? (l.settleFresh fresh).values cv = .ok i.metadata ∧
      i.discrepancies = (l.settleFresh fresh).discrepancies := by
  obtain ⟨read, hshown, hj⟩ := exists_joins hd hs h hb
  obtain ⟨l, hfirst, hm, hdiscrepancies⟩ := ofMinimum_eq_ok.mp h
  have htaken : ∀ key w, takenFrom read (ofSources m d none cv.drs) key = some w →
      (ofSources m d none cv.drs).get? key = none ∧
        key ∈ cv.drs.renderedKeys i.metadata.attributes ∧
        ∃ value, i.metadata.get? key = some value ∧
          (l.settleFresh fresh).get? key = some value ∧ Metadata.isKnown key = true ∧
          Drs.applyKnownReplacements value = w := fun key w hw => by
    obtain ⟨hnone, hrendered, hmap⟩ := takenFrom_eq_some hshown hw
    obtain ⟨value, hvalue, hw⟩ := Option.map_eq_some_iff.mp hmap
    obtain ⟨hfinal, hknown, _⟩ := Metadata.get?_eq_some_of_ofAttributes? hm hvalue
    exact ⟨hnone, hrendered, value, hvalue, hfinal, hknown, hw⟩
  have hread : ∀ key w, takenFrom read (ofSources m d none cv.drs) key = some w →
      ((l.settleFresh fresh).get? key).map Drs.applyKnownReplacements = some w :=
    fun key w hw => by
      obtain ⟨_, _, value, _, hfinal, _, hvalue⟩ := htaken key w hw
      rw [hfinal, ← hvalue]
      rfl
  have hlater : ∀ key ∈ settledKeys, (l.settleFresh fresh).get? key = l.get? key :=
    fun key hkey => get?_settleFresh_of_notMem fresh <| by
      have hnot : ∀ key ∈ settledKeys,
        key ∉ ["Conventions", "creation_date", "tracking_id", "version"] := by decide
      exact hnot key hkey
  obtain ⟨l', hsecond, hj'⟩ := hj.settles hfirst
    (fun key hkey w hw => by
      rw [← hlater key hkey]
      exact hread key w hw)
    (fun key hkey w hw => by
      obtain ⟨hnone, hrendered, value, hvalue, hfinal, hknown, rfl⟩ := htaken key w hw
      rw [← hlater key (List.mem_append_right _ hkey), hfinal]
      -- a value that the name shows otherwise would be one of the respelt ones
      by_contra hne
      refine hkept key ⟨hkey, hrendered, fun hsupplied => ?_, ?_⟩
      · exact (supplied_iff hknown).mp hsupplied hnone
      · rw [hvalue]
        exact fun he => hne he.symm)
  refine ⟨_, l, l', ⟨hj, hfirst, hsecond, hj', hread, ?_, ?_⟩, hm, hdiscrepancies⟩
  · exact Option.eq_none_iff_forall_ne_some.mpr fun w hw =>
      Metadata.creationDate_notMem_renderedKeys hm hb (htaken _ w hw).2.1
  · exact Option.eq_none_iff_forall_ne_some.mpr fun w hw =>
      Metadata.trackingId_notMem_renderedKeys hm hb (htaken _ w hw).2.1

/-- Without a value that is respelt the second outcome is there, and is the first one. -/
theorem exists_renewed (hkept : ∀ key, ¬Respelt m d cv.drs i key)
    (hdate : Rule.isCreationDate fresh'.creationDate.toList = true)
    (hid : Rule.isTrackingId fresh'.trackingId = true) :
    ∃ i', ofMinimum m d (some ⟨spec.fileName⟩) cv indicators fresh' = .done (.ok i') ∧
      Renewed m d cv.drs fresh' i i' := by
  obtain ⟨taken, l, l', ht, hm, hdiscrepancies⟩ := exists_twice hd hs h hb hkept
  have hm' := ht.ofAttributes? fresh' hm hdate hid
  have hsame : ∀ key, (l'.settleFresh fresh').get? key = (l.settleFresh fresh).get? key →
      (Metadata.knownAttributes (l'.settleFresh fresh').values).get? key =
        i.metadata.get? key := fun key heq => by
    obtain ⟨_, _, hi⟩ := Metadata.ofAttributes?_eq_ok.mp hm
    rw [hi, Metadata.get?, Metadata.get?_knownAttributes, Metadata.get?_knownAttributes]
    exact congrArg (Option.filter _) heq
  refine ⟨⟨_, (l'.settleFresh fresh').discrepancies⟩,
    ofMinimum_eq_ok.mpr ⟨l', ht.second, hm', rfl⟩, ?_, fun key hkey => ?_, fun hs => ?_,
    fun hs => ?_, ?_⟩
  · exact (ht.discrepancies_eq fresh').trans hdiscrepancies.symm
  · -- a fresh key has its value from a source, all others are settled before
    by_cases hfresh : key ∈ freshKeys
    · have hknown : ∀ key ∈ freshKeys, Metadata.isKnown key = true := by decide
      obtain ⟨value, hold, hnew⟩ := ht.get?_of_supplied fresh' (hknown key hfresh)
        (hkey.resolve_left fun hnot => hnot hfresh)
      exact hsame key (hnew.trans hold.symm)
    · exact hsame key (ht.get?_eq fresh' hfresh)
  · refine Metadata.get?_of_ofAttributes? hm' (by decide) ?_ (ht.get?_creationDate fresh' hs)
    rintro he
    rw [he] at hdate
    cases hdate
  · refine Metadata.get?_of_ofAttributes? hm' (by decide) ?_ (ht.get?_trackingId fresh' hs)
    rintro he
    rw [he] at hid
    cases hid
  · rcases ht.get?_version fresh' with heq | ⟨hversion, hcreation, hnew⟩
    · exact .inl (hsame _ heq)
    · exact .inr ⟨hversion, hcreation, Metadata.get?_of_ofAttributes? hm' (by decide)
        (versionOf_ne_empty hdate) hnew⟩

/-- A dataset under the name that the first outcome gives it has this very outcome, exactly if no
value that is kept from a file name is respelt there. -/
theorem renewed_under_own_name_iff (hdate : Rule.isCreationDate fresh'.creationDate.toList = true)
    (hid : Rule.isTrackingId fresh'.trackingId = true) :
    (∃ i', ofMinimum m d (some ⟨spec.fileName⟩) cv indicators fresh' = .done (.ok i') ∧
      Renewed m d cv.drs fresh' i i') ↔ ∀ key, ¬Respelt m d cv.drs i key := by
  refine ⟨fun ⟨i', h', hrenewed⟩ key hr => ?_,
    fun hkept => exists_renewed hd hs h hb hkept hdate hid⟩
  have hstable : ∀ key ∈ keptKeys, key ∉ freshKeys := by decide
  refine hr.differs ?_
  rw [← get?_of_respelt hd hs h hb hr h', hrenewed.same key (.inl (hstable key hr.kept))]

end

/-- Templates by which the version of the source shows in the names of files. -/
def versionedDrs : Drs :=
  ⟨[⟨"<source_id>", [.item (.key "source_id")]⟩],
    ⟨"<variable_id>_<source_version>[_<time_range>].nc", [.item (.key "variable_id"),
      .item (.literal ['_']), .item (.key "source_version"),
      .optional [.literal ['_'], .key "time_range"], .item (.literal ['.', 'n', 'c'])]⟩⟩

def versionedVocabularies (version : String) : Vocabularies :=
  { FileValidation.sampleVocabularies with
    sources := Dict.ofList [("s1", ⟨none, "a@b.cd", "http://a.b", "home", "free", "now", version⟩)]
    drs := versionedDrs }

def laterFresh : Fresh where
  creationDate := "2021-02-03T04:05:06Z"
  trackingId := "hdl:21.14100/76543210-89ab-4cde-8f01-23456789abcd"

def versionedInferred (version : String) : Outcome (Except InferenceError Inferred) :=
  ofMinimum sampleMinimum sampleMonths none (versionedVocabularies version) [] sampleFresh

/-- The name for what was inferred, the keys that it shows, and the version of the source. -/
def shownValues (drs : Drs) :
    Outcome (Except InferenceError Inferred) → Option (String × List String × Option String)
  | .done (.ok i) => (drs.buildPath i.metadata.attributes).toOption.map fun spec =>
    (spec.fileName, drs.renderedKeys i.metadata.attributes, i.metadata.get? "source_version")
  | _ => none

theorem shownValues_eq_some {drs : Drs} {outcome : Outcome (Except InferenceError Inferred)}
    {name : String} {keys : List String} {version? : Option String}
    (h : shownValues drs outcome = some (name, keys, version?)) : ∃ i spec,
      outcome = .done (.ok i) ∧ drs.buildPath i.metadata.attributes = .ok spec ∧
      spec.fileName = name ∧ drs.renderedKeys i.metadata.attributes = keys ∧
      i.metadata.get? "source_version" = version? := by
  unfold shownValues at h
  split at h
  · rename_i i
    obtain ⟨spec, hspec, hvalues⟩ := Option.map_eq_some_iff.mp h
    simp only [Prod.mk.injEq] at hvalues
    exact ⟨i, spec, rfl, Except.toOption_eq_some.mp hspec, hvalues⟩
  · cases h

/-- The version `1-0` is read from the name as it is; the version `1.0` is not. -/
theorem renewed_under_own_name_iff_sample :
    (∃ i i', versionedInferred "1-0" = .done (.ok i) ∧
      ofMinimum sampleMinimum sampleMonths (some ⟨"tos_1-0_200001-200003.nc"⟩)
        (versionedVocabularies "1-0") [] laterFresh = .done (.ok i') ∧
      Renewed sampleMinimum sampleMonths (versionedVocabularies "1-0").drs laterFresh i i') ∧
    ∃ i, versionedInferred "1.0" = .done (.ok i) ∧
      ¬∃ i', ofMinimum sampleMinimum sampleMonths (some ⟨"tos_1-0_200001-200003.nc"⟩)
          (versionedVocabularies "1.0") [] laterFresh = .done (.ok i') ∧
        Renewed sampleMinimum sampleMonths (versionedVocabularies "1.0").drs laterFresh i i' := by
  have hd : ∀ version, Drs.ofTemplates? "<source_id>"
      "<variable_id>_<source_version>[_<time_range>].nc" =
        .ok (versionedVocabularies version).drs := fun _ => rfl
  have hs : versionedDrs.nameOnly.WellSeparated :=
    ⟨by decide, by decide, by decide, by decide, by decide, by decide, by decide⟩
  have hdate : Rule.isCreationDate laterFresh.creationDate.toList = true := by decide +kernel
  have hid : Rule.isTrackingId laterFresh.trackingId = true := by decide +kernel
  have hsame : shownValues versionedDrs (versionedInferred "1-0") =
      some ("tos_1-0_200001-200003.nc", ["variable_id", "source_version", "time_range"],
        some "1-0") := by
    decide +kernel
  have hother : shownValues versionedDrs (versionedInferred "1.0") =
      some ("tos_1-0_200001-200003.nc", ["variable_id", "source_version", "time_range"],
        some "1.0") := by
    decide +kernel
  constructor
  · obtain ⟨i, spec, hi, hspec, hname, hkeys, hversion⟩ := shownValues_eq_some hsame
    rw [← hname]
    obtain ⟨i', hi', hrenewed⟩ :=
      (renewed_under_own_name_iff (hd _) hs hi hspec hdate hid).mpr fun key hr => by
        have hmem : key ∈ versionedDrs.renderedKeys i.metadata.attributes := hr.rendered
        rw [hkeys] at hmem
        have hkey : ∀ key ∈ ["variable_id", "source_version", "time_range"],
          key ∈ keptKeys → key = "source_version" := by decide
        refine hr.differs ?_
        rw [hkey key hmem hr.kept, hversion]
        decide
    exact ⟨i, i', hi, hi', hrenewed⟩
  · obtain ⟨i, spec, hi, hspec, hname, hkeys, hversion⟩ := shownValues_eq_some hother
    rw [← hname]
    refine ⟨i, hi, fun hex => ?_⟩
    refine (renewed_under_own_name_iff (hd _) hs hi hspec hdate hid).mp hex "source_version"
      ⟨by decide, ?_, by decide +kernel, ?_⟩
    · change _ ∈ versionedDrs.renderedKeys i.metadata.attributes
      rw [hkeys]
      decide
    · rw [hversion]
      decide

end Inferred
end ForcingData
