import ForcingData.Proofs.Glob
import ForcingData.Vocabulary.Basic
import Mathlib.Data.Sym.Sym2

/-! # Two values against each other

A check of two values passes exactly if they go together, and its message shows both where they do
not (`Finding.Decides`). Whether they go together does not depend on which of the two comes first
(`agree_comm`), so that neither do status and fault. -/

namespace ForcingData
open Text

/-! ### Deciding -/

namespace Finding
variable {f g : Finding} {x y : String} {holds : Prop}

/-- The value stands in the message, in quotes. -/
def Shows (f : Finding) (value : String) : Prop :=
  ∃ before after, f.message = before ++ quoted value ++ after

/-- A finding about two values, of which a condition should hold. -/
structure Decides (f : Finding) (holds : Prop) (x y : String) : Prop where
  pass : holds → f.status = .pass ∧ f.fault = none
  fail : ¬holds → f.status = .fail ∧ f.fault = some .valueInconsistentWithCvs ∧
    f.Shows x ∧ f.Shows y

namespace Decides

theorem of_pass {rule message : String} (h : holds) :
    (Finding.pass rule message).Decides holds x y :=
  ⟨fun _ => ⟨rfl, rfl⟩, fun hnot => absurd h hnot⟩

theorem of_fail (h : ¬holds) (hstatus : f.status = .fail)
    (hfault : f.fault = some .valueInconsistentWithCvs) (hx : f.Shows x) (hy : f.Shows y) :
    f.Decides holds x y :=
  ⟨fun hholds => absurd hholds h, fun _ => ⟨hstatus, hfault, hx, hy⟩⟩

theorem symm (h : f.Decides holds x y) : f.Decides holds y x :=
  ⟨h.pass, fun hnot => by
    obtain ⟨hstatus, hfault, hx, hy⟩ := h.fail hnot
    exact ⟨hstatus, hfault, hy, hx⟩⟩

theorem congr {holds' : Prop} (hiff : holds ↔ holds') (h : f.Decides holds x y) :
    f.Decides holds' x y :=
  ⟨fun hholds => h.pass (hiff.mpr hholds), fun hnot => h.fail fun hholds => hnot (hiff.mp hholds)⟩

theorem status_eq_pass_iff (h : f.Decides holds x y) : f.status = .pass ↔ holds := by
  refine ⟨fun hpass => ?_, fun hholds => (h.pass hholds).1⟩
  by_contra hnot
  cases hpass.symm.trans (h.fail hnot).1

theorem eq_of_iff {holds' : Prop} (h : f.Decides holds x y) (h' : g.Decides holds' y x)
    (hiff : holds ↔ holds') : f.status = g.status ∧ f.fault = g.fault := by
  by_cases hholds : holds
  · obtain ⟨hstatus, hfault⟩ := h.pass hholds
    obtain ⟨hstatus', hfault'⟩ := h'.pass (hiff.mp hholds)
    exact ⟨hstatus.trans hstatus'.symm, hfault.trans hfault'.symm⟩
  · obtain ⟨hstatus, hfault, _⟩ := h.fail hholds
    obtain ⟨hstatus', hfault', _⟩ := h'.fail fun h' => hholds (hiff.mpr h')
    exact ⟨hstatus.trans hstatus'.symm, hfault.trans hfault'.symm⟩

end Decides
end Finding

namespace Vocabularies
variable (cv : Vocabularies)

/-- Activity and source are known, the source declares no activity or this one, and the activity has
no patterns or one that the source matches. -/
def GoTogether (activityId sourceId : String) : Prop :=
  ∃ activity source, cv.activities.get? activityId = some activity ∧
    cv.sources.get? sourceId = some source ∧
    (source.activityId = none ∨ source.activityId = some activityId) ∧
    (activity.patterns = [] ∨
      ∃ glob ∈ activity.patterns, Expression.Matches (Glob.expression glob) sourceId)

/-- The source is known, and the value of the category is the one it prescribes. -/
def Prescribes (sourceId : String) (c : Category) (value : String) : Prop :=
  ∃ source, cv.sources.get? sourceId = some source ∧ source.determined? c = some value

theorem accepts_iff {activity : Activity} {sourceId : String} : activity.accepts sourceId = true ↔
    activity.patterns = [] ∨
      ∃ glob ∈ activity.patterns, Expression.Matches (Glob.expression glob) sourceId := by
  simp only [Activity.accepts, Activity.restricts, Bool.not_not, Bool.or_eq_true,
    List.isEmpty_iff, List.any_eq_true, Glob.matches_expression_iff_accepts]

theorem filter_ne_eq_none {value? : Option String} {value : String} :
    value?.filter (· ≠ value) = none ↔ value? = none ∨ value? = some value := by
  cases value? <;> simp [Option.filter_eq_none_iff]

theorem shows_inconsistent (rule activityId sourceId reason : String) :
    (inconsistent rule activityId sourceId reason).Shows activityId ∧
      (inconsistent rule activityId sourceId reason).Shows sourceId := by
  refine ⟨⟨"activity_id=", s!" and source_id={quoted sourceId} are inconsistent with the " ++
      s!"CVs: {reason}", ?_⟩,
    s!"activity_id={quoted activityId} and source_id=", " are inconsistent with the " ++
      s!"CVs: {reason}", ?_⟩ <;>
  simp [inconsistent, Finding.fail, toString, String.append_assoc]

theorem decides_checkActivitySource (rule activityId sourceId : String) :
    (cv.checkActivitySource rule activityId sourceId).Decides (cv.GoTogether activityId sourceId)
      activityId sourceId := by
  have hfail : ∀ reason, ¬cv.GoTogether activityId sourceId →
      (inconsistent rule activityId sourceId reason).Decides (cv.GoTogether activityId sourceId)
        activityId sourceId := fun reason hnot =>
    .of_fail hnot rfl rfl (shows_inconsistent ..).1 (shows_inconsistent ..).2
  unfold checkActivitySource
  -- no such activity, no such source, or both are there and are compared
  split
  · rename_i hactivity
    exact hfail _ fun ⟨_, _, h, _⟩ => by cases hactivity.symm.trans h
  · rename_i hsource
    exact hfail _ fun ⟨_, _, _, h, _⟩ => by cases hsource.symm.trans h
  · rename_i activity source hactivity hsource
    have hiff : cv.GoTogether activityId sourceId ↔
        source.activityId.filter (· ≠ activityId) = none ∧ activity.accepts sourceId = true := by
      rw [filter_ne_eq_none, accepts_iff]
      constructor
      · rintro ⟨activity', source', hactivity', hsource', h⟩
        obtain rfl := Option.some.inj (hactivity.symm.trans hactivity')
        obtain rfl := Option.some.inj (hsource.symm.trans hsource')
        exact h
      · exact fun h => ⟨activity, source, hactivity, hsource, h⟩
    split
    · rename_i declared hdeclared
      refine hfail _ fun h => ?_
      cases hdeclared.symm.trans (hiff.mp h).1
    · rename_i hnone
      split
      · rename_i haccepts
        exact .of_pass (hiff.mpr ⟨hnone, haccepts⟩)
      · rename_i hrejects
        exact hfail _ fun h => hrejects (hiff.mp h).2

theorem exists_determined? (source : Source) {c : Category} (hc : c.isDetermined = true) :
    ∃ value, source.determined? c = some value := by
  cases c <;> first | exact ⟨_, rfl⟩ | cases hc

theorem decides_checkSourceDetermined (rule sourceId : String) {c : Category}
    (hc : c.isDetermined = true) (value : String) :
    (cv.checkSourceDetermined rule sourceId c value).Decides (cv.Prescribes sourceId c value)
      sourceId value := by
  unfold checkSourceDetermined
  -- the source is not there, or prescribes another value, or this one
  split
  · rename_i hsource
    refine .of_fail (fun ⟨_, h, _⟩ => by cases hsource.symm.trans h) rfl rfl
      ⟨"source_id=", s!" is not in the CVs, so {c.name}={quoted value} can not be " ++
        "consistent with it", ?_⟩
      ⟨s!"source_id={quoted sourceId} is not in the CVs, so {c.name}=", " can not be " ++
        "consistent with it", ?_⟩ <;>
    simp [Finding.fail, toString, String.append_assoc]
  · rename_i source hsource
    have hiff : cv.Prescribes sourceId c value ↔ source.determined? c = some value :=
      ⟨fun ⟨_, h, hvalue⟩ => Option.some.inj (hsource.symm.trans h) ▸ hvalue,
        fun hvalue => ⟨source, hsource, hvalue⟩⟩
    split
    · rename_i expected hexpected
      obtain ⟨hexpected, hne⟩ := Option.filter_eq_some_iff.mp hexpected
      refine .of_fail (fun h => ?_) rfl rfl
        ⟨"For source_id=", s!", we should have {c.name}={quoted expected}. " ++
          s!"Received {c.name}={quoted value}", ?_⟩
        ⟨s!"For source_id={quoted sourceId}, we should have {c.name}={quoted expected}. " ++
          s!"Received {c.name}=", "", ?_⟩
      · obtain rfl := Option.some.inj (hexpected.symm.trans (hiff.mp h))
        simp at hne
      · simp [Finding.fail, toString, String.append_assoc]
      · simp [Finding.fail, toString, String.append_assoc]
    · rename_i hnone
      obtain ⟨expected, hexpected⟩ := exists_determined? source hc
      rw [filter_ne_eq_none, hexpected] at hnone
      exact .of_pass (hiff.mpr (hexpected.trans (hnone.resolve_left nofun)))

/-! ### Any two categories -/

/-- What the first value demands of the second one. -/
def Demands (a : Category) (x : String) (b : Category) (y : String) : Prop :=
  (a = .activityId → b = .sourceId → cv.GoTogether x y) ∧
    (a = .sourceId → b.isDetermined = true → cv.Prescribes x b y)

/-- What the vocabularies say of two values, in whichever order. -/
def Agree (a : Category) (x : String) (b : Category) (y : String) : Prop :=
  cv.Demands a x b y ∧ cv.Demands b y a x

variable {a b : Category} {x y : String}

theorem agree_comm : cv.Agree a x b y ↔ cv.Agree b y a x := and_comm

theorem agree_activity : cv.Agree .activityId x .sourceId y ↔ cv.GoTogether x y := by
  simp [Agree, Demands, Category.isDetermined]

theorem agree_determined (hb : b.isDetermined = true) :
    cv.Agree .sourceId x b y ↔ cv.Prescribes x b y := by
  refine ⟨fun h => h.1.2 rfl hb, fun h => ⟨⟨nofun, fun _ _ => h⟩, ?_, ?_⟩⟩
  · rintro rfl
    cases hb
  · rintro rfl
    cases hb

theorem agree_unrelated (hactivity : s(a, b) ≠ s(.activityId, .sourceId))
    (hdetermined : ∀ c : Category, c.isDetermined = true → s(a, b) ≠ s(.sourceId, c)) :
    cv.Agree a x b y := by
  simp only [ne_eq, Sym2.eq_iff, not_or, not_and] at hactivity hdetermined
  refine ⟨⟨fun ha hb => ?_, fun ha hb => ?_⟩, fun hb ha => ?_, fun hb ha => ?_⟩
  · exact absurd hb (hactivity.1 ha)
  · exact absurd rfl ((hdetermined b hb).1 ha)
  · exact absurd hb (hactivity.2 ha)
  · exact absurd hb ((hdetermined a ha).2 rfl)

theorem decides_validateCross (a : Category) (x : String) (b : Category) (y : String) :
    (cv.validateCross a x b y).Decides (cv.Agree a x b y) x y := by
  unfold validateCross
  split
  · exact (cv.decides_checkActivitySource _ x y).congr cv.agree_activity.symm
  · exact (cv.decides_checkActivitySource _ y x).symm.congr
      (cv.agree_activity.symm.trans cv.agree_comm)
  · rename_i hactivity hsource
    simp only [Bool.and_eq_true, decide_eq_true_eq]
    split_ifs with ha hb
    · obtain ⟨rfl, hc⟩ := ha
      exact (cv.decides_checkSourceDetermined _ x hc y).congr (cv.agree_determined hc).symm
    · obtain ⟨rfl, hc⟩ := hb
      exact (cv.decides_checkSourceDetermined _ y hc x).symm.congr
        ((cv.agree_determined hc).symm.trans cv.agree_comm)
    · refine .of_pass (cv.agree_unrelated ?_ fun c hc => ?_)
      · rw [Ne, Sym2.eq_iff]
        rintro (⟨rfl, rfl⟩ | ⟨rfl, rfl⟩)
        · exact hactivity rfl rfl
        · exact hsource rfl rfl
      · rw [Ne, Sym2.eq_iff]
        rintro (⟨rfl, rfl⟩ | ⟨rfl, rfl⟩)
        · exact ha ⟨rfl, hc⟩
        · exact hb ⟨rfl, hc⟩

/-- The categories that a source prescribes a value of. -/
def prescribed : List Category :=
  [.institutionId, .contact, .furtherInfoUrl, .licenseId, .mipEra, .sourceVersion]

theorem mem_prescribed {c : Category} : c ∈ prescribed ↔ c.isDetermined = true := by
  cases c <;> decide

/-- What holds of the checks of any two values. -/
structure CrossChecked : Prop where
  /-- The order of the two pairs does not matter. -/
  swapped : ∀ a x b y, (cv.validateCross b y a x).status = (cv.validateCross a x b y).status ∧
    (cv.validateCross b y a x).fault = (cv.validateCross a x b y).fault
  activity : ∀ x y, (cv.validateCross .activityId x .sourceId y).status = .pass ↔ cv.GoTogether x y
  determined : ∀ c ∈ prescribed, ∀ x y,
    (cv.validateCross .sourceId x c y).status = .pass ↔ cv.Prescribes x c y
  /-- Every other pair of categories passes. -/
  unrelated : ∀ a b : Category, s(a, b) ≠ s(.activityId, .sourceId) →
    (∀ c ∈ prescribed, s(a, b) ≠ s(.sourceId, c)) →
      ∀ x y, (cv.validateCross a x b y).status = .pass
  shown : ∀ a x b y, (cv.validateCross a x b y).status ≠ .pass →
    (cv.validateCross a x b y).Shows x ∧ (cv.validateCross a x b y).Shows y

/-- Whatever the vocabularies are, two values pass exactly if they go together, and what does not
pass shows both. -/
theorem crossChecked : cv.CrossChecked where
  swapped a x b y :=
    (cv.decides_validateCross b y a x).eq_of_iff (cv.decides_validateCross a x b y) cv.agree_comm
  activity x y := (cv.decides_validateCross ..).status_eq_pass_iff.trans cv.agree_activity
  determined c hc x y := (cv.decides_validateCross ..).status_eq_pass_iff.trans
    (cv.agree_determined (mem_prescribed.mp hc))
  unrelated a b hactivity hdetermined x y :=
    (cv.decides_validateCross a x b y).status_eq_pass_iff.mpr <|
      cv.agree_unrelated hactivity fun c hc => hdetermined c (mem_prescribed.mpr hc)
  shown a x b y hnot := by
    have hdecides := cv.decides_validateCross a x b y
    obtain ⟨_, _, hx, hy⟩ := hdecides.fail fun hholds => hnot (hdecides.pass hholds).1
    exact ⟨hx, hy⟩

end Vocabularies
end ForcingData
