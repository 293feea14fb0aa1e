import ForcingData.Proofs.Metadata.Inferred

/-! # The values that sources have

A source adds values for keys that have none (`added_foldl`), and otherwise warns unless both values
are shown in the same way. Before a file name is read, a key has a value exactly if some source
supplies one that is not empty (`supplied_iff`). -/

namespace ForcingData
namespace Layers
variable {l l' : Layers} {key : String}

/-! ### Adding values -/

/-- The step from `l` to `l'` changes nothing but the value of the key. -/
structure OnlyAt (key : String) (l l' : Layers) : Prop where
  get?_eq : ∀ k ≠ key, l'.get? k = l.get? k
  origins_eq : ∀ k ≠ key, l'.origins.get? k = l.origins.get? k
  discrepancies_eq : l'.discrepancies = l.discrepancies

theorem OnlyAt.refl : OnlyAt key l l := ⟨fun _ _ => rfl, fun _ _ => rfl, rfl⟩

theorem onlyAt_set (origin : Origin) (l : Layers) (key value : String) :
    OnlyAt key l (l.set origin key value) :=
  ⟨fun _ hk => (get?_set ..).trans (if_neg hk),
    fun _ hk => (Dict.get?_insert ..).trans (if_neg hk), rfl⟩

/-- A value counts under a known key, and if it is not empty. -/
def counts (e : String × String) : Bool := Metadata.isKnown e.1 && e.2 ≠ ""

/-- The warning about a value of a source, if another one was there before it. -/
def warning? (l : Layers) (origin : Origin) (e : String × String) : Option Finding :=
  if counts e then
    (l.get? e.1).bind fun kept =>
      if sameInFileName kept e.2 then none else some (l.dropped origin e.1 kept e.2)
  else none

/-- Adding the entries set the values of keys that had none, and warned about the others. -/
structure Added (origin : Origin) (entries : List (String × String)) (l l' : Layers) : Prop where
  discrepancies : l'.discrepancies = l.discrepancies ++ entries.filterMap (l.warning? origin)
  kept : ∀ key, (l.get? key ≠ none ∨
      ∀ value, (key, value) ∈ entries → counts (key, value) = false) →
    l'.get? key = l.get? key ∧ l'.origins.get? key = l.origins.get? key
  taken : ∀ e ∈ entries, counts e = true → l.get? e.1 = none →
    l'.get? e.1 = some e.2 ∧ l'.origins.get? e.1 = some origin

theorem add_of_not_counts {origin : Origin} {value : String} (h : counts (key, value) = false) :
    l.add origin key value = l := by
  have hskip : (!Metadata.isKnown key || value = "") = true := by
    rw [← Bool.not_eq_true, counts] at h
    cases hknown : Metadata.isKnown key <;> simp_all
  exact if_pos hskip

theorem add_of_none {origin : Origin} {value : String} (h : counts (key, value) = true)
    (hv : l.get? key = none) : l.add origin key value = l.set origin key value := by
  unfold add
  rw [hv]
  rw [counts] at h
  simp_all

theorem add_of_some {origin : Origin} {kept value : String} (h : counts (key, value) = true)
    (hv : l.get? key = some kept) : l.add origin key value =
      { l with discrepancies := l.discrepancies ++ (l.warning? origin (key, value)).toList } := by
  have hnot : (!Metadata.isKnown key || value = "") = false := by
    rw [counts] at h
    simp_all
  have hne : sameInFileName kept value = false → kept ≠ value := by
    rintro hs rfl
    simp [sameInFileName] at hs
  rw [warning?, if_pos h, hv, Option.bind_some, add, hv, if_neg (by simp [hnot])]
  cases hs : sameInFileName kept value with
  | true => simp [hs]
  | false => simp [hs, hne hs]

theorem added_add (origin : Origin) (l : Layers) (e : String × String) :
    Added origin [e] l (l.add origin e.1 e.2) := by
  -- the entry does not count, is taken, or comes too late
  cases hcounts : counts e with
  | false =>
    rw [add_of_not_counts hcounts]
    refine ⟨by simp [warning?, hcounts], fun _ _ => ⟨rfl, rfl⟩, fun e' he' hc => ?_⟩
    rw [List.mem_singleton.mp he', hcounts] at hc
    cases hc
  | true =>
    cases hv : l.get? e.1 with
    | none =>
      have honly := onlyAt_set origin l e.1 e.2
      rw [add_of_none hcounts hv]
      refine ⟨by simp [warning?, hv, honly.discrepancies_eq], fun key hk => ?_,
        fun e' he' _ _ => ?_⟩
      · have hne : key ≠ e.1 := by
          rintro rfl
          rcases hk with hk | hk
          · exact hk hv
          · rw [hk e.2 (List.mem_singleton_self e)] at hcounts
            cases hcounts
        exact ⟨honly.get?_eq key hne, honly.origins_eq key hne⟩
      · rw [List.mem_singleton.mp he', get?_set, if_pos rfl]
        exact ⟨rfl, (Dict.get?_insert ..).trans (if_pos rfl)⟩
    | some kept =>
      rw [add_of_some hcounts hv]
      refine ⟨?_, fun _ _ => ⟨rfl, rfl⟩, fun e' he' _ hnone => ?_⟩
      · rw [List.filterMap_cons, List.filterMap_nil]
        cases l.warning? origin e <;> rfl
      · rw [List.mem_singleton.mp he', hv] at hnone
        cases hnone

theorem warning?_congr {origin : Origin} {e : String × String} (hget : l'.get? e.1 = l.get? e.1)
    (horigin : l'.origins.get? e.1 = l.origins.get? e.1) :
    l'.warning? origin e = l.warning? origin e := by
  unfold warning? dropped
  rw [hget, horigin]

theorem added_foldl {origin : Origin} : ∀ {entries : List (String × String)} {l : Layers},
    (entries.map (·.1)).Nodup →
      Added origin entries l (entries.foldl (fun l e => l.add origin e.1 e.2) l)
  | [], l, _ => ⟨(List.append_nil _).symm, fun _ _ => ⟨rfl, rfl⟩, nofun⟩
  | e :: entries, l, hnodup => by
    obtain ⟨hfirst, hnodup⟩ := List.nodup_cons.mp hnodup
    have hone := added_add origin l e
    have ih := @added_foldl origin entries (l.add origin e.1 e.2) hnodup
    -- the first entry is in no other's way
    have hother : ∀ key ≠ e.1, (l.add origin e.1 e.2).get? key = l.get? key ∧
        (l.add origin e.1 e.2).origins.get? key = l.origins.get? key := fun key hne =>
      hone.kept key <| .inr fun value hmem =>
        absurd (congrArg Prod.fst (List.mem_singleton.mp hmem)) hne
    have hne : ∀ e' ∈ entries, e'.1 ≠ e.1 := fun e' he' heq =>
      hfirst (List.mem_map.mpr ⟨e', he', heq⟩)
    rw [List.foldl_cons]
    refine ⟨?_, fun key hk => ?_,
      List.forall_mem_cons.mpr ⟨fun hc hnone => ?_, fun e' he' hc hnone => ?_⟩⟩
    · have hwarnings : entries.filterMap ((l.add origin e.1 e.2).warning? origin) =
          entries.filterMap (l.warning? origin) := List.filterMap_congr fun e' he' =>
        warning?_congr (hother e'.1 (hne e' he')).1 (hother e'.1 (hne e' he')).2
      rw [ih.discrepancies, hone.discrepancies, hwarnings, List.append_assoc,
        ← List.filterMap_append, List.singleton_append]
    · obtain ⟨hget, horigin⟩ := hone.kept key <| hk.imp_right fun hk value hmem =>
        hk value (List.mem_cons.mpr (.inl (List.mem_singleton.mp hmem)))
      rw [← hget, ← horigin]
      refine ih.kept key (hk.imp (fun hk => hget ▸ hk) fun hk value hmem => ?_)
      exact hk value (List.mem_cons_of_mem e hmem)
    · obtain ⟨hget, horigin⟩ := hone.taken e (List.mem_singleton_self e) hc hnone
      rw [← hget, ← horigin]
      exact ih.kept e.1 (.inl (by simp [hget]))
    · obtain ⟨hget, _⟩ := hother e'.1 (hne e' he')
      exact ih.taken e' he' hc (hget.trans hnone)

/-! ### What there is before a file name -/

/-- Without a value there is no origin, and no value is from a file name. -/
structure Sourced (l : Layers) : Prop where
  unset : ∀ key, l.get? key = none → l.Unset key
  elsewhere : ∀ key, l.origins.get? key ≠ some .fileName

theorem Sourced.add {origin : Origin} (h : l.Sourced) (horigin : origin ≠ .fileName)
    (k value : String) : (l.add origin k value).Sourced := by
  unfold Layers.add
  split
  · exact h
  · split
    · refine ⟨fun key hnone => ⟨hnone, ?_⟩, fun key => ?_⟩
      all_goals
        have hget : (l.set origin k value).origins.get? key =
          if key = k then some origin else l.origins.get? key := Dict.get?_insert ..
        rw [hget]
      · have hk : key ≠ k := by
          rintro rfl
          rw [get?_set, if_pos rfl] at hnone
          cases hnone
        rw [get?_set, if_neg hk] at hnone
        rw [if_neg hk]
        exact (h.unset key hnone).2
      · split
        · exact fun he => horigin (Option.some.inj he)
        · exact h.elsewhere key
    · split
      · exact ⟨fun key hnone => ⟨hnone, (h.unset key hnone).2⟩, h.elsewhere⟩
      · exact h

theorem Sourced.addSource {origin : Origin} (h : l.Sourced) (horigin : origin ≠ .fileName)
    (attributes : Attributes) : (l.addSource origin attributes).Sourced := by
  unfold Layers.addSource
  generalize attributes.toList = entries
  induction entries generalizing l with
  | nil => exact h
  | cons e entries ih => exact ih (h.add horigin e.1 e.2)

section
variable {m : Minimum} {d : Dataset} {drs : Drs}

theorem sourced_ofSources : (ofSources m d none drs).Sourced := by
  have hempty : empty.Sourced := ⟨fun _ _ => ⟨rfl, rfl⟩, fun _ => nofun⟩
  exact (hempty.addSource (by decide) m.attributes).addSource (by decide) d.textAttributes

theorem ne_none_add (origin : Origin) (k value : String) (h : l.get? key ≠ none) :
    (l.add origin k value).get? key ≠ none := by
  unfold add
  split
  · exact h
  · split
    · rw [get?_set]
      split
      · simp
      · exact h
    · split <;> exact h

theorem ne_none_addSource {attributes : Attributes} {origin : Origin}
    (h : l.get? key ≠ none ∨ Metadata.isKnown key = true ∧
      (attributes.get? key).any (· ≠ "") = true) :
    (l.addSource origin attributes).get? key ≠ none := by
  have hmem : l.get? key ≠ none ∨ Metadata.isKnown key = true ∧
      ∃ value, value ≠ "" ∧ (key, value) ∈ attributes.toList := by
    refine h.imp_right fun ⟨hkey, hany⟩ => ⟨hkey, ?_⟩
    cases hv : attributes.get? key with
    | none => simp [hv] at hany
    | some value => exact ⟨value, by simpa [hv] using hany, (Dict.mem_toList _).mpr hv⟩
  unfold addSource
  generalize attributes.toList = entries at hmem
  clear h
  induction entries generalizing l with
  | nil => simpa using hmem
  | cons e entries ih =>
    refine ih ?_
    rcases hmem with hsome | ⟨hkey, value, hne, hin⟩
    · exact .inl (ne_none_add origin e.1 e.2 hsome)
    · rcases List.mem_cons.mp hin with rfl | hin
      · left
        cases hv : l.get? key with
        | none =>
          have hcounts : counts (key, value) = true := by simp [counts, hkey, hne]
          simp [add_of_none hcounts hv, get?_set]
        | some kept => exact ne_none_add origin key value (by simp [hv])
      · exact .inr ⟨hkey, value, hne, hin⟩

theorem supplied_iff (hkey : Metadata.isKnown key = true) :
    Supplied m d none drs key ↔ (ofSources m d none drs).get? key ≠ none := by
  constructor
  · rintro ⟨attributes, hmem, hany⟩
    simp only [sources, Option.bind_none, Option.toList_none, List.append_nil, List.mem_cons,
      List.not_mem_nil, or_false] at hmem
    rcases hmem with rfl | rfl
    · exact ne_none_addSource (.inl (ne_none_addSource (.inr ⟨hkey, hany⟩)))
    · exact ne_none_addSource (.inr ⟨hkey, hany⟩)
  · exact fun h => by_contra fun hs => h (unset_ofSources hs).1

/-- What is no path is read as a name, or not at all. -/
theorem ofSources_of_parsePath_error {path : Path} {e : Drs.ParseError}
    (h : drs.parsePath path = .error e) : ofSources m d (some path) drs =
      (ofSources m d none drs).addSource .fileName ((drs.parseFileName path).toOption.getD ∅) := by
  unfold ofSources
  simp only [h]
  cases drs.parseFileName path <;> rfl

end
end Layers
end ForcingData
