import ForcingData.Dict
import Mathlib.Data.List.Sort

/-! # Looking things up in dictionaries

`get?` determines a dictionary (`ext_get?`), so every operation is described by what it does to
`get?`: one lemma for each. `mem_toList` ties entries to `get?`, for walks over all entries. -/

namespace ForcingData.Dict
variable {κ β γ : Type} [Ord κ]

theorem contains_iff (d : Dict κ β) (k : κ) : d.contains k = true ↔ ∃ v, d.get? k = some v :=
  Option.isSome_iff_exists

theorem get?_empty (k : κ) : (∅ : Dict κ β).get? k = none := rfl

section
variable [Std.TransOrd κ] [Std.LawfulEqOrd κ]

omit [Std.LawfulEqOrd κ] in
theorem find?_key {l : List (κ × β)} (h : l.Pairwise fun a b => compare a.1 b.1 = .lt) {k : κ}
    {v : β} (hm : (k, v) ∈ l) : (l.find? fun e => compare k e.1 == .eq) = some (k, v) := by
  induction l with
  | nil => cases hm
  | cons e rest ih =>
    have he := List.pairwise_cons.mp h
    rcases List.mem_cons.mp hm with rfl | hm
    · simp [Std.ReflOrd.compare_self]
    · have hlt : compare e.1 k = .lt := he.1 _ hm
      have hgt : compare k e.1 = .gt := Std.OrientedCmp.gt_of_lt hlt
      rw [List.find?_cons_of_neg (by simp [hgt])]
      exact ih he.2 hm

omit [Std.LawfulEqOrd κ] in
theorem get?_of_mem {d : Dict κ β} {k : κ} {v : β} (h : (k, v) ∈ d.toList) : d.get? k = some v := by
  rw [get?, find?_key d.sorted h]
  rfl

theorem mem_toList (d : Dict κ β) {k : κ} {v : β} : (k, v) ∈ d.toList ↔ d.get? k = some v := by
  refine ⟨get?_of_mem, fun h => ?_⟩
  obtain ⟨e, he, rfl⟩ := Option.map_eq_some_iff.mp h
  have hk : k = e.1 := by simpa using List.find?_some he
  rw [hk]
  exact List.mem_of_find?_eq_some he

theorem mem_keys (d : Dict κ β) {k : κ} : k ∈ d.keys ↔ (d.get? k).isSome := by
  rw [keys, List.mem_map, Option.isSome_iff_exists]
  constructor
  · rintro ⟨⟨k', v⟩, hm, rfl⟩
    exact ⟨v, d.mem_toList.mp hm⟩
  · rintro ⟨v, hv⟩
    exact ⟨(k, v), d.mem_toList.mpr hv, rfl⟩

omit [Std.LawfulEqOrd κ] in
theorem nodup_keys (d : Dict κ β) : d.keys.Nodup := by
  refine List.pairwise_map.mpr (d.sorted.imp fun {a b} hlt heq => ?_)
  rw [heq, Std.ReflOrd.compare_self] at hlt
  cases hlt

omit [Std.LawfulEqOrd κ] in
/-- Sorted by a key, lists with the same elements are equal. -/
theorem eq_of_sorted {α : Type} {key : α → κ} {l l' : List α}
    (h : l.Pairwise fun a b => compare (key a) (key b) = .lt)
    (h' : l'.Pairwise fun a b => compare (key a) (key b) = .lt)
    (hmem : ∀ a, a ∈ l ↔ a ∈ l') : l = l' := by
  have : Std.Antisymm fun a b : α => compare (key a) (key b) = .lt :=
    ⟨fun a b hab hba => by
      rw [Std.OrientedCmp.gt_of_lt hba] at hab
      cases hab⟩
  have : Std.Irrefl fun a b : α => compare (key a) (key b) = .lt := ⟨fun a => by simp⟩
  exact h.eq_of_mem_iff h' hmem

theorem ext_get? {a b : Dict κ β} (h : ∀ k, a.get? k = b.get? k) : a = b := by
  refine Dict.ext (eq_of_sorted a.sorted b.sorted fun e => ?_)
  rw [show e = (e.1, e.2) from rfl, mem_toList, mem_toList, h]

/-! ### Operations -/

omit [Std.TransOrd κ] in
theorem find?_insertEntry [DecidableEq κ] (k k' : κ) (v : β) (l : List (κ × β)) :
    ((insertEntry k v l).find? fun e => compare k' e.1 == .eq).map (·.2) =
      if k' = k then some v else (l.find? fun e => compare k' e.1 == .eq).map (·.2) := by
  induction l with
  | nil => by_cases hk : k' = k <;> simp [insertEntry, hk]
  | cons e rest ih =>
    -- before the first entry, in its place, or after it
    rw [insertEntry]
    split
    · by_cases hk : k' = k
      · subst hk
        simp
      · rw [List.find?_cons_of_neg (by simpa using hk), if_neg hk]
    · rename_i heq
      have hke : k = e.1 := by simpa using heq
      subst hke
      by_cases hk : k' = e.1
      · simp [hk]
      · rw [List.find?_cons_of_neg (by simpa using hk), List.find?_cons_of_neg (by simpa using hk),
          if_neg hk]
    · rename_i hgt
      by_cases hk : k' = e.1
      · subst hk
        have hne : e.1 ≠ k := by
          rintro rfl
          simp at hgt
        simp [hne]
      · rw [List.find?_cons_of_neg (by simpa using hk), List.find?_cons_of_neg (by simpa using hk),
          ih]

theorem get?_insert [DecidableEq κ] (d : Dict κ β) (k k' : κ) (v : β) :
    (d.insert k v).get? k' = if k' = k then some v else d.get? k' :=
  find?_insertEntry k k' v d.toList

theorem get?_filter (d : Dict κ β) (p : κ → β → Bool) (k : κ) :
    (d.filter p).get? k = (d.get? k).filter (p k) := by
  refine Option.ext fun v => ?_
  rw [← mem_toList, filter, List.mem_filter, mem_toList, Option.filter_eq_some_iff]

theorem get?_filterMap (d : Dict κ β) (f : κ → β → Option γ) (k : κ) :
    (d.filterMap f).get? k = (d.get? k).bind (f k) := by
  refine Option.ext fun w => ?_
  rw [← mem_toList, filterMap, List.mem_filterMap, Option.bind_eq_some_iff]
  constructor
  · rintro ⟨⟨k', v⟩, hm, hf⟩
    obtain ⟨u, hu, he⟩ := Option.map_eq_some_iff.mp hf
    obtain ⟨rfl, rfl⟩ := Prod.mk.inj he
    exact ⟨v, d.mem_toList.mp hm, hu⟩
  · rintro ⟨v, hv, hf⟩
    exact ⟨(k, v), d.mem_toList.mpr hv, by simp [hf]⟩

theorem get?_map (d : Dict κ β) (f : β → γ) (k : κ) : (d.map f).get? k = (d.get? k).map f := by
  rw [map, get?_filterMap]
  cases d.get? k <;> rfl

theorem get?_erase [DecidableEq κ] (d : Dict κ β) (k k' : κ) :
    (d.erase k).get? k' = if k' = k then none else d.get? k' := by
  rw [erase, get?_filter]
  by_cases hk : k' = k
  · subst hk
    cases d.get? k' <;> simp
  · cases d.get? k' <;> simp [Option.filter, hk, Ne.symm hk]

/-! ### Lists of entries -/

theorem get?_foldl_insert [DecidableEq κ] (k : κ) : ∀ (l : List (κ × β)) (d : Dict κ β),
    (l.foldl (fun d e => d.insert e.1 e.2) d).get? k =
      ((l.reverse.find? fun e => e.1 = k).map (·.2)).or (d.get? k)
  | [], _ => rfl
  | e :: l, d => by
    rw [List.foldl_cons, get?_foldl_insert k l, get?_insert, List.reverse_cons, List.find?_append]
    cases l.reverse.find? fun e => e.1 = k with
    | some _ => rfl
    | none => by_cases hk : k = e.1 <;> simp [hk, eq_comm]

theorem get?_ofList [DecidableEq κ] (l : List (κ × β)) (k : κ) :
    (ofList l).get? k = (l.reverse.find? fun e => e.1 = k).map (·.2) := by
  rw [ofList, get?_foldl_insert, show (empty : Dict κ β).get? k = none from rfl, Option.or_none]

theorem get?_ofList_of_forall [DecidableEq κ] {l : List (κ × β)} {f : κ → Option β}
    (h : ∀ e ∈ l, f e.1 = some e.2) (k : κ) :
    (ofList l).get? k = if k ∈ l.map (·.1) then f k else none := by
  rw [get?_ofList]
  cases hfind : l.reverse.find? fun e => e.1 = k with
  | none =>
    have hk : k ∉ l.map (·.1) := by
      intro hk
      obtain ⟨e, he, rfl⟩ := List.mem_map.mp hk
      simpa using List.find?_eq_none.mp hfind e (List.mem_reverse.mpr he)
    rw [if_neg hk]
    rfl
  | some e =>
    have he : e ∈ l := List.mem_reverse.mp (List.mem_of_find?_eq_some hfind)
    obtain rfl : e.1 = k := by simpa using List.find?_some hfind
    rw [if_pos (List.mem_map_of_mem he), h e he]
    rfl

theorem get?_ofList_const [DecidableEq κ] (ks : List κ) (v : β) (k : κ) :
    (ofList (ks.map (·, v))).get? k = if k ∈ ks then some v else none := by
  rw [get?_ofList_of_forall (f := fun _ => some v) (by simp)]
  simp [Function.comp_def]

omit [Std.LawfulEqOrd κ] in
theorem insertEntry_of_forall_lt {l : List (κ × β)} {k : κ} (v : β)
    (h : ∀ e ∈ l, compare e.1 k = .lt) : insertEntry k v l = l ++ [(k, v)] := by
  induction l with
  | nil => rfl
  | cons e l ih =>
    have hgt : compare k e.1 = .gt := Std.OrientedCmp.gt_of_lt (h e (List.mem_cons_self ..))
    rw [insertEntry, hgt]
    exact congrArg (e :: ·) (ih fun x hx => h x (List.mem_cons_of_mem _ hx))

omit [Std.LawfulEqOrd κ] in
theorem toList_foldl_insert : ∀ (l : List (κ × β)) (d : Dict κ β),
    (d.toList ++ l).Pairwise (fun a b => compare a.1 b.1 = .lt) →
      (l.foldl (fun d e => d.insert e.1 e.2) d).toList = d.toList ++ l
  | [], d, _ => (List.append_nil _).symm
  | e :: l, d, h => by
    have hlt : ∀ x ∈ d.toList, compare x.1 e.1 = .lt :=
      fun x hx => (List.pairwise_append.mp h).2.2 x hx e (List.mem_cons_self ..)
    have hins : (d.insert e.1 e.2).toList = d.toList ++ [e] := insertEntry_of_forall_lt e.2 hlt
    have happ : d.toList ++ e :: l = (d.insert e.1 e.2).toList ++ l := by rw [hins]; simp
    rw [List.foldl_cons, toList_foldl_insert l _ (happ ▸ h), happ]

omit [Std.LawfulEqOrd κ] in
theorem toList_ofList {l : List (κ × β)} (h : l.Pairwise fun a b => compare a.1 b.1 = .lt) :
    (ofList l).toList = l :=
  toList_foldl_insert l empty h

omit [Std.LawfulEqOrd κ] in
theorem ofList_toList (d : Dict κ β) : ofList d.toList = d :=
  Dict.ext (toList_ofList d.sorted)

omit [Std.LawfulEqOrd κ] in
/-- Where the keys are known, an entry for one of them takes the place of the one before. -/
theorem insertEntry_map [DecidableEq κ] {ks : List κ} (h : ks.Pairwise fun a b => compare a b = .lt)
    {k : κ} (hk : k ∈ ks) (f : κ → β) (v : β) :
    insertEntry k v (ks.map fun k => (k, f k)) =
      ks.map fun k' => (k', Function.update f k v k') := by
  induction ks with
  | nil => cases hk
  | cons first ks ih =>
    obtain ⟨hfirst, hks⟩ := List.pairwise_cons.mp h
    rw [List.map_cons, List.map_cons, insertEntry]
    rcases List.mem_cons.mp hk with rfl | hmem
    · have hother : ∀ k' ∈ ks, k' ≠ k := by
        rintro k' hk' rfl
        have := hfirst k' hk'
        rw [Std.ReflOrd.compare_self] at this
        cases this
      simp only [Std.ReflOrd.compare_self, Function.update_self]
      refine congrArg _ (List.map_congr_left fun k' hk' => ?_)
      rw [Function.update_of_ne (hother k' hk')]
    · have hgt : compare k first = .gt := Std.OrientedCmp.gt_of_lt (hfirst k hmem)
      have hne : first ≠ k := by
        rintro rfl
        rw [Std.ReflOrd.compare_self] at hgt
        cases hgt
      simp only [hgt, Function.update_of_ne hne, ih hks hmem]

/-! ### Dictionaries put into one another -/

section
variable [DecidableEq κ] {f : Dict κ β → κ × γ → Dict κ β} (put : Option β → γ → Option β)
  (hf : ∀ d e k, (f d e).get? k = if k = e.1 then put (d.get? k) e.2 else d.get? k)
include hf

omit [Std.TransOrd κ] in
/-- Entries put in one after the other, where each of them changes the value of its own key. -/
theorem get?_foldl {l : List (κ × γ)} (h : l.Pairwise fun a b => compare a.1 b.1 = .lt)
    (d : Dict κ β) (k : κ) : (l.foldl f d).get? k =
      ((l.find? fun e => compare k e.1 == .eq).map (·.2)).elim (d.get? k) (put (d.get? k)) := by
  induction l generalizing d with
  | nil => rfl
  | cons e l ih =>
    obtain ⟨hlt, h⟩ := List.pairwise_cons.mp h
    rw [List.foldl_cons, ih h, hf]
    by_cases hk : k = e.1
    · -- the key comes once, so the rest of the entries leave its value
      subst hk
      have hrest : l.find? (fun x => compare e.1 x.1 == .eq) = none :=
        List.find?_eq_none.mpr fun x hx => by simp [hlt x hx]
      simp [hrest]
    · rw [if_neg hk, List.find?_cons_of_neg (by simpa using hk)]

omit [Std.TransOrd κ] in
theorem get?_foldl_toList (x : Dict κ γ) (d : Dict κ β) (k : κ) :
    (x.toList.foldl f d).get? k = (x.get? k).elim (d.get? k) (put (d.get? k)) :=
  get?_foldl put hf x.sorted d k

end

theorem get?_insertAll [DecidableEq κ] (d e : Dict κ β) (k : κ) :
    (d.insertAll e).get? k = (e.get? k).or (d.get? k) := by
  rw [insertAll, get?_foldl_toList (fun _ v => some v) fun d e k => get?_insert d e.1 k e.2]
  cases e.get? k <;> rfl

theorem insertAll_self [DecidableEq κ] (d : Dict κ β) : d.insertAll d = d :=
  ext_get? fun k => by rw [get?_insertAll, Option.or_self]

omit [Std.LawfulEqOrd κ] in
theorem find?_keys_congr {a : Dict κ β} {b : Dict κ γ} {p : κ → Bool}
    (h : ∀ k, p k = true → (k ∈ a.keys ↔ k ∈ b.keys)) : a.keys.find? p = b.keys.find? p := by
  have ha : a.keys.Pairwise fun x y => compare x y = .lt := List.pairwise_map.mpr a.sorted
  have hb : b.keys.Pairwise fun x y => compare x y = .lt := List.pairwise_map.mpr b.sorted
  have hfilter : a.keys.filter p = b.keys.filter p :=
    eq_of_sorted (ha.sublist List.filter_sublist) (hb.sublist List.filter_sublist) fun k => by
      rw [List.mem_filter, List.mem_filter]
      exact ⟨fun ⟨hk, hp⟩ => ⟨(h k hp).mp hk, hp⟩, fun ⟨hk, hp⟩ => ⟨(h k hp).mpr hk, hp⟩⟩
  rw [← List.head?_filter, hfilter, List.head?_filter]

end
end ForcingData.Dict
