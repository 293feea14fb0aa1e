/-! # Dictionaries

`Dict κ β`: finite maps, kept as the list of their entries with strictly increasing keys. Two
dictionaries with the same entries are therefore equal as values, and iteration is in key order.
Where two spellings of a key compare as equal, the one that came first stays. -/

namespace ForcingData

structure Dict (κ β : Type) [Ord κ] where
  toList : List (κ × β)
  sorted : toList.Pairwise fun a b => compare a.1 b.1 = .lt

namespace Dict
variable {κ β γ : Type} [Ord κ]

instance [DecidableEq κ] [DecidableEq β] : DecidableEq (Dict κ β) := fun a b =>
  decidable_of_iff (a.toList = b.toList) ⟨fun h => by cases a; cases b; simp_all, fun h => h ▸ rfl⟩

@[ext] theorem ext {a b : Dict κ β} (h : a.toList = b.toList) : a = b := by
  cases a; cases b; simp_all

def empty : Dict κ β := ⟨[], .nil⟩

instance : EmptyCollection (Dict κ β) := ⟨empty⟩
instance : Inhabited (Dict κ β) := ⟨empty⟩

def size (d : Dict κ β) : Nat := d.toList.length
def isEmpty (d : Dict κ β) : Bool := d.toList.isEmpty
def keys (d : Dict κ β) : List κ := d.toList.map (·.1)
def values (d : Dict κ β) : List β := d.toList.map (·.2)

/-- The value under the key that compares as equal to `k`. -/
def get? (d : Dict κ β) (k : κ) : Option β :=
  (d.toList.find? fun e => compare k e.1 == .eq).map (·.2)

def contains (d : Dict κ β) (k : κ) : Bool := (d.get? k).isSome

/-- The entry for `k` in a sorted list: its value replaced, or put where it belongs. -/
def insertEntry (k : κ) (v : β) : List (κ × β) → List (κ × β)
  | [] => [(k, v)]
  | e :: rest =>
    match compare k e.1 with
    | .lt => (k, v) :: e :: rest
    | .eq => (e.1, v) :: rest
    | .gt => e :: insertEntry k v rest

theorem key_of_mem_insertEntry {k : κ} {v : β} {l : List (κ × β)} {x : κ × β}
    (h : x ∈ insertEntry k v l) : x.1 = k ∨ ∃ e ∈ l, e.1 = x.1 := by
  induction l with
  | nil => simp [insertEntry] at h; exact .inl (by rw [h])
  | cons e rest ih =>
    rw [insertEntry] at h
    split at h
    · rcases List.mem_cons.mp h with rfl | h
      · exact .inl rfl
      · exact .inr ⟨x, h, rfl⟩
    · rcases List.mem_cons.mp h with rfl | h
      · exact .inr ⟨e, by simp, rfl⟩
      · exact .inr ⟨x, by simp [h], rfl⟩
    · rcases List.mem_cons.mp h with rfl | h
      · exact .inr ⟨x, by simp, rfl⟩
      · rcases ih h with h | ⟨y, hy, hxy⟩
        · exact .inl h
        · exact .inr ⟨y, by simp [hy], hxy⟩

variable [Std.TransOrd κ]

theorem sorted_insertEntry (k : κ) (v : β) {l : List (κ × β)}
    (h : l.Pairwise fun a b => compare a.1 b.1 = .lt) :
    (insertEntry k v l).Pairwise fun a b => compare a.1 b.1 = .lt := by
  induction l with
  | nil => simp [insertEntry]
  | cons e rest ih =>
    have he := List.pairwise_cons.mp h
    rw [insertEntry]
    split
    · rename_i hlt
      refine List.pairwise_cons.mpr ⟨fun x hx => ?_, h⟩
      rcases List.mem_cons.mp hx with rfl | hx
      · exact hlt
      · exact Std.TransCmp.lt_trans hlt (he.1 x hx)
    · exact List.pairwise_cons.mpr ⟨fun x hx => he.1 x hx, he.2⟩
    · rename_i hgt
      refine List.pairwise_cons.mpr ⟨fun x hx => ?_, ih he.2⟩
      rcases key_of_mem_insertEntry hx with hk | ⟨y, hy, hyx⟩
      · rw [hk]; exact Std.OrientedCmp.lt_of_gt hgt
      · rw [← hyx]; exact he.1 y hy

def insert (d : Dict κ β) (k : κ) (v : β) : Dict κ β :=
  ⟨insertEntry k v d.toList, sorted_insertEntry k v d.sorted⟩

/-- Of entries with equal keys the last value counts, under the first spelling. -/
def ofList (l : List (κ × β)) : Dict κ β :=
  l.foldl (fun d e => d.insert e.1 e.2) empty

/-- All entries of `e` put into `d`. -/
def insertAll (d e : Dict κ β) : Dict κ β :=
  e.toList.foldl (fun d x => d.insert x.1 x.2) d

omit [Std.TransOrd κ] in
theorem sorted_filter {l : List (κ × β)} (p : κ × β → Bool)
    (h : l.Pairwise fun a b => compare a.1 b.1 = .lt) :
    (l.filter p).Pairwise fun a b => compare a.1 b.1 = .lt :=
  h.sublist List.filter_sublist

omit [Std.TransOrd κ] in
theorem sorted_filterMap {l : List (κ × β)} (f : κ → β → Option γ)
    (h : l.Pairwise fun a b => compare a.1 b.1 = .lt) :
    (l.filterMap fun e => (f e.1 e.2).map (e.1, ·)).Pairwise
      fun a b => compare a.1 b.1 = .lt := by
  refine List.pairwise_filterMap.mpr (h.imp fun {a b} hab x hx y hy => ?_)
  obtain ⟨u, _, rfl⟩ := Option.map_eq_some_iff.mp hx
  obtain ⟨w, _, rfl⟩ := Option.map_eq_some_iff.mp hy
  exact hab

omit [Std.TransOrd κ]

def filter (d : Dict κ β) (p : κ → β → Bool) : Dict κ β :=
  ⟨d.toList.filter fun e => p e.1 e.2, sorted_filter _ d.sorted⟩

/-- Changes the values, and drops the entries for which there is none. -/
def filterMap (d : Dict κ β) (f : κ → β → Option γ) : Dict κ γ :=
  ⟨d.toList.filterMap fun e => (f e.1 e.2).map (e.1, ·), sorted_filterMap f d.sorted⟩

def map (d : Dict κ β) (f : β → γ) : Dict κ γ :=
  d.filterMap fun _ v => some (f v)

def erase (d : Dict κ β) (k : κ) : Dict κ β :=
  d.filter fun k' _ => compare k k' != .eq

end Dict
end ForcingData
