import Mathlib.Data.List.TakeWhile

/-! # Runs

The longest run of elements at the start of a list that have a property, and what comes after it. -/

namespace ForcingData
variable {α : Type}

theorem mem_dropWhile {p : α → Bool} {a : α} (ha : p a = false) {l : List α} (h : a ∈ l) :
    a ∈ l.dropWhile p := by
  rw [← List.takeWhile_append_dropWhile (p := p) (l := l), List.mem_append] at h
  rcases h with h | h
  · rw [List.mem_takeWhile_imp h] at ha
    cases ha
  · exact h

theorem run_append {p : α → Bool} {v l : List α} (hv : ∀ a ∈ v, p a = true)
    (hl : ∀ a ∈ l.head?, p a = false) :
    (v ++ l).takeWhile p = v ∧ (v ++ l).dropWhile p = l := by
  rw [List.takeWhile_append_of_pos hv, List.dropWhile_append_of_pos hv]
  cases l with
  | nil => simp
  | cons a l => simp [hl a rfl]

/-- A run that ends at the end or before an element of another kind is determined by the list. -/
theorem run_unique {p : α → Bool} {v v' l l' : List α} (hv : ∀ a ∈ v, p a = true)
    (hv' : ∀ a ∈ v', p a = true) (hl : l.head?.all (!p ·) = true)
    (hl' : l'.head?.all (!p ·) = true) (h : v ++ l = v' ++ l') : v = v' ∧ l = l' := by
  have stop {l : List α} (hl : l.head?.all (!p ·) = true) : l.takeWhile p = [] := by
    cases l with
    | nil => rfl
    | cons x l => exact List.takeWhile_cons_of_neg (by simpa using hl)
  have hw := congrArg (List.takeWhile p) h
  rw [List.takeWhile_append_of_pos hv, List.takeWhile_append_of_pos hv', stop hl, stop hl',
    List.append_nil, List.append_nil] at hw
  subst hw
  exact ⟨rfl, List.append_cancel_left h⟩

theorem first_unique [DecidableEq α] {x : α} {a a' b b' : List α} (ha : x ∉ a) (ha' : x ∉ a')
    (h : a ++ x :: b = a' ++ x :: b') : a = a' ∧ b = b' := by
  have differs {l : List α} (hl : x ∉ l) : ∀ y ∈ l, (y != x) = true := by
    rintro y hy
    rw [bne_iff_ne]
    rintro rfl
    exact hl hy
  obtain ⟨ha, hb⟩ := run_unique (p := (· != x)) (differs ha) (differs ha') (by simp) (by simp) h
  exact ⟨ha, (List.cons.inj hb).2⟩

theorem reverse_takeWhile_reverse [DecidableEq α] {x : α} {a b : List α} (h : x ∉ b) :
    ((a ++ x :: b).reverse.takeWhile (· != x)).reverse = b := by
  have hrun : ∀ y ∈ b.reverse, (y != x) = true := by
    intro y hy
    rw [bne_iff_ne]
    rintro rfl
    exact h (List.mem_reverse.mp hy)
  rw [List.reverse_append, List.reverse_cons, List.append_assoc,
    List.takeWhile_append_of_pos hrun]
  simp

end ForcingData
