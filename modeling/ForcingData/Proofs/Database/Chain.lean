import ForcingData.Database.Entry
import ForcingData.Proofs.Results
import Mathlib.Algebra.Group.Nat.Defs

/-! # Chains of states

The history of an entry and its present state are one chain: numbered, and with a change at every
step (`IsChained`). A revision makes the chain longer and keeps what it says (`Follows`). -/

namespace ForcingData
namespace Entry

/-- All recorded states, the present one last. -/
def states (e : Entry) : List HistoryItem := e.history ++ [e.historyItem]

/-- Every state has its number and is another than the state before it. -/
structure IsChained (e : Entry) : Prop where
  revision : e.revision.toNat = e.history.length
  numbered : ∀ i (item : HistoryItem), e.history[i]? = some item → item.revision.toNat = i
  changing : ∀ i (a b : HistoryItem), e.states[i]? = some a → e.states[i + 1]? = some b →
    a.status ≠ b.status ∨ a.sha256 ≠ b.sha256

/-- The entry is the earlier one, or a later revision of it. -/
structure Follows (e earlier : Entry) : Prop where
  states : e = earlier ∨ earlier.states <+: e.history
  doi : earlier.doi.isSome = true → e.doi.isSome = true
  comment : earlier.comment.isSome = true → e.comment.isSome = true
  publicationStatus : earlier.publicationStatus.isSome = true → e.publicationStatus.isSome = true

/-- The first entry for a path. -/
structure IsFirst (e : Entry) : Prop where
  revision : e.revision = 0
  history : e.history = []

variable {e m earlier : Entry}

theorem IsFirst.isChained (h : e.IsFirst) : e.IsChained where
  revision := by
    rw [h.revision, h.history]
    rfl
  numbered := by
    intro i item hi
    rw [h.history] at hi
    cases hi
  changing := by
    intro i a b _ hb
    rw [states, h.history] at hb
    cases hb

theorem history_prefix_states (e : Entry) : e.history <+: e.states := List.prefix_append _ _

theorem getElem?_states {i : Nat} {item : HistoryItem} : e.states[i]? = some item ↔
    e.history[i]? = some item ∨ i = e.history.length ∧ e.historyItem = item := by
  rw [states, List.getElem?_append]
  split
  · rename_i hlt
    exact ⟨.inl, fun h => h.elim id fun hlast => absurd hlast.1 (Nat.ne_of_lt hlt)⟩
  · rename_i hge
    rw [List.getElem?_eq_none (Nat.not_lt.mp hge), List.getElem?_singleton]
    by_cases hi : i = e.history.length
    · simp [hi]
    · rw [if_neg (by omega)]
      simp [hi]

theorem history_revise (e previous : Entry) : (e.revise previous).history = previous.states := rfl

theorem length_states (e : Entry) : e.states.length = e.history.length + 1 := by
  rw [states, List.length_append]
  rfl

theorem isChained_revise {previous : Entry} (h : previous.IsChained)
    (hchanged : previous.sameState e = false) (hlt : previous.revision.toNat + 1 < 2 ^ 32) :
    (e.revise previous).IsChained where
  revision := by
    show (previous.revision + 1).toNat = previous.states.length
    rw [UInt32.toNat_add, show (1 : UInt32).toNat = 1 from rfl, Nat.mod_eq_of_lt hlt, h.revision,
      length_states]
  numbered := by
    intro i item hi
    rw [history_revise] at hi
    rcases getElem?_states.mp hi with hi | ⟨rfl, rfl⟩
    · exact h.numbered i item hi
    · exact h.revision
  changing := by
    intro i a b ha hb
    -- both states are old ones, or the later one is that of `previous`, as `e` is in no history
    rcases getElem?_states.mp hb with hb | ⟨hlast, rfl⟩
    · have hi : i + 1 < previous.states.length := (List.getElem?_eq_some_iff.mp hb).1
      rcases getElem?_states.mp ha with ha | ⟨hlast, _⟩
      · exact h.changing i a b ha hb
      · rw [history_revise] at hlast
        omega
    · rw [history_revise, length_states] at hlast
      have hi : i = previous.history.length := by omega
      rcases getElem?_states.mp ha with ha | ⟨hlast, _⟩
      · rw [history_revise] at ha
        rcases getElem?_states.mp ha with ha | ⟨_, rfl⟩
        · have := (List.getElem?_eq_some_iff.mp ha).1
          omega
        · show previous.status ≠ e.status ∨ previous.sha256 ≠ e.sha256
          simpa [sameState, ← not_and_or] using hchanged
      · rw [history_revise, length_states] at hlast
        omega

theorem Follows.refl (e : Entry) : e.Follows e := ⟨.inl rfl, id, id, id⟩

theorem Follows.trans (h : e.Follows m) (h' : m.Follows earlier) : e.Follows earlier where
  states := by
    rcases h'.states with rfl | hearlier
    · exact h.states
    · rcases h.states with rfl | hm
      · exact .inr hearlier
      · exact .inr ((hearlier.trans m.history_prefix_states).trans hm)
  doi := h.doi ∘ h'.doi
  comment := h.comment ∘ h'.comment
  publicationStatus := h.publicationStatus ∘ h'.publicationStatus

theorem follows_revise (e previous : Entry) : (e.revise previous).Follows previous := by
  have hor {x y : Option String} (hy : y.isSome = true) : (x <|> y).isSome = true := by
    rw [Option.isSome_orElse, hy, Bool.or_true]
  exact ⟨.inr (List.prefix_refl _), hor, hor, hor⟩

theorem Follows.history (h : e.Follows earlier) : earlier.history <+: e.history := by
  rcases h.states with rfl | hs
  · exact List.prefix_refl _
  · exact earlier.history_prefix_states.trans hs

theorem Follows.getElem?_history (h : e.Follows earlier) (hc : earlier.IsChained)
    (hlt : earlier.revision.toNat < e.history.length) :
    e.history[earlier.revision.toNat]? = some earlier.historyItem := by
  rw [hc.revision] at hlt ⊢
  rcases h.states with rfl | ⟨later, hlater⟩
  · exact absurd hlt (Nat.lt_irrefl _)
  · rw [← hlater, List.getElem?_append_left (by rw [length_states]; exact Nat.lt_succ_self _)]
    exact getElem?_states.mpr (.inr ⟨rfl, rfl⟩)

end Entry

end ForcingData
