import ForcingData.Path
import ForcingData.Proofs.Tree.Report
import ForcingData.Text.Quoted
import Mathlib.Data.List.Perm.Basic

/-! # Shared tracking ids

What is found about files that share a tracking id lists their paths, in the order in which they
were met. `Finding.Relisted`: the same is found, and only the paths may be listed in another
order. -/

namespace ForcingData

/-- What is said about the files that have an id. -/
def sharedMessage (id : String) (paths : List Path) : String :=
  s!"tracking_id={Text.quoted id} is shared by {Text.quotedList (paths.map (·.text))}"

/-- The same finding; if it is about a shared id, it may list the paths in another order. -/
inductive Finding.Relisted : Finding → Finding → Prop
  | same (f : Finding) : Relisted f f
  | listed {f : Finding} (hfault : f.fault = some .notUnique) (id : String)
      {paths paths' : List Path} (hperm : paths.Perm paths') :
      Relisted { f with message := sharedMessage id paths }
        { f with message := sharedMessage id paths' }

theorem Finding.Relisted.status {f f' : Finding} (h : f.Relisted f') : f.status = f'.status := by
  cases h <;> rfl

namespace Findings
variable {fs fs' : Findings}

theorem summary_relisted (h : List.Forall₂ Finding.Relisted fs fs') :
    fs.summary = fs'.summary := by
  have hstatus : fs.map (·.status) = fs'.map (·.status) := by
    induction h with
    | nil => rfl
    | cons hf _ ih => rw [List.map_cons, List.map_cons, hf.status, ih]
  have hfold (fs : Findings) : fs.summary = (fs.map (·.status)).foldl Status.max .pass := by
    rw [List.foldl_map, summary]
  rw [hfold, hfold, hstatus]

theorem relisted_concat (fs : Findings) {f f' : Finding} (h : f.Relisted f') :
    List.Forall₂ Finding.Relisted (fs ++ [f]) (fs ++ [f']) :=
  List.rel_append (List.forall₂_same.mpr fun x _ => .same x) (.cons h .nil)

end Findings

/-! ### Ids that stand at two places -/

/-- The id at this place stands at another one, too. -/
def SharedAt (ids : List (Option String)) (i : Nat) : Prop :=
  ∃ id, ids[i]? = some (some id) ∧ ∃ j, j ≠ i ∧ ids[j]? = some (some id)

theorem one_lt_count_iff {α : Type} [BEq α] [LawfulBEq α] {l : List α} {i : Nat} {a : α}
    (hi : l[i]? = some a) : 1 < l.count a ↔ ∃ j, j ≠ i ∧ l[j]? = some a := by
  obtain ⟨hlt, rfl⟩ := List.getElem?_eq_some_iff.mp hi
  rw [← (List.getElem_cons_eraseIdx_perm hlt).count_eq, List.count_cons_self,
    Nat.lt_add_left_iff_pos, List.count_pos_iff, List.mem_eraseIdx_iff_getElem?]

theorem sharedAt_iff {ids : List (Option String)} {i : Nat} {id : String}
    (hi : ids[i]? = some (some id)) : SharedAt ids i ↔ 1 < ids.count (some id) := by
  rw [one_lt_count_iff hi]
  refine ⟨fun ⟨id', hi', h⟩ => ?_, fun h => ⟨id, hi, h⟩⟩
  rw [hi, Option.some.injEq, Option.some.injEq] at hi'
  exact hi' ▸ h

end ForcingData
