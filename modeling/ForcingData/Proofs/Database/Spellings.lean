import ForcingData.Proofs.Database.Map
import Mathlib.Data.List.Pairwise

/-! # Spellings of one path

Reports compare paths by their parts, the database names records by the text of the path. Two
spellings of one path therefore have a record each, and what is stored under the one is not found
under the other. `Filled.spelt`: a database has one record for each path exactly if every path was
given in one spelling only. -/

namespace ForcingData.Database
open FileTree
variable {db : Database} {t : FileTree} {es : List Entry}

/-- No two of the paths are spellings of one. -/
def SpeltOnce (paths : List Path) : Prop := ∀ p ∈ paths, ∀ q ∈ paths, p.same q = true → p = q

theorem same_symm {p q : Path} (h : p.same q = true) : q.same p = true := by
  rw [Path.same, beq_iff_eq] at h ⊢
  exact h.symm

theorem pairwise_same_iff {all : List Entry} (honce : (all.map (·.path)).Nodup)
    (hmem : ∀ e, e ∈ all ↔ written es e.path = some e) :
    all.Pairwise (fun a b => a.path.same b.path = false) ↔ SpeltOnce (es.map (·.path)) := by
  have hpaths : ∀ e ∈ all, e.path ∈ es.map (·.path) := fun e he =>
    (mem_map_path_of_written hmem).mp (List.mem_map_of_mem he)
  constructor
  · intro hpair p hp q hq hsame
    obtain ⟨a, ha, rfl⟩ := List.mem_map.mp ((mem_map_path_of_written hmem).mpr hp)
    obtain ⟨b, hb, rfl⟩ := List.mem_map.mp ((mem_map_path_of_written hmem).mpr hq)
    by_contra hne
    have hsymm : Std.Symm fun a b : Entry => a.path.same b.path = false := by
      refine ⟨fun x y hxy => Bool.eq_false_iff.mpr fun hyx => ?_⟩
      rw [same_symm hyx] at hxy
      cases hxy
    have hdiffer := hpair.forall ha hb fun he => hne (congrArg Entry.path he)
    rw [hsame] at hdiffer
    cases hdiffer
  · intro hspelt
    have hne : all.Pairwise fun a b => a.path ≠ b.path := List.pairwise_map.mp honce
    refine hne.imp_of_mem fun {a b} ha hb hab => Bool.eq_false_iff.mpr fun hsame => hab ?_
    exact hspelt _ (hpaths a ha) _ (hpaths b hb) hsame

/-- What is found under a path is what was stored under this very spelling of it. -/
theorem Filled.get?_eq_iff (h : db.Filled es t) {p q : Path}
    (hapart : HashedApart (p :: es.map (·.path))) (hq : q ∈ es.map (·.path)) :
    db.get? t p = db.get? t q ↔ p = q := by
  refine ⟨fun heq => ?_, fun heq => heq ▸ rfl⟩
  have hqapart : HashedApart (q :: es.map (·.path)) := hapart.mono
    (List.cons_subset.mpr ⟨List.mem_cons_of_mem _ hq, List.subset_cons_self ..⟩)
  rw [h.get?_eq hapart, h.get?_eq hqapart, Except.ok.injEq] at heq
  obtain ⟨e, he⟩ := Option.isSome_iff_exists.mp (written_isSome.mpr hq)
  rw [← path_of_written he, ← path_of_written (heq.trans he)]

/-- One record for each path, and every spelling finds it, as far as every path was spelt in one
way; two spellings have two records, and a third one finds nothing. -/
theorem Filled.spelt (h : db.Filled es t) (hapart : HashedApart (es.map (·.path))) :
    (∃ all, db.all t = .ok all ∧
      (all.Pairwise (fun a b => a.path.same b.path = false) ↔ SpeltOnce (es.map (·.path)))) ∧
    ∀ p, HashedApart (p :: es.map (·.path)) →
      (∀ q ∈ es.map (·.path), db.get? t p = db.get? t q ↔ p = q) ∧
      (p ∉ es.map (·.path) → db.get? t p = .ok none) := by
  obtain ⟨all, hall, -, honce, hmem⟩ := h.exists_all hapart
  refine ⟨⟨all, hall, pairwise_same_iff honce hmem⟩, fun p hp => ⟨fun q hq => ?_, fun hnot => ?_⟩⟩
  · exact h.get?_eq_iff hp hq
  · rw [h.get?_eq hp]
    rw [← written_isSome, Bool.not_eq_true, Option.isSome_eq_false_iff,
      Option.isNone_iff_eq_none] at hnot
    rw [hnot]

/-! ### A file with two records -/

/-- The entry above, its path with a slash too many. -/
def slashedEntry : Entry := { firstEntry with path := ⟨"/data//co2.nc"⟩ }

def slashedTree : FileTree := withRecord ["db"] firstTree slashedEntry

theorem on_upsert_slashedEntry :
    (sampleDatabase.upsert slashedEntry).on firstTree = (.ok .created, slashedTree) := by
  have hname : recordName slashedEntry.path ≠ recordName firstEntry.path := by decide +kernel
  have hnothing : firstTree.node? (["db"] ++ [recordName slashedEntry.path]) = none := by
    rw [firstTree, node?_withRecord, if_neg (by simpa using hname), nothing_sampleTree]
  rw [on_upsert_of_none (storeInv_firstTree.get?_of_nothing hnothing),
    storeInv_firstTree.on_writeRecord_eq_ok (directoryOf_recordPath_sample _) (by decide)
      (nothing_firstTree (by decide))]
  rfl

theorem filled_slashedTree :
    sampleDatabase.Filled [firstEntry, slashedEntry] slashedTree :=
  ((Filled.empty all_sampleTree).upsert isTimed_firstEntry on_upsert_firstEntry).upsert
    ⟨isTimed_firstEntry.timestamp, nofun⟩ on_upsert_slashedEntry

/-- The same entry, stored twice for one path; a third spelling of the path has none. -/
theorem spelt_sample :
    firstEntry.path.same slashedEntry.path = true ∧
      (∃ all, sampleDatabase.all slashedTree = .ok all ∧
        ¬all.Pairwise (fun a b => a.path.same b.path = false)) ∧
      firstEntry.path.same ⟨"/data/./co2.nc"⟩ = true ∧
      sampleDatabase.get? slashedTree ⟨"/data/./co2.nc"⟩ = .ok none := by
  have hapart : HashedApart (⟨"/data/./co2.nc"⟩ :: [firstEntry, slashedEntry].map (·.path)) := by
    unfold HashedApart
    decide +kernel
  obtain ⟨⟨all, hall, hiff⟩, hget⟩ :=
    filled_slashedTree.spelt (hapart.mono (List.subset_cons_self ..))
  refine ⟨by decide, ⟨all, hall, fun hpair => ?_⟩, by decide, (hget _ hapart).2 (by decide)⟩
  have hsame := hiff.mp hpair firstEntry.path (by simp) slashedEntry.path (by simp) (by decide)
  exact absurd hsame (by decide)

end ForcingData.Database
