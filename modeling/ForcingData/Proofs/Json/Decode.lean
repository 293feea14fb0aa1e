import ForcingData.Json.Decode
import ForcingData.Json.Encode
import ForcingData.Proofs.Dict
import ForcingData.Proofs.Json.RoundTrip
import ForcingData.Proofs.Results

/-! # Data in JSON, there and back

Data of a kind is read as it was written if its parts are: for lists, dictionaries, optional values
and numbers. -/

namespace ForcingData.Json
variable {α β : Type}

theorem Value.trees_eq_map : ∀ vs : List Value, Value.trees vs = vs.map Value.tree
  | [] => rfl
  | v :: vs => by rw [Value.trees, trees_eq_map vs, List.map_cons]

theorem Value.memberTrees_eq_map : ∀ ms : List (String × Value),
    Value.memberTrees ms = ms.map fun m => (some m.1, m.2.tree)
  | [] => rfl
  | (name, v) :: ms => by rw [Value.memberTrees, memberTrees_eq_map ms, List.map_cons]

/-! ### Plain values -/

theorem Value.isPlain_array {json : α → Value} {l : List α}
    (h : ∀ a ∈ l, (json a).isPlain = true) : (Value.array (l.map json)).isPlain = true := by
  rw [Value.isPlain]
  induction l with
  | nil => rfl
  | cons a l ih =>
    rw [List.map_cons, Value.arePlain, h a (List.mem_cons_self ..), Bool.true_and]
    exact ih fun b hb => h b (List.mem_cons_of_mem _ hb)

theorem Value.isPlain_object : ∀ {ms : List (String × Value)},
    (∀ m ∈ ms, m.2.isPlain = true) → (Value.object ms).isPlain = true
  | [], _ => rfl
  | m :: ms, h => by
    have ih := isPlain_object fun m' hm => h m' (List.mem_cons_of_mem _ hm)
    rw [Value.isPlain] at ih ⊢
    rw [Value.membersArePlain, h m (List.mem_cons_self ..), Bool.true_and, ih]

theorem Value.isPlain_ofDict {json : β → Value} (h : ∀ v, (json v).isPlain = true)
    (d : Dict String β) : (Value.ofDict json d).isPlain = true := by
  refine isPlain_object fun m hm => ?_
  obtain ⟨e, _, rfl⟩ := List.mem_map.mp hm
  exact h e.2

theorem Value.isPlain_ofOption {json : α → Value} (h : ∀ a, (json a).isPlain = true)
    (x : Option α) : (Value.ofOption json x).isPlain = true := by
  cases x with
  | none => rfl
  | some a => exact h a

theorem Value.isPlain_nat {n : Nat} (h : n ≤ Lexeme.maxSignificand) :
    (Value.nat n).isPlain = true := by
  simp [Value.nat, Value.isPlain, Number.isWhole, h]

theorem uint32_le (n : UInt32) : n.toNat ≤ Lexeme.maxSignificand :=
  Nat.le_trans (Nat.le_of_lt n.toNat_lt) (by decide)

/-! ### Reading what was written -/

namespace Tree

theorem uint32?_nat (n : UInt32) : uint32? (Value.nat n.toNat).tree = some n := by
  have hle : n.toNat ≤ Word.greatest 32 := Nat.le_pred_of_lt n.toNat_lt
  simp [uint32?, nat?, Value.nat, Value.tree, hle]

theorem option?_ofOption {json : α → Value} {item? : Tree → Option α}
    (h : ∀ a, item? (json a).tree = some a) (hnull : ∀ a, (json a).tree ≠ .null) (x : Option α) :
    option? item? (Value.ofOption json x).tree = some x := by
  cases x with
  | none => rfl
  | some a =>
    rw [Value.ofOption, option?.eq_def]
    split
    · exact absurd ‹_› (hnull a)
    · rw [h]
      rfl

theorem option?_text (x : Option String) :
    option? string? (Value.ofOption .text x).tree = some x :=
  option?_ofOption (fun _ => rfl) (fun _ h => by cases h) x

theorem list?_map {json : α → Value} {item? : Tree → Option α} {l : List α}
    (h : ∀ a ∈ l, item? (json a).tree = some a) :
    list? item? (Value.array (l.map json)).tree = some l := by
  rw [Value.tree, Value.trees_eq_map, list?, List.map_map, Option.mapM_eq_some,
    List.forall₂_map_left_iff, List.forall₂_same]
  exact h

theorem forall_mem_of_list? {item? : Tree → Option α} {p : α → Prop}
    (hp : ∀ t a, item? t = some a → p a) {t : Tree} {l : List α} (h : list? item? t = some l) :
    ∀ a ∈ l, p a := by
  cases t with
  | array items =>
    have hall := Option.mapM_eq_some.mp h
    clear h
    induction hall with
    | nil => simp
    | cons hitem _ ih => exact List.forall_mem_cons.mpr ⟨hp _ _ hitem, ih⟩
  | _ => cases h

theorem dict?_ofDict {json : β → Value} {item? : Tree → Option β}
    (h : ∀ v, item? (json v).tree = some v) (d : Dict String β) :
    dict? item? (Value.ofDict json d).tree = some d := by
  have hentries : entries? item? (Value.ofDict json d).tree = some d.toList := by
    rw [Value.ofDict, Value.tree, Value.memberTrees_eq_map, entries?, List.map_map,
      Option.mapM_eq_some, List.forall₂_map_left_iff, List.forall₂_same]
    intro e _
    simp [h]
  rw [dict?, hentries, Option.map_some, Dict.ofList_toList]

end Tree

namespace Record
variable {r : Record} {name : String} {t : Tree}

theorem required_eq_some {item? : Tree → Option α} {a : α} (hf : r.field? name = some t)
    (ht : item? t = some a) : r.required name item? = some a := by
  rw [required, hf]
  exact ht

theorem optional_eq_some {item? : Tree → Option α} {x : Option α} (hf : r.field? name = some t)
    (ht : t.option? item? = some x) : r.optional name item? = some x := by
  rw [optional, hf]
  exact ht

theorem withDefault_eq_some {item? : Tree → Option α} {a b : α} (hf : r.field? name = some t)
    (ht : item? t = some a) : r.withDefault name b item? = some a := by
  rw [withDefault, hf]
  exact ht

end Record
end ForcingData.Json
