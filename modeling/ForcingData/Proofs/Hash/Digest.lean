import ForcingData.Hash.Sha256
import Mathlib.Data.List.Basic

/-! # Digests as texts

The text of a digest has 64 digits, and tells which digest it is. -/

namespace ForcingData.Hash

theorem hexDigit_inj {m n : Nat} (h : hexDigit m = hexDigit n) : m % 16 = n % 16 := by
  have hall : ∀ a < 16, ∀ b < 16, hexDigit a = hexDigit b → a = b := by decide
  have hmod : ∀ k, hexDigit (k % 16) = hexDigit k := fun k => by
    rw [hexDigit, Nat.mod_mod, ← hexDigit]
  refine hall _ (Nat.mod_lt _ (by decide)) _ (Nat.mod_lt _ (by decide)) ?_
  rw [hmod, hmod, h]

theorem hexOfByte_inj {a b : UInt8} (h : hexOfByte a = hexOfByte b) : a = b := by
  obtain ⟨hhigh, hlow⟩ := List.cons.inj h
  have hhigh := hexDigit_inj hhigh
  have hlow := hexDigit_inj (List.cons.inj hlow).1
  have ha := a.toNat_lt
  have hb := b.toNat_lt
  exact UInt8.toNat_inj.mp (by omega)

theorem flatMap_inj {α β : Type} {f : α → List β} {k : Nat} (hlength : ∀ a, (f a).length = k)
    (hf : ∀ a b, f a = f b → a = b) : ∀ {as bs : List α}, as.length = bs.length →
      as.flatMap f = bs.flatMap f → as = bs
  | [], [], _, _ => rfl
  | [], _ :: _, h, _ | _ :: _, [], h, _ => by simp at h
  | a :: as, b :: bs, h, heq => by
    rw [List.flatMap_cons, List.flatMap_cons] at heq
    obtain ⟨hhead, htail⟩ := List.append_inj heq (by rw [hlength, hlength])
    rw [hf a b hhead, flatMap_inj hlength hf (Nat.succ.inj h) htail]

theorem bytesOfNat_inj {v w : UInt32} (h : bytesOfNat 4 v.toNat = bytesOfNat 4 w.toNat) :
    v = w := by
  have hbyte (i : Nat) := congrArg (fun bs => (bs[i]?).map UInt8.toNat) h
  have h0 : v.toNat / 2 ^ 24 % 256 = w.toNat / 2 ^ 24 % 256 := by
    simpa [bytesOfNat, List.range_succ, Nat.shiftRight_eq_div_pow] using hbyte 0
  have h1 : v.toNat / 2 ^ 16 % 256 = w.toNat / 2 ^ 16 % 256 := by
    simpa [bytesOfNat, List.range_succ, Nat.shiftRight_eq_div_pow] using hbyte 1
  have h2 : v.toNat / 2 ^ 8 % 256 = w.toNat / 2 ^ 8 % 256 := by
    simpa [bytesOfNat, List.range_succ, Nat.shiftRight_eq_div_pow] using hbyte 2
  have h3 : v.toNat % 256 = w.toNat % 256 := by
    simpa [bytesOfNat, List.range_succ] using hbyte 3
  have hv := v.toNat_lt
  have hw := w.toNat_lt
  exact UInt32.toNat_inj.mp (by omega)

theorem length_hexOfByte (b : UInt8) : (hexOfByte b).length = 2 := rfl

theorem length_flatMap_hexOfByte (bs : List UInt8) :
    (bs.flatMap hexOfByte).length = 2 * bs.length := by
  induction bs with
  | nil => rfl
  | cons b bs ih =>
    rw [List.flatMap_cons, List.length_append, ih, List.length_cons]
    show 2 + 2 * bs.length = _
    omega

theorem length_flatMap_bytesOfNat (w : UInt32) :
    ((bytesOfNat 4 w.toNat).flatMap hexOfByte).length = 8 := length_flatMap_hexOfByte _

theorem Digest.length_hex (x : Digest) : x.hex.toList.length = 64 := by
  rw [hex, String.toList_ofList]
  simp only [words, List.flatMap_cons, List.flatMap_nil, List.length_append,
    length_flatMap_bytesOfNat, List.length_nil]

theorem Digest.hex_inj {x y : Digest} (h : x.hex = y.hex) : x = y := by
  have hwords : x.words = y.words := by
    refine flatMap_inj length_flatMap_bytesOfNat (fun v w hvw => bytesOfNat_inj ?_) rfl
      (String.ofList_injective h)
    exact flatMap_inj length_hexOfByte (fun _ _ => hexOfByte_inj) rfl hvw
  cases x
  cases y
  simpa [words] using hwords

end ForcingData.Hash
