import Mathlib.Data.List.Basic
import Mathlib.Tactic.Ring

/-! Reading a stream of bytes that arrives in pieces: exact reads, and fixed-width big-endian numbers. -/

namespace Nexal.Framing

/-! Exact reads -/

/-- The next `n` bytes, from as many pieces as it takes, and the pieces that are left. -/
def readExact : ℕ → List (List UInt8) → Option (List UInt8 × List (List UInt8))
  | 0, pieces => some ([], pieces)
  | _ + 1, [] => none
  | n + 1, piece :: pieces =>
    if piece.length ≤ n + 1 then
      (readExact (n + 1 - piece.length) pieces).map fun got => (piece ++ got.1, got.2)
    else some (piece.take (n + 1), piece.drop (n + 1) :: pieces)

theorem readExact_of_le {n : ℕ} {pieces : List (List UInt8)} (h : n ≤ pieces.flatten.length) :
    ∃ rest, readExact n pieces = some (pieces.flatten.take n, rest) ∧ rest.flatten = pieces.flatten.drop n := by
  induction pieces generalizing n with
  | nil =>
    obtain rfl : n = 0 := Nat.le_zero.mp h
    exact ⟨[], rfl, rfl⟩
  | cons piece pieces ih =>
    cases n with
    | zero => exact ⟨piece :: pieces, by rw [readExact, List.take_zero], by rw [List.drop_zero]⟩
    | succ n =>
      rw [readExact, List.flatten_cons]
      rw [List.flatten_cons, List.length_append] at h
      split_ifs with hle
      · obtain ⟨rest, hread, hrest⟩ := @ih (n + 1 - piece.length) (by omega)
        refine ⟨rest, ?_, ?_⟩
        · rw [hread, Option.map_some, List.take_append, List.take_of_length_le hle]
        · rw [hrest, List.drop_append, List.drop_of_length_le hle, List.nil_append]
      · have hlt : n + 1 ≤ piece.length := by omega
        refine ⟨piece.drop (n + 1) :: pieces, ?_, ?_⟩
        · rw [List.take_append_of_le_length hlt]
        · rw [List.flatten_cons, List.drop_append_of_le_length hlt]

theorem readExact_of_lt {n : ℕ} {pieces : List (List UInt8)} (h : pieces.flatten.length < n) :
    readExact n pieces = none := by
  induction pieces generalizing n with
  | nil =>
    cases n with
    | zero => exact absurd h (Nat.not_lt_zero _)
    | succ n => rfl
  | cons piece pieces ih =>
    rw [List.flatten_cons, List.length_append] at h
    cases n with
    | zero => exact absurd h (Nat.not_lt_zero _)
    | succ n => rw [readExact, if_pos (by omega), @ih (n + 1 - piece.length) (by omega), Option.map_none]

/-- An exact read gives what the stream begins with, however it is cut. -/
theorem readExact_append {x y : List UInt8} {pieces : List (List UInt8)} (h : pieces.flatten = x ++ y) :
    ∃ rest, readExact x.length pieces = some (x, rest) ∧ rest.flatten = y := by
  have hle : x.length ≤ pieces.flatten.length := by
    rw [h, List.length_append]
    omega
  obtain ⟨rest, hread, hrest⟩ := readExact_of_le hle
  rw [h, List.take_left] at hread
  rw [h, List.drop_left] at hrest
  exact ⟨rest, hread, hrest⟩

theorem length_of_readExact {n : ℕ} {pieces rest : List (List UInt8)} {x : List UInt8}
    (h : readExact n pieces = some (x, rest)) : pieces.flatten.length = n + rest.flatten.length := by
  by_cases hle : n ≤ pieces.flatten.length
  · obtain ⟨rest', hread, hrest⟩ := readExact_of_le hle
    obtain ⟨-, rfl⟩ := Prod.mk.inj (Option.some.inj (hread.symm.trans h))
    rw [hrest, List.length_drop]
    omega
  · rw [readExact_of_lt (Nat.not_le.mp hle)] at h
    cases h

/-! Big-endian numbers -/

/-- The lowest `width` bytes of a number, the highest of them first. -/
def beBytes : ℕ → ℕ → List UInt8
  | 0, _ => []
  | width + 1, n => beBytes width (n / 256) ++ [UInt8.ofNat n]

def ofBeBytes (bytes : List UInt8) : ℕ := bytes.foldl (fun n b => n * 256 + b.toNat) 0

theorem length_beBytes (width n : ℕ) : (beBytes width n).length = width := by
  induction width generalizing n with
  | zero => rfl
  | succ width ih => rw [beBytes, List.length_append, ih, List.length_singleton]

theorem ofBeBytes_beBytes (width n : ℕ) : ofBeBytes (beBytes width n) = n % 256 ^ width := by
  induction width generalizing n with
  | zero => rw [Nat.pow_zero, Nat.mod_one]; rfl
  | succ width ih =>
    have hbyte : (UInt8.ofNat n).toNat = n % 256 := UInt8.toNat_ofNat'
    have hfold : ofBeBytes (beBytes (width + 1) n) = ofBeBytes (beBytes width (n / 256)) * 256 + (UInt8.ofNat n).toNat := by
      rw [ofBeBytes, beBytes, List.foldl_append]
      rfl
    rw [hfold, hbyte, ih, Nat.pow_succ, Nat.mul_comm (256 ^ width) 256, Nat.mod_mul]
    ring

end Nexal.Framing
