import Mathlib.Tactic.IntervalCases
import Nexal.Lib.Utf8

/-! Percent-encoding: texts in which a percent sign and two digits stand for a byte. -/

namespace Nexal.Percent

open Utf8 (bytes bytes_cons length_encodeChar_pos)

def hexValue (c : Char) : Option ℕ :=
  if 48 ≤ c.toNat ∧ c.toNat ≤ 57 then some (c.toNat - 48)
  else if 97 ≤ c.toNat ∧ c.toNat ≤ 102 then some (c.toNat - 87)
  else if 65 ≤ c.toNat ∧ c.toNat ≤ 70 then some (c.toNat - 55)
  else none

/-- The byte that two digits stand for. -/
def hexByte (c d : Char) : Option UInt8 :=
  match hexValue c, hexValue d with
  | some hi, some lo => some (UInt8.ofNat (16 * hi + lo))
  | _, _ => none

def percentDecode : List Char → List UInt8
  | '%' :: c :: d :: rest =>
    match hexByte c d with
    | some b => b :: percentDecode rest
    | none => String.utf8EncodeChar '%' ++ percentDecode (c :: d :: rest)
  | c :: rest => String.utf8EncodeChar c ++ percentDecode rest
  | [] => []

def hexUpper (n : ℕ) : Char := if n < 10 then Char.ofNat (48 + n) else Char.ofNat (55 + n)

def escape (b : UInt8) : List Char := ['%', hexUpper (b.toNat / 16), hexUpper (b.toNat % 16)]

def encodeChar (set : Char → Bool) (c : Char) : List Char :=
  if set c then (String.utf8EncodeChar c).flatMap escape else [c]

/-- The characters of `set` are escaped, the others stay. -/
def encode (set : Char → Bool) (l : List Char) : List Char := l.flatMap (encodeChar set)

/-! Decoding -/

theorem percentDecode_cons_of_ne {c : Char} (h : c ≠ '%') (l : List Char) :
    percentDecode (c :: l) = String.utf8EncodeChar c ++ percentDecode l := by
  rw [percentDecode]
  rintro c' d rest rfl
  exact absurd rfl h

theorem percentDecode_escape {c d : Char} {b : UInt8} (h : hexByte c d = some b) (rest : List Char) :
    percentDecode ('%' :: c :: d :: rest) = b :: percentDecode rest := by
  rw [percentDecode, h]

/-- The text starts with two digits. -/
def Digits : List Char → Prop
  | c :: d :: _ => (hexByte c d).isSome = true
  | _ => False

theorem percentDecode_cons {c : Char} {l : List Char} (h : c = '%' → ¬ Digits l) :
    percentDecode (c :: l) = String.utf8EncodeChar c ++ percentDecode l := by
  by_cases hc : c = '%'
  · subst hc
    match l, h rfl with
    | [], _ => rfl
    | [_], _ => rfl
    | x :: y :: rest, hdigits =>
      have hnone : hexByte x y = none := Option.not_isSome_iff_eq_none.mp hdigits
      rw [percentDecode, hnone]
  · exact percentDecode_cons_of_ne hc l

/-- Reading from the left: an escape, or a character that starts none. -/
theorem percentDecode_induction {P : List Char → Prop} (nil : P [])
    (escape : ∀ c d rest, (hexByte c d).isSome = true → P rest → P ('%' :: c :: d :: rest))
    (char : ∀ c rest, (c = '%' → ¬ Digits rest) → P rest → P (c :: rest)) (l : List Char) : P l := by
  induction hn : l.length using Nat.strong_induction_on generalizing l with
  | _ n ih =>
    match l with
    | [] => exact nil
    | c :: rest =>
      simp only [List.length_cons] at hn
      by_cases hescape : c = '%' ∧ Digits rest
      · obtain ⟨rfl, hdigits⟩ := hescape
        match rest, hdigits with
        | x :: y :: rest, hdigits =>
          simp only [List.length_cons] at hn
          exact escape x y rest hdigits (ih rest.length (by omega) rest rfl)
      · exact char c rest (fun hc hdigits => hescape ⟨hc, hdigits⟩) (ih rest.length (by omega) rest rfl)

/-- Decoding makes a text no longer, and what it leaves as long it leaves as it is. -/
theorem percentDecode_spec (l : List Char) : (percentDecode l).length ≤ (bytes l).length ∧
    ((percentDecode l).length = (bytes l).length → percentDecode l = bytes l) := by
  induction l using percentDecode_induction with
  | nil => exact ⟨Nat.le_refl _, fun _ => rfl⟩
  | escape c d rest h ih =>
    obtain ⟨b, hb⟩ := Option.isSome_iff_exists.mp h
    have hc := length_encodeChar_pos c
    have hd := length_encodeChar_pos d
    have hpercent := length_encodeChar_pos '%'
    rw [percentDecode_escape hb, bytes_cons, bytes_cons, bytes_cons]
    simp only [List.length_append, List.length_cons]
    refine ⟨by omega, fun heq => ?_⟩
    omega
  | char c rest h ih =>
    rw [percentDecode_cons h, bytes_cons, List.length_append, List.length_append]
    refine ⟨by omega, fun heq => ?_⟩
    rw [ih.2 (by omega)]

theorem percentDecode_ne_nil {l : List Char} (h : l ≠ []) : percentDecode l ≠ [] := by
  induction l using percentDecode_induction with
  | nil => exact absurd rfl h
  | escape c d rest hdigits _ =>
    obtain ⟨b, hb⟩ := Option.isSome_iff_exists.mp hdigits
    rw [percentDecode_escape hb]
    exact List.cons_ne_nil b _
  | char c rest hc _ =>
    rw [percentDecode_cons hc]
    intro hnil
    have hpos := length_encodeChar_pos c
    rw [(List.append_eq_nil_iff.mp hnil).1] at hpos
    exact absurd hpos (Nat.lt_irrefl 0)

theorem digits_append {s : Char} (hs : hexValue s = none) (l l' : List Char) : Digits (l ++ s :: l') ↔ Digits l := by
  match l with
  | [] =>
    refine iff_of_false (fun h => ?_) id
    cases l' with
    | nil => exact h
    | cons d l' => simp [Digits, hexByte, hs] at h
  | [c] =>
    refine iff_of_false (fun h => ?_) id
    cases hc : hexValue c <;> simp [Digits, hexByte, hs, hc] at h
  | c :: d :: rest => exact Iff.rfl

/-- An escape does not go on beyond a character that is no digit. -/
theorem percentDecode_append {s : Char} (hs : hexValue s = none) (l l' : List Char) :
    percentDecode (l ++ s :: l') = percentDecode l ++ percentDecode (s :: l') := by
  induction l using percentDecode_induction with
  | nil => rfl
  | escape c d rest h ih =>
    obtain ⟨b, hb⟩ := Option.isSome_iff_exists.mp h
    rw [List.cons_append, List.cons_append, List.cons_append, percentDecode_escape hb, percentDecode_escape hb, ih,
      List.cons_append]
  | char c rest h ih =>
    have hrest : c = '%' → ¬ Digits (rest ++ s :: l') := fun hc => (digits_append hs rest l').not.mpr (h hc)
    rw [List.cons_append, percentDecode_cons hrest, percentDecode_cons h, ih, List.append_assoc]

/-! Encoding -/

theorem hexValue_hexUpper {n : ℕ} (h : n < 16) : hexValue (hexUpper n) = some n := by
  interval_cases n <;> decide

theorem percentDecode_escape_append (b : UInt8) (l : List Char) : percentDecode (escape b ++ l) = b :: percentDecode l := by
  have hlt := b.toNat_lt
  have hhi : b.toNat / 16 < 16 := by omega
  have hsum : 16 * (b.toNat / 16) + b.toNat % 16 = b.toNat := by omega
  refine percentDecode_escape ?_ l
  rw [hexByte, hexValue_hexUpper hhi, hexValue_hexUpper (Nat.mod_lt _ (by decide))]
  dsimp only
  rw [hsum, UInt8.ofNat_toNat]

/-- What a set may have in it so that decoding reads the escapes it finds in the text as they were. -/
def KeepsEscapes (set : Char → Bool) : Prop := ∀ c, set c = true → hexValue c = none ∧ c ≠ '%'

theorem not_digits_percent (l : List Char) : ¬ Digits ('%' :: l) := by
  cases l with
  | nil => exact id
  | cons d l => exact Bool.false_ne_true

theorem encode_cons (set : Char → Bool) (c : Char) (l : List Char) :
    encode set (c :: l) = encodeChar set c ++ encode set l :=
  rfl

theorem encodeChar_of_not {set : Char → Bool} {c : Char} (h : set c = false) : encodeChar set c = [c] :=
  if_neg (Bool.eq_false_iff.mp h)

theorem encodeChar_of_mem {set : Char → Bool} {c : Char} (h : set c = true) :
    ∃ l, encodeChar set c = '%' :: l ∧ ∀ rest, percentDecode (encodeChar set c ++ rest) =
      String.utf8EncodeChar c ++ percentDecode rest := by
  have hdecode : ∀ (bs : List UInt8) rest, percentDecode (bs.flatMap escape ++ rest) = bs ++ percentDecode rest := by
    intro bs rest
    induction bs with
    | nil => rfl
    | cons b bs ih => rw [List.flatMap_cons, List.append_assoc, percentDecode_escape_append, ih, List.cons_append]
  have hpos := length_encodeChar_pos c
  rw [encodeChar, if_pos h]
  refine ⟨((String.utf8EncodeChar c).flatMap escape).tail, ?_, hdecode _⟩
  cases hc : String.utf8EncodeChar c with
  | nil => simp [hc] at hpos
  | cons b bs => rfl

theorem digits_encode {set : Char → Bool} (hset : KeepsEscapes set) (l : List Char) :
    Digits (encode set l) ↔ Digits l := by
  have hescaped : ∀ c l, set c = true → ¬ Digits (encode set (c :: l)) ∧ ¬ Digits (c :: l) := by
    intro c l hc
    obtain ⟨e, he, -⟩ := encodeChar_of_mem hc
    rw [encode_cons, he]
    refine ⟨not_digits_percent _, fun h => ?_⟩
    cases l with
    | nil => exact h
    | cons d l => simp [Digits, hexByte, (hset c hc).1] at h
  match l with
  | [] => exact Iff.rfl
  | c :: rest =>
    cases hc : set c with
    | true => exact iff_of_false (hescaped c rest hc).1 (hescaped c rest hc).2
    | false =>
      rw [encode_cons, encodeChar_of_not hc]
      match rest with
      | [] => exact Iff.rfl
      | d :: rest =>
        cases hd : set d with
        | true =>
          obtain ⟨e, he, -⟩ := encodeChar_of_mem hd
          rw [encode_cons, he]
          have hpercent : hexValue '%' = none := by decide
          refine iff_of_false (fun h => ?_) fun h => ?_
          · cases hv : hexValue c <;> simp [Digits, hexByte, hpercent, hv] at h
          · cases hv : hexValue c <;> simp [Digits, hexByte, (hset d hd).1, hv] at h
        | false =>
          rw [encode_cons, encodeChar_of_not hd]
          exact Iff.rfl

/-- Decoding reads an encoded text as it reads the text. -/
theorem percentDecode_encode {set : Char → Bool} (hset : KeepsEscapes set) (l : List Char) :
    percentDecode (encode set l) = percentDecode l := by
  have hkept : ∀ c, (hexValue c).isSome = true → encodeChar set c = [c] := by
    intro c hc
    refine encodeChar_of_not (Bool.eq_false_iff.mpr fun h => ?_)
    rw [(hset c h).1] at hc
    cases hc
  have hpercent : encodeChar set '%' = ['%'] :=
    encodeChar_of_not (Bool.eq_false_iff.mpr fun h => (hset '%' h).2 rfl)
  induction l using percentDecode_induction with
  | nil => rfl
  | escape c d rest h ih =>
    obtain ⟨b, hb⟩ := Option.isSome_iff_exists.mp h
    have hdigits : (hexValue c).isSome = true ∧ (hexValue d).isSome = true := by
      cases hc : hexValue c <;> cases hd : hexValue d <;> simp [hexByte, hc, hd] at h ⊢
    rw [encode_cons, encode_cons, encode_cons, hpercent, hkept c hdigits.1, hkept d hdigits.2]
    exact (percentDecode_escape hb _).trans ((congrArg (b :: ·) ih).trans (percentDecode_escape hb rest).symm)
  | char c rest h ih =>
    rw [encode_cons, percentDecode_cons h, ← ih]
    cases hc : set c with
    | true =>
      obtain ⟨e, -, hdecode⟩ := encodeChar_of_mem hc
      exact hdecode _
    | false =>
      rw [encodeChar_of_not hc]
      exact percentDecode_cons fun hc => (digits_encode hset rest).not.mpr (h hc)

theorem encode_eq_self {set : Char → Bool} {l : List Char} (h : ∀ c ∈ l, set c = false) : encode set l = l := by
  induction l with
  | nil => rfl
  | cons c l ih =>
    obtain ⟨hc, hl⟩ := List.forall_mem_cons.mp h
    rw [encode_cons, encodeChar_of_not hc, ih hl]
    rfl

theorem encode_ne_nil {set : Char → Bool} {l : List Char} (h : l ≠ []) : encode set l ≠ [] := by
  obtain ⟨c, l, rfl⟩ := List.exists_cons_of_ne_nil h
  rw [encode_cons]
  cases hc : set c with
  | true =>
    obtain ⟨e, he, -⟩ := encodeChar_of_mem hc
    rw [he]
    exact List.cons_ne_nil _ _
  | false =>
    rw [encodeChar_of_not hc]
    exact List.cons_ne_nil _ _

/-- An encoded text has slashes only where the text has them. -/
theorem mem_of_slash_mem_encode {set : Char → Bool} {l : List Char} (h : '/' ∈ encode set l) : '/' ∈ l := by
  have hupper : ∀ n < 16, hexUpper n ≠ '/' := by decide
  obtain ⟨c, hc, hslash⟩ := List.mem_flatMap.mp h
  unfold encodeChar at hslash
  split_ifs at hslash
  · obtain ⟨b, -, hb⟩ := List.mem_flatMap.mp hslash
    have hlt := b.toNat_lt
    rcases List.mem_cons.mp hb with hb | hb
    · cases hb
    rcases List.mem_cons.mp hb with hb | hb
    · exact absurd hb.symm (hupper _ (by omega))
    · exact absurd (List.mem_singleton.mp hb).symm (hupper _ (by omega))
  · rw [List.mem_singleton.mp hslash]
    exact hc

theorem keepsEscapes_of {set : Char → Bool} (h : ∀ n < 128, set (Char.ofNat n) = true →
    hexValue (Char.ofNat n) = none ∧ Char.ofNat n ≠ '%') : KeepsEscapes set := by
  intro c hc
  by_cases hlt : c.toNat < 128
  · have := h c.toNat hlt
    rw [Char.ofNat_toNat] at this
    exact this hc
  · constructor
    · unfold hexValue
      split_ifs
      all_goals first | rfl | omega
    · rintro rfl
      exact hlt (by decide)

end Nexal.Percent
