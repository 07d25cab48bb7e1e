import Mathlib.Tactic.IntervalCases
import Nexal.Spec.Hello

/-! The decoding of a signature. The string is read two bytes at a time, whatever its characters, and a
pair of bytes is parsed as a number, for which a plus sign may stand in the place of a digit. -/

namespace Nexal.Gateway

/-! What the decoding is meant to do -/

def hexChar (n : ℕ) : Char := if n < 10 then Char.ofNat ('0'.toNat + n) else Char.ofNat ('a'.toNat + (n - 10))

def hexEncode (bytes : List UInt8) : String :=
  String.ofList (bytes.flatMap fun b => [hexChar (b.toNat / 16), hexChar (b.toNat % 16)])

structure DecodesExactly (s : String) : Prop where
  returns : hexDecode s ≠ .panic
  accepts : (∃ bytes, hexDecode s = .ok (some bytes)) ↔
    s.utf8ByteSize % 2 = 0 ∧ ∀ c ∈ s.toList, (hexDigit c).isSome = true
  reencodes : ∀ bytes, hexDecode s = .ok (some bytes) → (hexEncode bytes).toList = s.toList.map Char.toLower

/-! When it does -/

def joinPairs (pairs : List (Char × Char)) : List Char := pairs.flatMap fun p => [p.1, p.2]

def Taken (pairs : List (Char × Char)) : Prop := ∀ p ∈ pairs, (byteOfHex p.1 p.2).isSome = true

/-- The first two bytes are not the bytes of whole characters. -/
def Cut : List Char → Prop
  | [] => False
  | [c] => c.utf8Size ≠ 2
  | c :: d :: _ => c.utf8Size ≠ 2 ∧ ¬ (c.utf8Size = 1 ∧ d.utf8Size = 1)

/-- After the pairs that the parser takes the string does not go on in the middle of a character, and if
these pairs are all of it, none of them has a plus sign. -/
def ReadsPlainly (s : String) : Prop :=
  s.utf8ByteSize % 2 = 0 → ∀ pairs rest, s.toList = joinPairs pairs ++ rest → Taken pairs →
    ¬ Cut rest ∧ (rest = [] → ∀ p ∈ pairs, p.1 ≠ '+')

/-! Digits -/

theorem hexDigit_bounds {c : Char} {v : ℕ} (h : hexDigit c = some v) :
    (48 ≤ c.toNat ∧ c.toNat ≤ 57 ∧ v = c.toNat - 48) ∨
    (97 ≤ c.toNat ∧ c.toNat ≤ 102 ∧ v = c.toNat - 97 + 10) ∨
      (65 ≤ c.toNat ∧ c.toNat ≤ 70 ∧ v = c.toNat - 65 + 10) := by
  unfold hexDigit at h
  split_ifs at h with hdec hlower hupper
  · exact Or.inl ⟨hdec.1, hdec.2, (Option.some.inj h).symm⟩
  · exact Or.inr (Or.inl ⟨hlower.1, hlower.2, (Option.some.inj h).symm⟩)
  · exact Or.inr (Or.inr ⟨hupper.1, hupper.2, (Option.some.inj h).symm⟩)

/-- A digit is its value in lower case. -/
theorem hexDigit_spec {c : Char} {v : ℕ} (h : hexDigit c = some v) :
    v < 16 ∧ hexChar v = c.toLower ∧ c.utf8Size = 1 ∧ c ≠ '+' := by
  obtain ⟨n, rfl⟩ : ∃ n, c = Char.ofNat n := ⟨c.toNat, (Char.ofNat_toNat c).symm⟩
  have hbounds := hexDigit_bounds h
  generalize hn : (Char.ofNat n).toNat = m at hbounds
  rw [← Char.ofNat_toNat (Char.ofNat n), hn]
  rcases hbounds with ⟨hlow, hhigh, rfl⟩ | ⟨hlow, hhigh, rfl⟩ | ⟨hlow, hhigh, rfl⟩
  · interval_cases m <;> decide
  · interval_cases m <;> decide
  · interval_cases m <;> decide

theorem byteOfHex_digits {c d : Char} {hi lo : ℕ} (hc : hexDigit c = some hi) (hd : hexDigit d = some lo) :
    byteOfHex c d = some (UInt8.ofNat (16 * hi + lo)) := by
  rw [byteOfHex, if_neg (hexDigit_spec hc).2.2.2, hc, hd]
  rfl

theorem digits_of_byteOfHex {c d : Char} {b : UInt8} (h : byteOfHex c d = some b) (hplus : c ≠ '+') :
    ∃ hi lo, hexDigit c = some hi ∧ hexDigit d = some lo ∧ b = UInt8.ofNat (16 * hi + lo) := by
  rw [byteOfHex, if_neg hplus] at h
  obtain ⟨hi, hc, h⟩ := Option.bind_eq_some_iff.mp h
  obtain ⟨lo, hd, rfl⟩ := Option.map_eq_some_iff.mp h
  exact ⟨hi, lo, hc, hd, rfl⟩

/-- What the parser takes is two bytes long. -/
theorem size_of_byteOfHex {c d : Char} (h : (byteOfHex c d).isSome = true) : c.utf8Size = 1 ∧ d.utf8Size = 1 := by
  obtain ⟨b, hb⟩ := Option.isSome_iff_exists.mp h
  by_cases hplus : c = '+'
  · rw [byteOfHex, if_pos hplus] at hb
    obtain ⟨lo, hd, -⟩ := Option.map_eq_some_iff.mp hb
    exact ⟨hplus ▸ rfl, (hexDigit_spec hd).2.2.1⟩
  · obtain ⟨hi, lo, hc, hd, -⟩ := digits_of_byteOfHex hb hplus
    exact ⟨(hexDigit_spec hc).2.2.1, (hexDigit_spec hd).2.2.1⟩

theorem hexEncode_pair {c d : Char} {b : UInt8} (h : byteOfHex c d = some b) (hplus : c ≠ '+') :
    [hexChar (b.toNat / 16), hexChar (b.toNat % 16)] = [c.toLower, d.toLower] := by
  obtain ⟨hi, lo, hc, hd, rfl⟩ := digits_of_byteOfHex h hplus
  obtain ⟨hhi, hchar, -⟩ := hexDigit_spec hc
  obtain ⟨hlo, hchar', -⟩ := hexDigit_spec hd
  have hb : (UInt8.ofNat (16 * hi + lo)).toNat = 16 * hi + lo := by
    rw [UInt8.toNat_ofNat']
    exact Nat.mod_eq_of_lt (by omega)
  have hdiv : (16 * hi + lo) / 16 = hi := by omega
  have hmod : (16 * hi + lo) % 16 = lo := by omega
  rw [hb, hdiv, hmod, hchar, hchar']

/-! Pairs -/

@[simp] theorem joinPairs_cons (p : Char × Char) (pairs : List (Char × Char)) :
    joinPairs (p :: pairs) = p.1 :: p.2 :: joinPairs pairs := rfl

theorem Taken.head {p : Char × Char} {pairs : List (Char × Char)} (h : Taken (p :: pairs)) :
    ∃ b, byteOfHex p.1 p.2 = some b :=
  Option.isSome_iff_exists.mp (h p List.mem_cons_self)

theorem Taken.tail {p : Char × Char} {pairs : List (Char × Char)} (h : Taken (p :: pairs)) : Taken pairs :=
  fun q hq => h q (List.mem_cons_of_mem p hq)

theorem decodePairs_taken {c d : Char} {b : UInt8} {rest : List Char} {bytes : Option (List UInt8)}
    (h : byteOfHex c d = some b) (hrest : decodePairs rest = .ok bytes) :
    decodePairs (c :: d :: rest) = .ok (bytes.map (b :: ·)) := by
  have hsize := size_of_byteOfHex (Option.isSome_of_eq_some h)
  rw [decodePairs, if_neg (by omega), if_pos hsize, h, hrest]

theorem decodePairs_taken_panic {c d : Char} {b : UInt8} {rest : List Char} (h : byteOfHex c d = some b)
    (hrest : decodePairs rest = .panic) : decodePairs (c :: d :: rest) = .panic := by
  have hsize := size_of_byteOfHex (Option.isSome_of_eq_some h)
  rw [decodePairs, if_neg (by omega), if_pos hsize, h, hrest]

theorem decodePairs_cut {rest : List Char} (h : Cut rest) : decodePairs rest = .panic := by
  match rest, h with
  | [_], h => exact if_neg h
  | _ :: _ :: _, h => rw [decodePairs, if_neg h.1, if_neg h.2]

/-- A slice that cuts a character panics when the pairs before it are taken. -/
theorem decodePairs_panic {pairs : List (Char × Char)} {rest : List Char} (h : Taken pairs) (hcut : Cut rest) :
    decodePairs (joinPairs pairs ++ rest) = .panic := by
  induction pairs with
  | nil => exact decodePairs_cut hcut
  | cons p pairs ih =>
    obtain ⟨b, hb⟩ := h.head
    exact decodePairs_taken_panic hb (ih h.tail)

theorem decodePairs_join {pairs : List (Char × Char)} (h : Taken pairs) :
    ∃ bytes, decodePairs (joinPairs pairs) = .ok (some bytes) := by
  induction pairs with
  | nil => exact ⟨[], rfl⟩
  | cons p pairs ih =>
    obtain ⟨b, hb⟩ := h.head
    obtain ⟨bytes, hbytes⟩ := ih h.tail
    exact ⟨b :: bytes, decodePairs_taken hb hbytes⟩

/-- What the decoding has taken when it panics, and when it returns bytes. -/
theorem decodePairs_spec (l : List Char) : match decodePairs l with
    | .panic => ∃ pairs rest, l = joinPairs pairs ++ rest ∧ Taken pairs ∧ Cut rest
    | .ok none => True
    | .ok (some bytes) => ∃ pairs, l = joinPairs pairs ∧ pairs.map (fun p => byteOfHex p.1 p.2) = bytes.map some := by
  fun_induction decodePairs l with
  | case1 => exact ⟨[], rfl, rfl⟩
  | case2 | case4 | case5 => trivial
  | case3 c hsize => exact ⟨[], [c], rfl, by simp [Taken], hsize⟩
  | case6 c d rest _ _ b hb bytes hrest ih =>
    rw [hrest] at ih
    cases bytes with
    | none => trivial
    | some bytes =>
      obtain ⟨pairs, rfl, hpairs⟩ := ih
      exact ⟨(c, d) :: pairs, rfl, by rw [List.map_cons, hb, hpairs]; rfl⟩
  | case7 c d rest _ _ b hb hrest ih =>
    rw [hrest] at ih
    obtain ⟨pairs, tail, rfl, htaken, hcut⟩ := ih
    refine ⟨(c, d) :: pairs, tail, rfl, ?_, hcut⟩
    exact List.forall_mem_cons.mpr ⟨Option.isSome_of_eq_some hb, htaken⟩
  | case8 c d rest htwo hone => exact ⟨[], c :: d :: rest, rfl, by simp [Taken], htwo, hone⟩

/-! Strings -/

theorem utf8ByteSize_ofList {l : List Char} (h : ∀ c ∈ l, c.utf8Size = 1) :
    (String.ofList l).utf8ByteSize = l.length := by
  induction l with
  | nil => rfl
  | cons c l ih =>
    have hc := h c List.mem_cons_self
    have htail := ih fun d hd => h d (List.mem_cons_of_mem c hd)
    rw [← List.singleton_append, String.ofList_append, String.utf8ByteSize_append, htail, List.length_append,
      List.length_singleton]
    simp [hc]

theorem hexDecode_of_even {s : String} (h : s.utf8ByteSize % 2 = 0) : hexDecode s = decodePairs s.toList :=
  if_neg (not_not.mpr h)

/-- An even number of digits is taken in pairs. -/
theorem pairs_of_digits (l : List Char) (heven : l.length % 2 = 0) (h : ∀ c ∈ l, (hexDigit c).isSome = true) :
    ∃ pairs, l = joinPairs pairs ∧ Taken pairs := by
  match l, heven, h with
  | [], _, _ => exact ⟨[], rfl, by simp [Taken]⟩
  | [_], heven, _ => cases heven
  | c :: d :: rest, heven, h =>
    obtain ⟨hi, hc⟩ := Option.isSome_iff_exists.mp (h c List.mem_cons_self)
    obtain ⟨lo, hd⟩ := Option.isSome_iff_exists.mp (h d (List.mem_cons_of_mem c List.mem_cons_self))
    simp only [List.length_cons] at heven
    obtain ⟨pairs, rfl, hpairs⟩ := pairs_of_digits rest (by omega) fun e he =>
      h e (List.mem_cons_of_mem c (List.mem_cons_of_mem d he))
    refine ⟨(c, d) :: pairs, rfl, List.forall_mem_cons.mpr ⟨?_, hpairs⟩⟩
    exact Option.isSome_of_eq_some (byteOfHex_digits hc hd)

theorem accepts_of_digits {s : String} (heven : s.utf8ByteSize % 2 = 0)
    (h : ∀ c ∈ s.toList, (hexDigit c).isSome = true) :
    ∃ bytes, hexDecode s = .ok (some bytes) := by
  have hsize : ∀ c ∈ s.toList, c.utf8Size = 1 := by
    intro c hc
    obtain ⟨v, hv⟩ := Option.isSome_iff_exists.mp (h c hc)
    exact (hexDigit_spec hv).2.2.1
  have hlength := utf8ByteSize_ofList hsize
  rw [String.ofList_toList] at hlength
  obtain ⟨pairs, hs, htaken⟩ := pairs_of_digits s.toList (by omega) h
  rw [hexDecode_of_even heven, hs]
  exact decodePairs_join htaken

theorem mem_joinPairs {c : Char} {pairs : List (Char × Char)} :
    c ∈ joinPairs pairs ↔ ∃ p ∈ pairs, c = p.1 ∨ c = p.2 := by
  simp [joinPairs, List.mem_flatMap]

/-- Without a plus sign the bytes are those of the digits. -/
theorem digits_of_pairs {pairs : List (Char × Char)} {bytes : List UInt8}
    (h : pairs.map (fun p => byteOfHex p.1 p.2) = bytes.map some) (hplus : ∀ p ∈ pairs, p.1 ≠ '+') :
    (∀ c ∈ joinPairs pairs, (hexDigit c).isSome = true) ∧
      (hexEncode bytes).toList = (joinPairs pairs).map Char.toLower := by
  rw [hexEncode, String.toList_ofList]
  induction pairs generalizing bytes with
  | nil =>
    rw [List.map_nil, List.nil_eq, List.map_eq_nil_iff] at h
    subst h
    exact ⟨by simp [joinPairs], rfl⟩
  | cons p pairs ih =>
    cases bytes with
    | nil => cases h
    | cons b bytes =>
      obtain ⟨hb, htail⟩ := List.cons.inj h
      have hp := hplus p List.mem_cons_self
      obtain ⟨hi, lo, hc, hd, -⟩ := digits_of_byteOfHex hb hp
      obtain ⟨hdigits, hencode⟩ := ih htail fun q hq => hplus q (List.mem_cons_of_mem p hq)
      refine ⟨?_, ?_⟩
      · rw [joinPairs_cons, List.forall_mem_cons, List.forall_mem_cons]
        exact ⟨Option.isSome_of_eq_some hc, Option.isSome_of_eq_some hd, hdigits⟩
      · rw [List.flatMap_cons, hencode, hexEncode_pair hb hp]
        rfl

theorem decodesExactly_of_readsPlainly {s : String} (h : ReadsPlainly s) : DecodesExactly s := by
  by_cases heven : s.utf8ByteSize % 2 = 0
  · have hspec := decodePairs_spec s.toList
    have hdecoded : ∀ bytes, hexDecode s = .ok (some bytes) →
        (∀ c ∈ s.toList, (hexDigit c).isSome = true) ∧ (hexEncode bytes).toList = s.toList.map Char.toLower := by
      intro bytes hbytes
      rw [hexDecode_of_even heven] at hbytes
      rw [hbytes] at hspec
      obtain ⟨pairs, hs, hpairs⟩ := hspec
      have htaken : Taken pairs := by
        intro p hp
        have hmem : byteOfHex p.1 p.2 ∈ bytes.map some := hpairs ▸ List.mem_map_of_mem hp
        obtain ⟨b, -, hb⟩ := List.mem_map.mp hmem
        exact Option.isSome_of_eq_some hb.symm
      rw [hs]
      exact digits_of_pairs hpairs ((h heven pairs [] (by rw [hs, List.append_nil]) htaken).2 rfl)
    refine ⟨fun hpanic => ?_, ⟨fun ⟨bytes, hbytes⟩ => ⟨heven, (hdecoded bytes hbytes).1⟩, fun hdigits =>
      accepts_of_digits heven hdigits.2⟩, fun bytes hbytes => (hdecoded bytes hbytes).2⟩
    rw [hexDecode_of_even heven] at hpanic
    rw [hpanic] at hspec
    obtain ⟨pairs, rest, hs, htaken, hcut⟩ := hspec
    exact (h heven pairs rest hs htaken).1 hcut
  · have hnone : hexDecode s = .ok none := if_pos heven
    refine ⟨fun hpanic => ?_, ⟨fun ⟨bytes, hbytes⟩ => ?_, fun hdigits => absurd hdigits.1 heven⟩,
      fun bytes hbytes => ?_⟩
    · cases hnone.symm.trans hpanic
    · cases hnone.symm.trans hbytes
    · cases hnone.symm.trans hbytes

theorem readsPlainly_of_decodesExactly {s : String} (h : DecodesExactly s) : ReadsPlainly s := by
  intro heven pairs rest hs htaken
  refine ⟨fun hcut => h.returns ?_, fun hnil p hp => ?_⟩
  · rw [hexDecode_of_even heven, hs]
    exact decodePairs_panic htaken hcut
  · rw [hnil, List.append_nil] at hs
    obtain ⟨bytes, hbytes⟩ := decodePairs_join htaken
    rw [← hs, ← hexDecode_of_even heven] at hbytes
    have hmem : p.1 ∈ s.toList := by
      rw [hs]
      exact mem_joinPairs.mpr ⟨p, hp, Or.inl rfl⟩
    obtain ⟨v, hv⟩ := Option.isSome_iff_exists.mp ((h.accepts.mp ⟨bytes, hbytes⟩).2 p.1 hmem)
    exact (hexDigit_spec hv).2.2.2

/-- The decoding does what it is meant to do for the strings that read plainly. -/
theorem decodesExactly_iff_readsPlainly (s : String) : DecodesExactly s ↔ ReadsPlainly s :=
  ⟨readsPlainly_of_decodesExactly, decodesExactly_of_readsPlainly⟩

/-- A plus sign for a digit, and a slice in the middle of a character. -/
theorem signed_and_cut_signatures : ¬ DecodesExactly "+f" ∧ ¬ DecodesExactly "a€" := by
  constructor
  · intro h
    have hdigits := (h.accepts.mp ⟨[15], rfl⟩).2 '+' (by decide)
    revert hdigits
    decide
  · exact fun h => h.returns rfl

end Nexal.Gateway
