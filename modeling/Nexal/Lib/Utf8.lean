import Mathlib.Algebra.Group.Nat.Defs
import Mathlib.Data.List.Basic

/-! Decoding UTF-8 with replacement: what is not the encoding of a character becomes U+FFFD, one
for each maximal part of a sequence that breaks off. -/

namespace Nexal.Utf8

def replacement : Char := Char.ofNat 0xFFFD

/-- Where the decoder is; within a sequence, the next byte has to be from `lower` to `upper`. -/
inductive Decoder where
  | idle
  | within (codePoint remaining lower upper : ℕ)
deriving DecidableEq

def lead (b : ℕ) : List Char × Decoder :=
  if b ≤ 0x7F then ([Char.ofNat b], .idle)
  else if 0xC2 ≤ b ∧ b ≤ 0xDF then ([], .within (b - 0xC0) 1 0x80 0xBF)
  else if 0xE0 ≤ b ∧ b ≤ 0xEF then
    ([], .within (b - 0xE0) 2 (if b = 0xE0 then 0xA0 else 0x80) (if b = 0xED then 0x9F else 0xBF))
  else if 0xF0 ≤ b ∧ b ≤ 0xF4 then
    ([], .within (b - 0xF0) 3 (if b = 0xF0 then 0x90 else 0x80) (if b = 0xF4 then 0x8F else 0xBF))
  else ([replacement], .idle)

def Decoder.next : Decoder → ℕ → List Char × Decoder
  | .idle, b => lead b
  | .within codePoint remaining lower upper, b =>
    if lower ≤ b ∧ b ≤ upper then
      let codePoint := codePoint * 64 + (b - 0x80)
      if remaining ≤ 1 then ([Char.ofNat codePoint], .idle)
      else ([], .within codePoint (remaining - 1) 0x80 0xBF)
    -- the byte that breaks the sequence starts a new one
    else (replacement :: (lead b).1, (lead b).2)

def decodeFrom : Decoder → List UInt8 → List Char
  | .idle, [] => []
  | .within _ _ _ _, [] => [replacement]
  | d, b :: bytes => (d.next b.toNat).1 ++ decodeFrom (d.next b.toNat).2 bytes

def decode (bytes : List UInt8) : String := String.ofList (decodeFrom .idle bytes)

def encode (s : String) : List UInt8 := s.toList.flatMap String.utf8EncodeChar

/-- Decoding without replacement: what is not the encoding of a text is refused. -/
def fromUtf8 (bytes : List UInt8) : Option String :=
  if encode (decode bytes) = bytes then some (decode bytes) else none

/-- The encoding of some text. -/
def Valid (bytes : List UInt8) : Prop := ∃ chars : List Char, bytes = chars.flatMap String.utf8EncodeChar

theorem encode_append (s t : String) : encode (s ++ t) = encode s ++ encode t := by
  simp [encode]

theorem decodeFrom_cons {d d' : Decoder} {n : ℕ} {chars : List Char} {bytes : List UInt8} (hn : n < 256)
    (h : d.next n = (chars, d')) : decodeFrom d (UInt8.ofNat n :: bytes) = chars ++ decodeFrom d' bytes := by
  have hb : (UInt8.ofNat n).toNat = n := by
    rw [UInt8.toNat_ofNat']
    exact Nat.mod_eq_of_lt hn
  cases d <;>
  · rw [decodeFrom, hb, h]

theorem next_last {codePoint lower upper b : ℕ} (hb : lower ≤ b ∧ b ≤ upper) :
    (Decoder.within codePoint 1 lower upper).next b = ([Char.ofNat (codePoint * 64 + (b - 0x80))], .idle) := by
  rw [Decoder.next, if_pos hb]
  rfl

theorem next_more {codePoint remaining lower upper b : ℕ} (hb : lower ≤ b ∧ b ≤ upper) :
    (Decoder.within codePoint (remaining + 2) lower upper).next b =
      ([], .within (codePoint * 64 + (b - 0x80)) (remaining + 1) 0x80 0xBF) := by
  rw [Decoder.next, if_pos hb]
  rfl

theorem decodeFrom_encodeChar (c : Char) (bytes : List UInt8) :
    decodeFrom .idle (String.utf8EncodeChar c ++ bytes) = c :: decodeFrom .idle bytes := by
  have hvalid : c.val.toNat < 0xD800 ∨ 0xDFFF < c.val.toNat ∧ c.val.toNat < 0x110000 := c.valid
  have hchar : Char.ofNat c.val.toNat = c := Char.ofNat_toNat c
  unfold String.utf8EncodeChar
  generalize c.val.toNat = v at hvalid hchar
  dsimp only
  -- one case for each length of the encoding
  split_ifs with h1 h2 h3
  · have hlead : Decoder.idle.next v = ([Char.ofNat v], .idle) := if_pos h1
    rw [List.singleton_append, decodeFrom_cons (by omega) hlead, hchar]
    rfl
  · have hlead : Decoder.idle.next (v / 64 % 0x20 + 0xc0) = ([], .within (v / 64) 1 0x80 0xBF) := by
      have hhead : v / 64 % 0x20 + 0xc0 - 0xC0 = v / 64 := by omega
      rw [Decoder.next, lead, if_neg (by omega), if_pos (by omega), hhead]
    have hsum : v / 64 * 64 + (v % 0x40 + 0x80 - 0x80) = v := by omega
    rw [List.cons_append, List.singleton_append, decodeFrom_cons (by omega) hlead,
      decodeFrom_cons (by omega) (next_last (by omega)), hsum, hchar]
    rfl
  · have hlead : ∃ lower upper, Decoder.idle.next (v / 4096 % 0x10 + 0xe0) = ([], .within (v / 4096) 2 lower upper) ∧
        lower ≤ v / 64 % 0x40 + 0x80 ∧ v / 64 % 0x40 + 0x80 ≤ upper := by
      refine ⟨if v / 4096 % 0x10 + 0xe0 = 0xE0 then 0xA0 else 0x80,
        if v / 4096 % 0x10 + 0xe0 = 0xED then 0x9F else 0xBF, ?_, ?_, ?_⟩
      · have hhead : v / 4096 % 0x10 + 0xe0 - 0xE0 = v / 4096 := by omega
        rw [Decoder.next, lead, if_neg (by omega), if_neg (by omega), if_pos (by omega), hhead]
      · split_ifs <;> omega
      · split_ifs <;> omega
    obtain ⟨lower, upper, hlead, hsecond⟩ := hlead
    have hsum : (v / 4096 * 64 + (v / 64 % 0x40 + 0x80 - 0x80)) * 64 + (v % 0x40 + 0x80 - 0x80) = v := by omega
    rw [List.cons_append, List.cons_append, List.singleton_append, decodeFrom_cons (by omega) hlead,
      decodeFrom_cons (by omega) (next_more hsecond), decodeFrom_cons (by omega) (next_last (by omega)), hsum, hchar]
    rfl
  · have hlead : ∃ lower upper, Decoder.idle.next (v / 262144 % 0x08 + 0xf0) =
      ([], .within (v / 262144) 3 lower upper) ∧
        lower ≤ v / 4096 % 0x40 + 0x80 ∧ v / 4096 % 0x40 + 0x80 ≤ upper := by
      refine ⟨if v / 262144 % 0x08 + 0xf0 = 0xF0 then 0x90 else 0x80,
        if v / 262144 % 0x08 + 0xf0 = 0xF4 then 0x8F else 0xBF, ?_, ?_, ?_⟩
      · have hhead : v / 262144 % 0x08 + 0xf0 - 0xF0 = v / 262144 := by omega
        rw [Decoder.next, lead, if_neg (by omega), if_neg (by omega), if_neg (by omega), if_pos (by omega), hhead]
      · split_ifs <;> omega
      · split_ifs <;> omega
    obtain ⟨lower, upper, hlead, hsecond⟩ := hlead
    have hsum : ((v / 262144 * 64 + (v / 4096 % 0x40 + 0x80 - 0x80)) * 64 + (v / 64 % 0x40 + 0x80 - 0x80)) * 64 +
        (v % 0x40 + 0x80 - 0x80) = v := by omega
    rw [List.cons_append, List.cons_append, List.cons_append, List.singleton_append,
      decodeFrom_cons (by omega) hlead, decodeFrom_cons (by omega) (next_more hsecond),
      decodeFrom_cons (by omega) (next_more (by omega)), decodeFrom_cons (by omega) (next_last (by omega)), hsum, hchar]
    rfl

theorem decodeFrom_encode (chars : List Char) : decodeFrom .idle (chars.flatMap String.utf8EncodeChar) = chars := by
  induction chars with
  | nil => rfl
  | cons c chars ih => rw [List.flatMap_cons, decodeFrom_encodeChar, ih]

/-- Text survives. -/
theorem encode_decode {bytes : List UInt8} (h : Valid bytes) : encode (decode bytes) = bytes := by
  obtain ⟨chars, rfl⟩ := h
  rw [encode, decode, String.toList_ofList, decodeFrom_encode]

theorem decode_encode (s : String) : decode (encode s) = s := by
  rw [decode, encode, decodeFrom_encode, String.ofList_toList]

theorem fromUtf8_eq_some {bytes : List UInt8} {s : String} : fromUtf8 bytes = some s ↔ encode s = bytes := by
  unfold fromUtf8
  constructor
  · intro h
    split_ifs at h with hencode
    rw [← Option.some.inj h, hencode]
  · rintro rfl
    rw [decode_encode, if_pos rfl]

/-! Bytes -/

def bytes (l : List Char) : List UInt8 := l.flatMap String.utf8EncodeChar

@[simp] theorem bytes_cons (c : Char) (l : List Char) : bytes (c :: l) = String.utf8EncodeChar c ++ bytes l := rfl

@[simp] theorem bytes_append (l l' : List Char) : bytes (l ++ l') = bytes l ++ bytes l' := List.flatMap_append

theorem length_encodeChar_pos (c : Char) : 0 < (String.utf8EncodeChar c).length := by
  rw [String.length_utf8EncodeChar]
  exact c.utf8Size_pos

theorem bytes_injective {l l' : List Char} (h : bytes l = bytes l') : l = l' := by
  rw [← decodeFrom_encode l, ← decodeFrom_encode l']
  exact congrArg (decodeFrom .idle) h

theorem bytes_sublist_le {l l' : List Char} (h : l.Sublist l') : (bytes l).length ≤ (bytes l').length := by
  induction h with
  | slnil => exact Nat.le_refl _
  | cons c _ ih =>
    rw [bytes_cons, List.length_append]
    omega
  | cons_cons c _ ih =>
    rw [bytes_cons, bytes_cons, List.length_append, List.length_append]
    omega

/-- A text of as many bytes from which something is left out is the text. -/
theorem eq_of_sublist_of_bytes {l l' : List Char} (h : l.Sublist l') (hle : (bytes l').length ≤ (bytes l).length) :
    l = l' := by
  induction h with
  | slnil => rfl
  | @cons l₁ l₂ c hsub _ =>
    have hless := bytes_sublist_le hsub
    have hpos := length_encodeChar_pos c
    rw [bytes_cons, List.length_append] at hle
    omega
  | @cons_cons l₁ l₂ c _ ih =>
    rw [bytes_cons, bytes_cons, List.length_append, List.length_append] at hle
    rw [ih (by omega)]

/-! Decoding in chunks, each for itself -/

/-- Where the decoder is after some bytes. -/
def Decoder.after : Decoder → List UInt8 → Decoder
  | d, [] => d
  | d, b :: bytes => ((d.next b.toNat).2).after bytes

/-- What comes out when the input ends here. -/
def Decoder.flush : Decoder → List Char
  | .idle => []
  | .within _ _ _ _ => [replacement]

/-- The next byte belongs to the sequence that has begun. -/
def Decoder.Continues : Decoder → List UInt8 → Prop
  | .within _ _ lower upper, b :: _ => lower ≤ b.toNat ∧ b.toNat ≤ upper
  | _, _ => False

instance (d : Decoder) (bytes : List UInt8) : Decidable (d.Continues bytes) :=
  match d, bytes with
  | .within _ _ lower upper, b :: _ => inferInstanceAs (Decidable (lower ≤ b.toNat ∧ b.toNat ≤ upper))
  | .within _ _ _ _, [] => isFalse id
  | .idle, _ => isFalse id

/-- Within a sequence only a continuation byte goes on with it. -/
def Decoder.Ok : Decoder → Prop
  | .idle => True
  | .within _ _ lower upper => 0x80 ≤ lower ∧ upper ≤ 0xBF

theorem ok_lead (b : ℕ) : (lead b).2.Ok := by
  unfold lead
  split_ifs <;> simp [Decoder.Ok]

theorem ok_next (d : Decoder) (b : ℕ) : (d.next b).2.Ok := by
  cases d with
  | idle => exact ok_lead b
  | within codePoint remaining lower upper =>
    unfold Decoder.next
    dsimp only
    split_ifs
    · trivial
    · exact ⟨Nat.le_refl _, Nat.le_refl _⟩
    · exact ok_lead b

theorem ok_after {d : Decoder} (h : d.Ok) (bytes : List UInt8) : (d.after bytes).Ok := by
  induction bytes generalizing d with
  | nil => exact h
  | cons b bytes ih => exact ih (ok_next d b.toNat)

theorem decodeFrom_nil (d : Decoder) : decodeFrom d [] = d.flush := by cases d <;> rfl

theorem decodeFrom_step (d : Decoder) (b : UInt8) (bytes : List UInt8) :
    decodeFrom d (b :: bytes) = (d.next b.toNat).1 ++ decodeFrom (d.next b.toNat).2 bytes := by cases d <;> rfl

/-- The bytes up to a boundary come out the same whatever follows. -/
theorem decodeFrom_append (d : Decoder) (front : List UInt8) :
    ∃ chars, ∀ bytes, decodeFrom d (front ++ bytes) = chars ++ decodeFrom (d.after front) bytes := by
  induction front generalizing d with
  | nil => exact ⟨[], fun _ => rfl⟩
  | cons b front ih =>
    obtain ⟨chars, hchars⟩ := ih (d.next b.toNat).2
    refine ⟨(d.next b.toNat).1 ++ chars, fun bytes => ?_⟩
    rw [List.cons_append, decodeFrom_step, hchars, List.append_assoc]
    rfl

theorem decodeFrom_of_not_continues {d : Decoder} {bytes : List UInt8} (h : ¬ d.Continues bytes) :
    decodeFrom d bytes = d.flush ++ decodeFrom .idle bytes := by
  cases d with
  | idle => rfl
  | within codePoint remaining lower upper =>
    cases bytes with
    | nil => rfl
    | cons b bytes =>
      have hnext : (Decoder.within codePoint remaining lower upper).next b.toNat =
          (replacement :: (lead b.toNat).1, (lead b.toNat).2) := if_neg h
      rw [decodeFrom_step, hnext, decodeFrom_step]
      rfl

/-- To begin anew within a sequence makes the text longer. -/
theorem length_lt_of_continues {d : Decoder} {bytes : List UInt8} (hok : d.Ok) (h : d.Continues bytes) :
    (decodeFrom d bytes).length < d.flush.length + (decodeFrom .idle bytes).length := by
  induction bytes generalizing d with
  | nil => cases d <;> exact absurd h id
  | cons b bytes ih =>
    cases d with
    | idle => exact absurd h id
    | within codePoint remaining lower upper =>
      obtain ⟨hlower, hupper⟩ := h
      obtain ⟨hmin, hmax⟩ := hok
      have hlead : Decoder.idle.next b.toNat = ([replacement], .idle) := by
        rw [Decoder.next, lead, if_neg (by omega), if_neg (by omega), if_neg (by omega), if_neg (by omega)]
      have hanew : (decodeFrom .idle (b :: bytes)).length = 1 + (decodeFrom .idle bytes).length := by
        rw [decodeFrom_step, hlead, List.length_append, List.length_singleton]
      have hflush : (Decoder.within codePoint remaining lower upper).flush.length = 1 := rfl
      rw [hanew, hflush, decodeFrom_step, List.length_append]
      -- the byte ends the sequence, or leaves the decoder within it
      rw [Decoder.next, if_pos ⟨hlower, hupper⟩]
      dsimp only
      split_ifs with hlast
      · dsimp only [List.length_singleton]
        omega
      · generalize hd : Decoder.within (codePoint * 64 + (b.toNat - 0x80)) (remaining - 1) 0x80 0xBF = d
        have hd' : d.Ok ∧ d.flush.length = 1 := by
          subst hd
          exact ⟨⟨Nat.le_refl _, Nat.le_refl _⟩, rfl⟩
        dsimp only [List.length_nil]
        by_cases hgoes : d.Continues bytes
        · have hlt := ih hd'.1 hgoes
          omega
        · rw [decodeFrom_of_not_continues hgoes, List.length_append]
          omega

/-- Between `front` and `bytes` a sequence is cut. -/
def Cut (front bytes : List UInt8) : Prop := (Decoder.idle.after front).Continues bytes

theorem decodeFrom_append_of_not_cut {front bytes : List UInt8} (h : ¬ Cut front bytes) :
    decodeFrom .idle (front ++ bytes) = decodeFrom .idle front ++ decodeFrom .idle bytes := by
  obtain ⟨chars, hchars⟩ := decodeFrom_append .idle front
  have hfront := hchars []
  rw [List.append_nil, decodeFrom_nil] at hfront
  rw [hchars, hfront, decodeFrom_of_not_continues h, List.append_assoc]

theorem length_lt_of_cut {front bytes : List UInt8} (h : Cut front bytes) :
    (decodeFrom .idle (front ++ bytes)).length < (decodeFrom .idle front).length + (decodeFrom .idle bytes).length := by
  obtain ⟨chars, hchars⟩ := decodeFrom_append .idle front
  have hfront := hchars []
  rw [List.append_nil, decodeFrom_nil] at hfront
  rw [hchars, hfront, List.length_append, List.length_append]
  have hlt := length_lt_of_continues (ok_after (d := .idle) trivial front) h
  omega

/-- No chunk ends within a sequence with which the next byte goes on. -/
def Uncut : List (List UInt8) → Prop
  | [] => True
  | chunk :: rest => ¬ Cut chunk rest.flatten ∧ Uncut rest

theorem length_decode_flatten_le (chunks : List (List UInt8)) :
    (decodeFrom .idle chunks.flatten).length ≤ (chunks.flatMap (decodeFrom .idle)).length := by
  induction chunks with
  | nil => exact Nat.le_refl _
  | cons chunk rest ih =>
    rw [List.flatten_cons, List.flatMap_cons, List.length_append]
    by_cases hcut : Cut chunk rest.flatten
    · have hlt := length_lt_of_cut hcut
      omega
    · rw [decodeFrom_append_of_not_cut hcut, List.length_append]
      omega

/-- Chunks decoded each for itself make the text of the whole exactly when no sequence is cut. -/
theorem decode_chunks_iff (chunks : List (List UInt8)) :
    chunks.flatMap (decodeFrom .idle) = decodeFrom .idle chunks.flatten ↔ Uncut chunks := by
  induction chunks with
  | nil => exact ⟨fun _ => trivial, fun _ => rfl⟩
  | cons chunk rest ih =>
    rw [List.flatten_cons, List.flatMap_cons]
    have hle := length_decode_flatten_le rest
    constructor
    · intro heq
      have hlen := congrArg List.length heq
      rw [List.length_append] at hlen
      have huncut : ¬ Cut chunk rest.flatten := by
        intro hcut
        have hlt := length_lt_of_cut hcut
        omega
      rw [decodeFrom_append_of_not_cut huncut] at heq
      exact ⟨huncut, ih.mp (List.append_cancel_left heq)⟩
    · rintro ⟨huncut, hrest⟩
      rw [decodeFrom_append_of_not_cut huncut, ih.mpr hrest]

/-! Slashes, which nothing but their own byte decodes to -/

/-- However the sequence goes on, it ends above the one-byte characters. -/
def Decoder.High : Decoder → Prop
  | .idle => True
  | .within codePoint remaining lower _ => 0x80 ≤ (codePoint * 64 + (lower - 0x80)) * 64 ^ (remaining - 1)

theorem ofNat_eq_slash {n : ℕ} (h : '/' = Char.ofNat n) : n = 0x2F := by
  by_cases hn : n.isValidChar
  · rw [show Char.ofNat n = Char.ofNatAux n hn from dif_pos hn] at h
    have hval : (0x2F : ℕ) = n := congrArg Char.toNat h
    exact hval.symm
  · rw [show Char.ofNat n = '\x00' from dif_neg hn] at h
    exact absurd h (by decide)

theorem lead_slash {b : ℕ} : ('/' ∈ (lead b).1 → b = 0x2F) ∧ (lead b).2.High := by
  have hreplacement : '/' ≠ replacement := by decide
  unfold lead
  split_ifs
  · exact ⟨fun h => ofNat_eq_slash (List.mem_singleton.mp h), trivial⟩
  all_goals
    refine ⟨fun h => by simp [hreplacement] at h, ?_⟩
    simp only [Decoder.High]
    try omega

theorem next_slash {d : Decoder} {b : ℕ} (hd : d.High) : ('/' ∈ (d.next b).1 → b = 0x2F) ∧ (d.next b).2.High := by
  have hreplacement : '/' ≠ replacement := by decide
  cases d with
  | idle => exact lead_slash
  | within codePoint remaining lower upper =>
    have hlead := lead_slash (b := b)
    unfold Decoder.next
    dsimp only
    split_ifs with hbyte hlast
    · refine ⟨fun h => ?_, trivial⟩
      have hslash := ofNat_eq_slash (List.mem_singleton.mp h)
      have hzero : remaining - 1 = 0 := by omega
      rw [Decoder.High, hzero, Nat.pow_zero, Nat.mul_one] at hd
      omega
    · refine ⟨fun h => by simp at h, ?_⟩
      obtain ⟨k, hk⟩ : ∃ k, remaining - 1 = k + 1 := ⟨remaining - 2, by omega⟩
      rw [Decoder.High, hk, Nat.pow_succ', ← Nat.mul_assoc] at hd
      rw [Decoder.High, hk, Nat.add_sub_cancel, Nat.sub_self, Nat.add_zero]
      exact Nat.le_trans hd (Nat.mul_le_mul_right _ (Nat.mul_le_mul_right _ (by omega)))
    · refine ⟨fun h => hlead.1 ((List.mem_cons.mp h).resolve_left hreplacement), hlead.2⟩

theorem slash_mem_decodeFrom {d : Decoder} (hd : d.High) {bytes : List UInt8} (h : '/' ∈ decodeFrom d bytes) :
    0x2F ∈ bytes := by
  induction bytes generalizing d with
  | nil =>
    rw [decodeFrom_nil] at h
    cases d with
    | idle => cases h
    | within => exact absurd (List.mem_singleton.mp h) (by decide)
  | cons b bytes ih =>
    rw [decodeFrom_step, List.mem_append] at h
    obtain ⟨hfirst, hnext⟩ := next_slash (b := b.toNat) hd
    rcases h with h | h
    · exact List.mem_cons.mpr (.inl (UInt8.toNat_inj.mp (hfirst h).symm))
    · exact List.mem_cons_of_mem _ (ih hnext h)

theorem slash_mem_decode {bytes : List UInt8} (h : '/' ∈ (decode bytes).toList) : 0x2F ∈ bytes := by
  rw [decode, String.toList_ofList] at h
  exact slash_mem_decodeFrom (d := .idle) trivial h

/-- A slash is never within a sequence. -/
theorem decode_slash (front bytes : List UInt8) : decode (front ++ 0x2F :: bytes) = decode front ++ "/" ++ decode bytes := by
  have hnot : ¬ Cut front (0x2F :: bytes) := by
    intro hcut
    have hok := ok_after (d := .idle) trivial front
    unfold Cut at hcut
    cases hd : Decoder.idle.after front with
    | idle => exact absurd hcut (by rw [hd]; exact id)
    | within codePoint remaining lower upper =>
      rw [hd] at hcut hok
      have hlower : 0x80 ≤ (0x2F : UInt8).toNat := Nat.le_trans hok.1 hcut.1
      exact absurd hlower (by decide)
  have hslash : decodeFrom .idle (0x2F :: bytes) = '/' :: decodeFrom .idle bytes := rfl
  rw [decode, decodeFrom_append_of_not_cut hnot, hslash, ← String.toList_inj]
  simp [decode]

end Nexal.Utf8
