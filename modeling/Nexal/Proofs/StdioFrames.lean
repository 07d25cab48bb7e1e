import Nexal.Spec.StdioFrames

/-! What the reader of a stream of frames makes of it, however the stream is cut into reads. -/

namespace Nexal.StdioFrames

open Framing

section Channel
variable {T : Type*} (codec : Codec T) (label eof : String)

/-- The stream ends inside a frame, or between two of them. -/
def Broken (tail : Bytes) : Prop :=
  ∃ payload, payload.length < 2 ^ 32 ∧ tail <+: frame payload ∧ tail ≠ frame payload

def ending (tail : Bytes) (error : Option String) : MessageChannelEvent T :=
  if tail.length < 4 then noLength label error else noPayload label eof error

variable {codec label eof} {error : Option String} {pieces : List Bytes} {payload tail y : Bytes}

theorem ofBeBytes_length (h : payload.length < 2 ^ 32) : ofBeBytes (beBytes 4 payload.length) = payload.length := by
  rw [ofBeBytes_beBytes]
  exact Nat.mod_eq_of_lt h

/-- A frame is read whole, and the reader goes on behind it. -/
theorem reader_frame (hlen : payload.length < 2 ^ 32) (h : pieces.flatten = frame payload ++ y) :
    ∃ rest, rest.flatten = y ∧
      reader codec label eof error pieces = received codec label payload :: reader codec label eof error rest := by
  rw [frame, List.append_assoc] at h
  obtain ⟨rest, hfirst, hrest⟩ := readExact_append h
  rw [length_beBytes] at hfirst
  obtain ⟨rest', hsecond, hrest'⟩ := readExact_append hrest
  refine ⟨rest', hrest', ?_⟩
  rw [reader]
  split
  · rename_i hnone
    rw [hfirst] at hnone
    cases hnone
  · rename_i lenBuf got hgot
    rw [hfirst] at hgot
    cases hgot
    rw [ofBeBytes_length hlen]
    split
    · rename_i hnone
      rw [hsecond] at hnone
      cases hnone
    · rename_i payload' got hgot
      rw [hsecond] at hgot
      cases hgot
      rfl

/-- Where the stream breaks off there is no message. -/
theorem reader_broken (hbroken : Broken tail) (h : pieces.flatten = tail) :
    reader codec label eof error pieces = [ending label eof tail error] := by
  obtain ⟨payload, hlen, ⟨missing, hframe⟩, hne⟩ := hbroken
  have hmissing : 0 < missing.length := by
    rw [List.length_pos_iff]
    rintro rfl
    exact hne (by rw [← hframe, List.append_nil])
  have hsum : tail.length + missing.length = 4 + payload.length := by
    have hlength := congrArg List.length hframe
    rwa [List.length_append, frame, List.length_append, length_beBytes] at hlength
  by_cases hshort : tail.length < 4
  · have hnone : readExact 4 pieces = none := readExact_of_lt (h.symm ▸ hshort)
    rw [ending, if_pos hshort, reader]
    split
    · rfl
    · rename_i hgot
      rw [hnone] at hgot
      cases hgot
  · -- the length is there and some of the payload is not
    have htail : tail = beBytes 4 payload.length ++ tail.drop 4 := by
      have hprefix : beBytes 4 payload.length <+: tail := by
        refine List.prefix_of_prefix_length_le (List.prefix_append _ payload) ⟨missing, hframe⟩ ?_
        rw [length_beBytes]
        omega
      obtain ⟨after, rfl⟩ := hprefix
      rw [List.drop_append_of_le_length (by rw [length_beBytes]), List.drop_of_length_le (by rw [length_beBytes]),
        List.nil_append]
    obtain ⟨rest, hfirst, hrest⟩ := readExact_append (h.trans htail)
    rw [length_beBytes] at hfirst
    have hnone : readExact payload.length rest = none := by
      refine readExact_of_lt ?_
      rw [hrest, List.length_drop]
      omega
    rw [ending, if_neg hshort, reader]
    split
    · rename_i hgot
      rw [hfirst] at hgot
      cases hgot
    · rename_i lenBuf got hgot
      rw [hfirst] at hgot
      cases hgot
      rw [ofBeBytes_length hlen]
      split
      · rfl
      · rename_i hsome
        rw [hnone] at hsome
        cases hsome

theorem reader_frames {payloads : List Bytes} (hlen : ∀ payload ∈ payloads, payload.length < 2 ^ 32)
    (hbroken : Broken tail)
    (h : pieces.flatten = payloads.flatMap frame ++ tail) :
    reader codec label eof error pieces = payloads.map (received codec label) ++ [ending label eof tail error] := by
  induction payloads generalizing pieces with
  | nil => exact reader_broken hbroken h
  | cons payload payloads ih =>
    rw [List.flatMap_cons, List.append_assoc] at h
    obtain ⟨rest, hrest, hread⟩ := reader_frame (hlen payload List.mem_cons_self) h
    rw [hread, ih (fun x hx => hlen x (List.mem_cons_of_mem payload hx)) hrest]
    rfl

theorem broken_nil : Broken [] := by
  refine ⟨[], by decide, List.nil_prefix, fun hnil => ?_⟩
  have hlength := congrArg List.length hnil
  rw [frame, List.length_append, length_beBytes] at hlength
  simp at hlength

/-- What was written of messages that all go through. -/
theorem writer_ok {messages : List T} {bytes : Bytes} (h : writer codec label none messages = (bytes, none)) :
    ∃ payloads : List Bytes, messages.map codec.toVec = payloads.map some ∧ bytes = payloads.flatMap frame := by
  induction messages generalizing bytes with
  | nil =>
    cases h
    exact ⟨[], rfl, rfl⟩
  | cons message messages ih =>
    rw [writer] at h
    split at h
    · cases h
    · rename_i payload hpayload
      have hroom : (none : Option ℕ).all ((frame payload).length ≤ ·) = true := rfl
      rw [if_pos hroom, Option.map_none] at h
      cases hrest : writer codec label none messages with
      | mk rest event =>
        rw [hrest] at h
        cases h
        obtain ⟨payloads, hpayloads, rfl⟩ := ih hrest
        exact ⟨payload :: payloads, by rw [List.map_cons, List.map_cons, hpayload, hpayloads], rfl⟩

theorem map_received {messages : List T} {payloads : List Bytes}
    (hcodec : ∀ message payload, codec.toVec message = some payload → codec.fromSlice payload = .ok message)
    (h : messages.map codec.toVec = payloads.map some) :
    payloads.map (received codec label) = messages.map .message := by
  induction messages generalizing payloads with
  | nil =>
    rw [List.map_eq_nil_iff.mp h.symm]
    rfl
  | cons message messages ih =>
    cases payloads with
    | nil => cases h
    | cons payload payloads =>
      obtain ⟨hmessage, hrest⟩ := List.cons.inj h
      rw [List.map_cons, List.map_cons, ih hrest, received, hcodec message payload hmessage]

end Channel

/-- For every way in which the stream is cut into reads: what the writer wrote of a sequence of
messages is read as these messages, in order, and the end of the stream; and of any sequence of
frames, broken off anywhere or not, each whole frame makes one event, a message or a malformed
one, and the rest makes the disconnect. -/
theorem frames_read_back {T : Type*} (codec : Codec T) (label eof : String)
    (hcodec : ∀ message payload, codec.toVec message = some payload → codec.fromSlice payload = .ok message) :
    (∀ (messages : List T) (bytes : Bytes) (pieces : List Bytes),
      (∀ message ∈ messages, ∀ payload, codec.toVec message = some payload → payload.length < 2 ^ 32) →
      writer codec label none messages = (bytes, none) → pieces.flatten = bytes →
      reader codec label eof none pieces = messages.map .message ++ [.disconnected none]) ∧
    ∀ (payloads : List Bytes) (tail : Bytes) (error : Option String) (pieces : List Bytes),
      (∀ payload ∈ payloads, payload.length < 2 ^ 32) → Broken tail →
      pieces.flatten = payloads.flatMap frame ++ tail →
      reader codec label eof error pieces = payloads.map (received codec label) ++ [ending label eof tail error] := by
  refine ⟨fun messages bytes pieces hlen hwrite hpieces => ?_, fun payloads tail error pieces hlen hbroken hpieces =>
    reader_frames hlen hbroken hpieces⟩
  obtain ⟨payloads, hpayloads, rfl⟩ := writer_ok hwrite
  have hlen' : ∀ payload ∈ payloads, payload.length < 2 ^ 32 := by
    intro payload hpayload
    have hmem : some payload ∈ messages.map codec.toVec := hpayloads ▸ List.mem_map_of_mem hpayload
    obtain ⟨message, hmessage, hencode⟩ := List.mem_map.mp hmem
    exact hlen message hmessage payload hencode
  rw [reader_frames hlen' broken_nil (hpieces.trans (List.append_nil _).symm), map_received hcodec hpayloads]
  rfl

/-- Truth values in MessagePack. -/
def boolCodec : Codec Bool where
  toVec b := some [if b then 0xC3 else 0xC2]
  fromSlice payload :=
    if payload = [0xC3] then .ok true else if payload = [0xC2] then .ok false else .error "wrong msgpack marker"

theorem bools_read_back :
    reader boolCodec "agent" "early eof" none [[0], [0, 0], [1, 0xC3, 0], [0, 0, 1], [0xC2]] =
        [.message true, .message false, .disconnected none] ∧
      reader boolCodec "agent" "early eof" none [[0, 0, 0, 1, 0xC1, 0, 0, 0], [1, 0xC2, 0, 0]] =
        [.malformedMessage "failed to parse msgpack from agent: wrong msgpack marker", .message false,
          .disconnected none] := by
  have hcodec : ∀ message payload, boolCodec.toVec message = some payload →
    boolCodec.fromSlice payload = .ok message := by
    intro message payload h
    cases message <;>
    · cases h
      rfl
  have hread := frames_read_back boolCodec "agent" "early eof" hcodec
  constructor
  · refine hread.1 [true, false] [0, 0, 0, 1, 0xC3, 0, 0, 0, 1, 0xC2] _ (fun message _ payload h => ?_) (by decide) rfl
    cases h
    rw [List.length_singleton]
    decide
  · have hbroken : Broken [0, 0] := ⟨[], by decide, by decide, by decide⟩
    exact hread.2 [[0xC1], [0xC2]] [0, 0] none _ (by decide) hbroken (by decide)

end Nexal.StdioFrames
