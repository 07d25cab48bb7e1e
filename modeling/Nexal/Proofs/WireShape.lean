import Nexal.Spec.Wire

/-! Which received values make the typed deserialisation, and with it the receiver, panic. -/

namespace Nexal.Wire

/-! The shapes the message types ask for -/

/-- A `str`, or bytes that are UTF-8. -/
def Text (v : Value) : Prop :=
  (∃ s, v = .string s) ∨ ∃ data, v = .binary data ∧ data.IsValidUTF8

def OptText (v : Value) : Prop := v = .nil ∨ Text v

def I32 (v : Value) : Prop := ∃ n, v = .integer n ∧ -2 ^ 31 ≤ n.val ∧ n.val < 2 ^ 31

/-- The value has the fields `slots`: a map with no odd key and no field twice, or an array of
at most as many elements. -/
inductive HasFields (names : List String) : Value → Slots Value → Prop where
  | map {entries : List (Value × Value)} (h : Readable (identifier names) entries) :
    HasFields names (.map entries) fun i => (fieldPairs (identifier names) entries).lookup i
  | array {items : List Value} (h : items.length ≤ names.length) :
    HasFields names (.array items) fun i => items[i]?

def ErrorShape (v : Value) : Prop :=
  ∃ slots, HasFields WireError.fields v slots ∧ (∃ code, slots 0 = some code ∧ I32 code) ∧
    ∃ message, slots 1 = some message ∧ Text message

def RequestShape (v : Value) : Prop :=
  ∃ slots, HasFields WireRequest.fields v slots ∧ (∀ stream, slots 0 = some stream → OptText stream) ∧
    (∃ id, slots 1 = some id) ∧ ∃ method, slots 2 = some method ∧ Text method

def ResponseShape (v : Value) : Prop :=
  ∃ slots, HasFields WireResponse.fields v slots ∧ (∀ stream, slots 0 = some stream → OptText stream) ∧
    (∃ id, slots 1 = some id) ∧ ∀ error, slots 3 = some error → error = .nil ∨ ErrorShape error

def NotificationShape (v : Value) : Prop :=
  ∃ slots, HasFields WireNotification.fields v slots ∧
    (∀ stream, slots 0 = some stream → OptText stream) ∧ ∃ method, slots 1 = some method ∧ Text method

def HasKey (v : Value) (key : String) : Prop := ∃ entries x, v = .map entries ∧ (.string key, x) ∈ entries

def WellShaped (v : Value) : Prop :=
  (HasKey v "id" ∧ HasKey v "method" → RequestShape v) ∧
  (HasKey v "id" ∧ ¬ HasKey v "method" ∧ (HasKey v "result" ∨ HasKey v "error") → ResponseShape v) ∧
  (¬ (HasKey v "id" ∧ (HasKey v "method" ∨ HasKey v "result" ∨ HasKey v "error")) → NotificationShape v)

/-! They are what the deserialisers accept -/

theorem asStr_eq_some {v : Value} {s : String} : v.asStr = some s ↔ v = .string s := by
  cases v <;> simp [Value.asStr]

theorem mapGet_isSome (v : Value) (key : String) : (mapGet v key).isSome = true ↔ HasKey v key := by
  cases v with
  | map entries =>
    have hkey : HasKey (.map entries) key ↔ ∃ x, (Value.string key, x) ∈ entries := by
      simp [HasKey]
    rw [hkey, mapGet, Value.asMap, Option.bind_some, List.findSome?_isSome_iff]
    constructor
    · rintro ⟨⟨k, x⟩, hmem, hsome⟩
      simp only at hsome
      split_ifs at hsome with hk
      · exact ⟨x, asStr_eq_some.mp hk ▸ hmem⟩
      · cases hsome
    · rintro ⟨x, hmem⟩
      exact ⟨(.string key, x), hmem, by simp [Value.asStr]⟩
  | _ => simp [mapGet, Value.asMap, HasKey]

theorem bind_isSome_iff {α β : Type} {o : Option α} {f : α → Option β} :
    (o.bind f).isSome = true ↔ ∃ a, o = some a ∧ (f a).isSome = true := by
  cases o <;> simp

theorem fromStruct_isSome {α : Type} {names : List String} {build : Slots Value → Option α} {v : Value} :
    (fromStruct names build v).isSome = true ↔
      ∃ slots, HasFields names v slots ∧ (build slots).isSome = true := by
  constructor
  · intro h
    cases v with
    | map entries =>
      obtain ⟨slots, hslots, hbuild⟩ := bind_isSome_iff.mp h
      obtain ⟨hread, rfl⟩ := visitMap_none_eq_some_iff.mp hslots
      exact ⟨_, .map hread, hbuild⟩
    | array items =>
      simp only [fromStruct] at h
      split_ifs at h with hlen
      · exact ⟨_, .array hlen, h⟩
      · cases h
    | _ => cases h
  · rintro ⟨slots, hfields, hbuild⟩
    cases hfields with
    | @map entries hread =>
      exact bind_isSome_iff.mpr ⟨_, visitMap_none_eq_some_iff.mpr ⟨hread, rfl⟩, hbuild⟩
    | array hlen => simpa [fromStruct, hlen] using hbuild

theorem decodeString_isSome (v : Value) : (decodeString v).isSome = true ↔ Text v := by
  unfold decodeString Text
  cases v <;> simp [String.fromUTF8?]

theorem decodeI32_isSome (v : Value) : (decodeI32 v).isSome = true ↔ I32 v := by
  unfold decodeI32 I32
  cases v <;> simp

theorem optionalField_isSome {α : Type} {decode : Value → Option α} {o : Option Value} :
    (optionalField decode o).isSome = true ↔ ∀ v, o = some v → v = .nil ∨ (decode v).isSome = true := by
  cases o with
  | none => simp [optionalField]
  | some v => cases v <;> simp [optionalField, decodeOption]

theorem WireError.fromValue_isSome (v : Value) : (WireError.fromValue v).isSome = true ↔ ErrorShape v := by
  unfold WireError.fromValue ErrorShape
  rw [fromStruct_isSome]
  refine exists_congr fun slots => and_congr_right fun _ => ?_
  simp only [bind, pure, bind_isSome_iff, Option.isSome_some, and_true, exists_and_right,
    ← Option.isSome_iff_exists, optionalField_isSome, or_true, implies_true, decodeI32_isSome,
    decodeString_isSome]

theorem WireRequest.fromValue_isSome (v : Value) :
    (WireRequest.fromValue v).isSome = true ↔ RequestShape v := by
  unfold WireRequest.fromValue RequestShape OptText
  rw [fromStruct_isSome]
  refine exists_congr fun slots => and_congr_right fun _ => ?_
  simp only [bind, pure, bind_isSome_iff, Option.isSome_some, and_true, exists_and_right,
    ← Option.isSome_iff_exists, optionalField_isSome, or_true, implies_true, decodeString_isSome]

theorem WireResponse.fromValue_isSome (v : Value) :
    (WireResponse.fromValue v).isSome = true ↔ ResponseShape v := by
  unfold WireResponse.fromValue ResponseShape OptText
  rw [fromStruct_isSome]
  refine exists_congr fun slots => and_congr_right fun _ => ?_
  simp only [bind, pure, bind_isSome_iff, Option.isSome_some, and_true, exists_and_right,
    ← Option.isSome_iff_exists, optionalField_isSome, or_true, implies_true, true_and,
    decodeString_isSome, WireError.fromValue_isSome]

theorem WireNotification.fromValue_isSome (v : Value) :
    (WireNotification.fromValue v).isSome = true ↔ NotificationShape v := by
  unfold WireNotification.fromValue NotificationShape OptText
  rw [fromStruct_isSome]
  refine exists_congr fun slots => and_congr_right fun _ => ?_
  simp only [bind, pure, bind_isSome_iff, Option.isSome_some, and_true, exists_and_right,
    ← Option.isSome_iff_exists, optionalField_isSome, or_true, implies_true, decodeString_isSome]

theorem Outcome.panicked_map {α β : Type} (f : α → β) (o : Outcome α) : (o.map f).panicked = o.panicked := by
  cases o <;> rfl

theorem panicked_expect {α : Type} (message : String) (o : Option α) :
    (expect message o).panicked = false ↔ o.isSome = true := by
  cases o <;> simp [expect, Outcome.panicked]

theorem valueToWireMessage_panicked (v : Value) :
    (valueToWireMessage v).panicked = false ↔ WellShaped v := by
  unfold valueToWireMessage WellShaped
  dsimp only
  split_ifs with hreq hresp
  · simp only [Bool.and_eq_true, mapGet_isSome] at hreq
    rw [Outcome.panicked_map, panicked_expect, WireRequest.fromValue_isSome]
    simp [hreq]
  · simp only [Bool.and_eq_true, Bool.or_eq_true, mapGet_isSome] at hreq hresp
    rw [Outcome.panicked_map, panicked_expect, WireResponse.fromValue_isSome]
    have hno : ¬ HasKey v "method" := fun h => hreq ⟨hresp.1, h⟩
    simp [hresp, hno]
  · simp only [Bool.and_eq_true, Bool.or_eq_true, mapGet_isSome] at hreq hresp
    rw [Outcome.panicked_map, panicked_expect, WireNotification.fromValue_isSome]
    have hnot : ¬ (HasKey v "id" ∧ (HasKey v "method" ∨ HasKey v "result" ∨ HasKey v "error")) := by
      rintro ⟨hid, hmethod | hother⟩
      · exact hreq ⟨hid, hmethod⟩
      · exact hresp ⟨hid, hother⟩
    constructor
    · exact fun h => ⟨fun hc => absurd hc hreq, fun hc => absurd ⟨hc.1, hc.2.2⟩ hresp, fun _ => h⟩
    · exact fun h => h.2.2 hnot

/-- Neither way to receive a frame panics, if and only if the frame does not decode or its value
has the shape of the message its keys announce. -/
theorem receive_without_panic_iff {ε : Type} (decodeFrame : ByteArray → Except ε Value)
    (streams : List String) (data : ByteArray) :
    ((decodeWireMessage decodeFrame data).panicked = false ∧
      (handleFrame decodeFrame streams data).panicked = false) ↔
    ∀ v, decodeFrame data = .ok v → WellShaped v := by
  unfold decodeWireMessage handleFrame
  cases decodeFrame data with
  | error e => simp [Outcome.panicked]
  | ok value =>
    simp only [Outcome.panicked_map, and_self, valueToWireMessage_panicked, Except.ok.injEq]
    exact ⟨fun h v hv => hv ▸ h, fun h => h value rfl⟩

/-- `{"id": 1, "method": 2}` -/
def numericMethod : Value :=
  .map [(.string "id", .integer ⟨1, by decide⟩), (.string "method", .integer ⟨2, by decide⟩)]

def numericMethodBytes : ByteArray :=
  ⟨#[0x82, 0xa2, 0x69, 0x64, 0x01, 0xa6, 0x6d, 0x65, 0x74, 0x68, 0x6f, 0x64, 0x02]⟩

def numericMethodDecoder (data : ByteArray) : Except Unit Value :=
  if data = numericMethodBytes then .ok numericMethod else .error ()

theorem numeric_method_panics :
    decodeWireMessage numericMethodDecoder numericMethodBytes = .panics "wire request shape" ∧
    handleFrame numericMethodDecoder [] numericMethodBytes = .panics "wire request shape" :=
  ⟨rfl, rfl⟩

end Nexal.Wire
