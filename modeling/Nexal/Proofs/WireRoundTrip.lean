import Nexal.Spec.Wire

/-! What is sent is received: a frame carries no tag, and its kind and fields come back from the
keys alone. -/

namespace Nexal.Wire

/-- An optional value that is nil counts as absent. -/
def dropNil : Option Value → Option Value
  | some .nil => none
  | o => o

def WireError.dropNil (e : WireError) : WireError := { e with data := Wire.dropNil e.data }

def WireMessage.dropNil : WireMessage → WireMessage
  | .request r => .request { r with params := Wire.dropNil r.params }
  | .response r => .response { r with
      result := Wire.dropNil r.result
      error := r.error.map WireError.dropNil }
  | .notification n => .notification { n with params := Wire.dropNil n.params }

def WireMessage.complete : WireMessage → Prop
  | .response r => r.result.isSome ∨ r.error.isSome
  | _ => True

/-! Records -/

theorem identifier_of_getElem? {names : List String} (hnd : names.Nodup) {j : ℕ} {name : String}
    (h : names[j]? = some name) : identifier names (.string name) = .field j := by
  have hidx : names.idxOf? name = some j := by
    obtain ⟨hj, hname⟩ := List.getElem?_eq_some_iff.mp h
    refine List.idxOf?_eq_some_iff.mpr ⟨hj, hname, fun i hi heq => ?_⟩
    have := (hnd.getElem_inj_iff).mp (heq.trans hname.symm)
    omega
  simp only [identifier, hidx]

/-- A struct read from a record of its own fields. -/
theorem fromStruct_record {α : Type} {names : List String} {fields : List (String × Option Value)}
    {build : Slots Value → Option α} (hnd : names.Nodup) (hnames : fields.map (·.1) = names) :
    fromStruct names build (record fields) = build fun i => fields[i]?.bind (·.2) := by
  subst hnames
  have hident : ∀ j f, (fields.map fun f => (Value.string f.1, f.2))[j]? = some f →
      identifier (fields.map (·.1)) f.1 = .field j := by
    intro j f hj
    rw [List.getElem?_map, Option.map_eq_some_iff] at hj
    obtain ⟨f, hf, rfl⟩ := hj
    exact identifier_of_getElem? hnd (by rw [List.getElem?_map, hf, Option.map_some])
  have hvisit := visitMap_presentPairs hident
  simp only [fromStruct, record, hvisit, Option.bind_some, List.getElem?_map]
  congr 1
  funext i
  cases fields[i]? <;> rfl

theorem mapGet_record_isSome (fields : List (String × Option Value)) (key : String) :
    (mapGet (record fields) key).isSome = fields.any fun f => decide (f.1 = key) && f.2.isSome := by
  simp only [mapGet, record, Value.asMap, Option.bind_some]
  induction fields with
  | nil => rfl
  | cons f fields ih =>
    obtain ⟨name, value⟩ := f
    rw [List.any_cons, ← ih]
    cases value with
    | none => simp [presentPairs]
    | some v =>
      by_cases hname : name = key
      · simp [presentPairs, Value.asStr, hname]
      · simp [presentPairs, Value.asStr, hname]

/-! The message types -/

theorem decodeI32_ofInt32 (n : Int32) : decodeI32 (.integer (.ofInt32 n)) = some n := by
  have hrange : -2 ^ 31 ≤ n.toInt ∧ n.toInt < 2 ^ 31 := ⟨n.le_toInt, n.toInt_lt⟩
  simp only [decodeI32, Integer.ofInt32, if_pos hrange, Int32.ofInt_toInt]

theorem optionalField_some (o : Option Value) : optionalField some o = some (dropNil o) := by
  cases o with
  | none => rfl
  | some v => cases v <;> rfl

theorem optionalField_string (o : Option String) :
    optionalField decodeString (o.map .string) = some o := by
  cases o <;> rfl

theorem WireError.fromValue_toValue (e : WireError) : WireError.fromValue e.toValue = some e.dropNil := by
  have hnd : WireError.fields.Nodup := by decide
  refine (fromStruct_record hnd rfl).trans ?_
  simp only [List.getElem?_cons_zero, List.getElem?_cons_succ, Option.bind_some, decodeI32_ofInt32,
    optionalField_some, bind, pure]
  rfl

theorem optionalField_error (o : Option WireError) :
    optionalField WireError.fromValue (o.map WireError.toValue) = some (o.map WireError.dropNil) := by
  cases o with
  | none => rfl
  | some e =>
    refine Eq.trans (b := (WireError.fromValue e.toValue).map some) rfl ?_
    rw [WireError.fromValue_toValue]
    rfl

theorem WireRequest.fromValue_toValue (r : WireRequest) :
    WireRequest.fromValue (WireMessage.request r).toValue =
      some { r with params := Wire.dropNil r.params } := by
  have hnd : WireRequest.fields.Nodup := by decide
  refine (fromStruct_record hnd rfl).trans ?_
  simp only [List.getElem?_cons_zero, List.getElem?_cons_succ, Option.bind_some, optionalField_string,
    optionalField_some, bind, pure]
  rfl

theorem WireResponse.fromValue_toValue (r : WireResponse) :
    WireResponse.fromValue (WireMessage.response r).toValue =
      some { r with
        result := Wire.dropNil r.result
        error := r.error.map WireError.dropNil } := by
  have hnd : WireResponse.fields.Nodup := by decide
  refine (fromStruct_record hnd rfl).trans ?_
  simp only [List.getElem?_cons_zero, List.getElem?_cons_succ, Option.bind_some, optionalField_string,
    optionalField_some, optionalField_error, bind, pure]

theorem WireNotification.fromValue_toValue (n : WireNotification) :
    WireNotification.fromValue (WireMessage.notification n).toValue =
      some { n with params := Wire.dropNil n.params } := by
  have hnd : WireNotification.fields.Nodup := by decide
  refine (fromStruct_record hnd rfl).trans ?_
  simp only [List.getElem?_cons_zero, List.getElem?_cons_succ, Option.bind_some, optionalField_string,
    optionalField_some, bind, pure]
  rfl

/-- The keys of a sent message lead to its own kind. -/
theorem valueToWireMessage_toValue (msg : WireMessage) (hcomplete : msg.complete) :
    valueToWireMessage msg.toValue = .returns msg.dropNil := by
  unfold valueToWireMessage
  cases msg with
  | request r =>
    have hkeys : ((mapGet (WireMessage.request r).toValue "id").isSome &&
        (mapGet (WireMessage.request r).toValue "method").isSome) = true := by
      rw [WireMessage.toValue, mapGet_record_isSome, mapGet_record_isSome]
      simp
    simp only [hkeys, if_true, WireRequest.fromValue_toValue]
    rfl
  | response r =>
    have hmethod : (mapGet (WireMessage.response r).toValue "method").isSome = false := by
      rw [WireMessage.toValue, mapGet_record_isSome]
      simp
    have hkeys : ((mapGet (WireMessage.response r).toValue "id").isSome &&
        ((mapGet (WireMessage.response r).toValue "result").isSome ||
          (mapGet (WireMessage.response r).toValue "error").isSome)) = true := by
      rw [WireMessage.toValue, mapGet_record_isSome, mapGet_record_isSome, mapGet_record_isSome]
      simpa [WireMessage.complete] using hcomplete
    simp only [hmethod, Bool.and_false, Bool.false_eq_true, if_false, hkeys, if_true,
      WireResponse.fromValue_toValue]
    rfl
  | notification n =>
    have hid : (mapGet (WireMessage.notification n).toValue "id").isSome = false := by
      rw [WireMessage.toValue, mapGet_record_isSome]
      simp
    simp only [hid, Bool.false_and, Bool.false_eq_true, if_false, WireNotification.fromValue_toValue]
    rfl

/-- A complete message comes back from its frame, with nil and absent values identified, as long
as the library reads back the value it wrote. -/
theorem decode_encode_frame {ε : Type} (write : Value → ByteArray) (decodeFrame : ByteArray → Except ε Value)
    (msg : WireMessage) (hcomplete : msg.complete)
    (hlib : decodeFrame (write msg.toValue) = .ok msg.toValue) :
    decodeWireMessage decodeFrame (encodeFrame write msg) = .returns (.ok msg.dropNil) := by
  unfold decodeWireMessage encodeFrame
  rw [hlib]
  simp only [valueToWireMessage_toValue msg hcomplete]
  rfl

def nilResponse : WireMessage := .response ⟨some "s", .string "a", some .nil, none⟩

/-- The frame of `nilResponse`: a map of `stream`, `id` and `result`. -/
def nilResponseBytes : ByteArray :=
  ⟨#[0x83, 0xa6, 0x73, 0x74, 0x72, 0x65, 0x61, 0x6d, 0xa1, 0x73, 0xa2, 0x69, 0x64, 0xa1, 0x61,
    0xa6, 0x72, 0x65, 0x73, 0x75, 0x6c, 0x74, 0xc0]⟩

def nilResponseDecoder (data : ByteArray) : Except Unit Value :=
  if data = nilResponseBytes then .ok nilResponse.toValue else .error ()

theorem decode_encode_nilResponse :
    decodeWireMessage nilResponseDecoder (encodeFrame (fun _ => nilResponseBytes) nilResponse) =
      .returns (.ok (.response ⟨some "s", .string "a", none, none⟩)) :=
  decode_encode_frame (fun _ => nilResponseBytes) nilResponseDecoder nilResponse (Or.inl rfl) rfl

end Nexal.Wire
