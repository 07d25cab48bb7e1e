import Nexal.Spec.JsonText
import Nexal.Sanity.JsonText

/-! Messages come back from their JSON text as they were, unless an object in them has the marker key
with a string under it: that object comes back as a byte array. -/

namespace Nexal

namespace MessageValue

inductive Valid (nt : NumberText) : MessageValue → Prop where
  | null : Valid nt .null
  | bool (b : Bool) : Valid nt (.bool b)
  | num {n : JsNumber} (hn : nt.IsNumber n) : Valid nt (.num n)
  | str (s : String) : Valid nt (.str s)
  | bytes (bytes : List UInt8) : Valid nt (.bytes bytes)
  | arr {items : List MessageValue} (hitems : ∀ v ∈ items, Valid nt v) : Valid nt (.arr items)
  | obj {fields : List (String × MessageValue)} (hkeys : (fields.map Prod.fst).Nodup) (horder : ownOrder fields = fields)
    (hfields : ∀ f ∈ fields, Valid nt f.2) : Valid nt (.obj fields)

/-- No object at any depth has a string under the marker key. -/
inductive Unmarked : MessageValue → Prop where
  | null : Unmarked .null
  | bool (b : Bool) : Unmarked (.bool b)
  | num (n : JsNumber) : Unmarked (.num n)
  | str (s : String) : Unmarked (.str s)
  | bytes (bytes : List UInt8) : Unmarked (.bytes bytes)
  | arr {items : List MessageValue} (hitems : ∀ v ∈ items, Unmarked v) : Unmarked (.arr items)
  | obj {fields : List (String × MessageValue)}
    (hmarker : ∀ s, fields.lookup MessageJson.bytesMarker ≠ some (.str s)) (hfields : ∀ f ∈ fields, Unmarked f.2) :
    Unmarked (.obj fields)

@[elab_as_elim]
theorem induct {P : MessageValue → Prop} (null : P .null) (bool : ∀ b, P (.bool b)) (num : ∀ n, P (.num n))
    (str : ∀ s, P (.str s)) (bytes : ∀ b, P (.bytes b))
    (arr : ∀ items : List MessageValue, (∀ v ∈ items, P v) → P (.arr items))
    (obj : ∀ fields : List (String × MessageValue), (∀ f ∈ fields, P f.2) → P (.obj fields))
    (v : MessageValue) : P v := by
  match v with
  | .null => exact null
  | .bool b => exact bool b
  | .num n => exact num n
  | .str s => exact str s
  | .bytes b => exact bytes b
  | .arr items => exact arr items fun v hv => induct null bool num str bytes arr obj v
  | .obj fields =>
    refine obj fields fun f hf => ?_
    obtain ⟨key, v⟩ := f
    exact induct null bool num str bytes arr obj v
termination_by sizeOf v
decreasing_by
  · have hlt := List.sizeOf_lt_of_mem hv
    rw [MessageValue.arr.sizeOf_spec]
    omega
  · have hlt := List.sizeOf_lt_of_mem hf
    rw [Prod.mk.sizeOf_spec] at hlt
    rw [MessageValue.obj.sizeOf_spec]
    omega

end MessageValue

namespace MessageJson

variable {nt : NumberText} {rt : JsRuntime}

theorem replaceItems_eq (items : List MessageValue) : replaceItems rt items = items.map (replace rt) := by
  induction items with
  | nil => rfl
  | cons v items ih => rw [replaceItems, ih, List.map_cons]

theorem replaceFields_eq (fields : List (String × MessageValue)) :
    replaceFields rt fields = fields.map (Prod.map id (replace rt)) := by
  induction fields with
  | nil => rfl
  | cons f fields ih => rw [replaceFields, ih, List.map_cons]; rfl

theorem reviveItems_eq (items : List Json) : reviveItems rt items = items.map (revive rt) := by
  induction items with
  | nil => rfl
  | cons v items ih => rw [reviveItems, ih, List.map_cons]

theorem reviveFields_eq (fields : Record) : reviveFields rt fields = fields.map (Prod.map id (revive rt)) := by
  induction fields with
  | nil => rfl
  | cons f fields ih => rw [reviveFields, ih, List.map_cons]; rfl

theorem replace_valid {v : MessageValue} (h : v.Valid nt) : (replace rt v).Valid nt := by
  induction h with
  | null => exact .null
  | bool b => exact .bool b
  | num hn => exact .num hn
  | str s => exact .str s
  | bytes bytes =>
    rw [replace]
    refine .obj (by simp) (ownOrder_eq_self ?_) ?_
    · simpa using show arrayIndex bytesMarker = none by decide
    · simpa using .str _
  | arr _ ih =>
    rw [replace, replaceItems_eq]
    exact .arr (by simpa using ih)
  | @obj fields hkeys horder _ ih =>
    rw [replace, replaceFields_eq]
    refine .obj (by simpa [Function.comp_def] using hkeys) (by rw [ownOrder_map, horder]) ?_
    rw [List.forall_mem_map]
    exact ih

/-! What the reviver makes of the text's value -/

theorem reviveObject_eq_self_iff {fields : List (String × MessageValue)} :
    reviveObject rt fields = .obj fields ↔ ∀ s, fields.lookup bytesMarker ≠ some (.str s) := by
  unfold reviveObject
  split
  case h_1 base64 h => simp [h]
  case h_2 h => simpa using h

/-- An object comes back as an object only with its own fields. -/
theorem fields_of_reviveObject {fields fields' : List (String × MessageValue)}
    (h : reviveObject rt fields = .obj fields') : fields = fields' := by
  unfold reviveObject at h
  split at h
  · cases h
  · exact MessageValue.obj.inj h

theorem reviveObject_bytes (s : String) :
    reviveObject rt [(bytesMarker, .str s)] = .bytes (rt.bufferFromBase64 s) := by
  simp [reviveObject]

/-- The reviver undoes the replacer exactly where no object looks like a byte array. -/
theorem revive_replace_iff (hcodec : ∀ b, rt.bufferFromBase64 (rt.bufferToBase64 b) = b) (v : MessageValue) :
    revive rt (replace rt v) = v ↔ v.Unmarked := by
  induction v using MessageValue.induct with
  | null => exact iff_of_true rfl .null
  | bool b => exact iff_of_true rfl (.bool b)
  | num n => exact iff_of_true rfl (.num n)
  | str s => exact iff_of_true rfl (.str s)
  | bytes b =>
    refine iff_of_true ?_ (.bytes b)
    simp only [replace, revive, reviveFields]
    rw [reviveObject_bytes, hcodec]
  | arr items ih =>
    rw [replace, replaceItems_eq, revive, reviveItems_eq, List.map_map, MessageValue.arr.injEq, Lists.map_eq_self_iff]
    constructor
    · intro h
      exact .arr fun v hv => (ih v hv).mp (h v hv)
    · rintro ⟨⟩ v hv
      rename_i hitems
      exact (ih v hv).mpr (hitems v hv)
  | obj fields ih =>
    rw [replace, replaceFields_eq, revive, reviveFields_eq, List.map_map]
    have hfields : fields.map (Prod.map id (revive rt) ∘ Prod.map id (replace rt)) = fields ↔
        ∀ f ∈ fields, f.2.Unmarked := by
      rw [Lists.map_eq_self_iff]
      exact forall₂_congr fun f hf => by rw [← ih f hf]; simp [Prod.ext_iff]
    constructor
    · intro h
      have heq := fields_of_reviveObject h
      rw [heq] at h
      exact .obj (reviveObject_eq_self_iff.mp h) (hfields.mp heq)
    · rintro ⟨⟩
      rename_i hmarker hunmarked
      rw [hfields.mpr hunmarked]
      exact reviveObject_eq_self_iff.mpr hmarker

/-! The text -/

theorem stringify_ne_empty (v : Json) (h : v.Valid nt) : JsonText.stringify nt v ≠ "" := by
  obtain ⟨c, cs, htext, -⟩ := JsonText.text_head h
  rw [JsonText.stringify, htext]
  intro hempty
  simpa using congrArg String.toList hempty

theorem jsonToMessages_messagesToJson {msgs : List MessageValue} (hvalid : ∀ m ∈ msgs, m.Valid nt) :
    jsonToMessages rt nt (messagesToJson rt nt msgs) = some (revive rt (replace rt (.arr msgs))) := by
  have hreplaced : (replace rt (.arr msgs)).Valid nt := replace_valid (.arr hvalid)
  rw [jsonToMessages, messagesToJson]
  split_ifs with hshort
  · have hbrackets := hshort.resolve_left (stringify_ne_empty _ hreplaced)
    have hnil : replace rt (.arr msgs) = .arr [] :=
      JsonText.stringify_inj hreplaced (.arr (by simp)) hbrackets
    rw [hnil]
    rfl
  · rw [JsonText.parse_stringify hreplaced, Option.map_some]

/-- Messages survive the text exactly when none of them holds what a byte array is written as. -/
theorem messages_read_back_iff (hcodec : ∀ b, rt.bufferFromBase64 (rt.bufferToBase64 b) = b) {msgs : List MessageValue}
    (hvalid : ∀ m ∈ msgs, m.Valid nt) :
    jsonToMessages rt nt (messagesToJson rt nt msgs) = some (.arr msgs) ↔ ∀ m ∈ msgs, m.Unmarked := by
  rw [jsonToMessages_messagesToJson hvalid, Option.some.injEq, revive_replace_iff hcodec]
  constructor
  · rintro ⟨⟩
    assumption
  · exact .arr

/-- Base64 of three bytes; the others stand as characters behind a sign that base64 has not. -/
def threeBytes : JsRuntime :=
  { plainStrings with
    bufferFromBase64 := fun s => if s = "AAAA" then [0, 0, 0] else (s.toList.drop 1).map fun c => c.toNat.toUInt8
    bufferToBase64 := fun b => if b = [0, 0, 0] then "AAAA" else String.ofList ('!' :: b.map fun x => Char.ofNat x.toNat) }

theorem threeBytes_codec (b : List UInt8) : threeBytes.bufferFromBase64 (threeBytes.bufferToBase64 b) = b := by
  by_cases h : b = [0, 0, 0]
  · rw [h]
    rfl
  · have hsign : String.ofList ('!' :: b.map fun x => Char.ofNat x.toNat) ≠ "AAAA" := by
      intro heq
      simpa using congrArg String.toList heq
    have hback : ∀ x : UInt8, (Char.ofNat x.toNat).toNat.toUInt8 = x := by
      intro x
      have hx := x.toNat_lt
      have hchar : (Char.ofNat x.toNat).toNat = x.toNat := by
        rw [Char.ofNat, dif_pos (Or.inl (by omega))]
        rfl
      rw [hchar]
      exact UInt8.ofNat_toNat
    simp only [threeBytes, if_neg h, if_neg hsign, String.toList_ofList, List.drop_succ_cons, List.drop_zero, List.map_map]
    exact Lists.map_eq_self_iff.mpr fun x _ => hback x

/-- A result that carries bytes under the marker key itself, and a number. -/
def nestedBytes : MessageValue :=
  .obj [("role", .str "toolResult"), ("details", .arr [.obj [(bytesMarker, .bytes [0, 0, 0])], .num 5])]

theorem nestedBytes_read_back :
    jsonToMessages threeBytes JsonText.digits (messagesToJson threeBytes JsonText.digits [nestedBytes]) =
      some (.arr [nestedBytes]) := by
  have hvalid : nestedBytes.Valid JsonText.digits := by
    refine .obj (by decide) (ownOrder_eq_self (by decide)) ?_
    simp only [List.forall_mem_cons, List.not_mem_nil, false_imp_iff, implies_true, and_true]
    refine ⟨.str _, .arr ?_⟩
    simp only [List.forall_mem_cons, List.not_mem_nil, false_imp_iff, implies_true, and_true]
    exact ⟨.obj (by decide) (ownOrder_eq_self (by decide)) (by simpa using .bytes _), .num ⟨5, by decide, rfl⟩⟩
  have hunmarked : nestedBytes.Unmarked := by
    refine .obj (by simp [bytesMarker, List.lookup_cons]) ?_
    simp only [List.forall_mem_cons, List.not_mem_nil, false_imp_iff, implies_true, and_true]
    refine ⟨.str _, .arr ?_⟩
    simp only [List.forall_mem_cons, List.not_mem_nil, false_imp_iff, implies_true, and_true]
    exact ⟨.obj (by simp) (by simpa using .bytes _), .num 5⟩
  exact (messages_read_back_iff threeBytes_codec (by simpa using hvalid)).mpr (by simpa using hunmarked)

/-- A tool result that quotes such a text is taken for bytes. -/
theorem quoted_marker_lost :
    jsonToMessages threeBytes JsonText.digits
        (messagesToJson threeBytes JsonText.digits [.obj [(bytesMarker, .str "AAAA")]]) ≠
      some (.arr [.obj [(bytesMarker, .str "AAAA")]]) := by
  rw [jsonToMessages_messagesToJson]
  · intro h
    simp [replace, replaceItems, replaceFields, revive, reviveItems, reviveFields, reviveObject] at h
  · simpa using .obj (by decide) (ownOrder_eq_self (by decide)) (by simpa using .str _)

end MessageJson

end Nexal
