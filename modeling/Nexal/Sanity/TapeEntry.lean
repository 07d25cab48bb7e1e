import Nexal.Spec.TapeEntry

/-! What the normalisation of the legacy `tool_call` shapes makes of a block and of an entry. -/

namespace Nexal

namespace Record

theorem get_nil (key : String) : get [] key = none := rfl

theorem get_append (r s : Record) (key : String) : get (r ++ s) key = (get r key).or (get s key) := by
  induction r with
  | nil => rfl
  | cons f r ih =>
    rw [List.cons_append, get_cons, get_cons, ih]
    split_ifs <;> rfl

theorem get_without (r : Record) (keys : List String) (key : String) :
    get (without r keys) key = if key ∈ keys then none else get r key := by
  induction r with
  | nil => simp [without, get]
  | cons f r ih =>
    rw [without] at ih ⊢
    by_cases hf : f.1 ∈ keys
    · rw [List.filter_cons_of_neg (by simpa using hf), ih, get_cons]
      split_ifs with hkey heq
      · rfl
      · exact absurd (heq ▸ hf) hkey
      · rfl
    · rw [List.filter_cons_of_pos (by simpa using hf), get_cons, get_cons, ih]
      split_ifs with heq hkey
      · exact absurd (heq ▸ hkey) hf
      all_goals rfl

theorem get_set_of_ne (r : Record) {key key' : String} (v : Json) (h : key ≠ key') :
    get (set r key v) key' = get r key' := by
  induction r with
  | nil => simp [set, get, List.lookup_cons, beq_eq_false_iff_ne.mpr (Ne.symm h)]
  | cons f r ih =>
    unfold set
    split_ifs with hf
    · rw [get_cons, get_cons, if_neg h, if_neg (hf ▸ h)]
    · rw [get_cons, get_cons, ih]

end Record

namespace Tape

def IsLegacy (block : Json) : Prop := block.field "type" = some (.str "tool_call")

/-- The value under the first of the keys that has one. -/
def firstPresent (r : Record) (keys : List String) : Option Json := keys.findSome? fun key => nullish (Record.get r key)

/-- A call in the canonical shape, made from the fields of a legacy record. `asText` is what happens to
the id and the name. -/
structure KeepsCall (record call : Record) (idKeys nameKeys : List String) (asText : Json → Json) : Prop where
  type : Record.get call "type" = some (.str "toolCall")
  id : Record.get call "id" = some (asText ((firstPresent record idKeys).getD (.str "")))
  name : Record.get call "name" = some (asText ((firstPresent record nameKeys).getD (.str "tool")))
  arguments : Record.get call "arguments" =
    some ((firstPresent record ["arguments", "args", "input"]).getD (.obj []))

theorem firstPresent_pair (r : Record) (a b : String) :
    firstPresent r [a, b] = (nullish (Record.get r a)).or (nullish (Record.get r b)) := by
  simp only [firstPresent, List.findSome?_cons, List.findSome?_nil]
  cases nullish (Record.get r a) <;> cases nullish (Record.get r b) <;> rfl

theorem firstPresent_triple (r : Record) (a b c : String) :
    firstPresent r [a, b, c] =
      ((nullish (Record.get r a)).or (nullish (Record.get r b))).or (nullish (Record.get r c)) := by
  simp only [firstPresent, List.findSome?_cons, List.findSome?_nil]
  cases nullish (Record.get r a) <;> cases nullish (Record.get r b) <;> cases nullish (Record.get r c) <;> rfl

/-! Blocks -/

theorem normalizeBlock_of_not {block : Json} (h : ¬IsLegacy block) : normalizeBlock block = none := by
  cases block with
  | obj record =>
    have htype : Record.get record "type" ≠ some (.str "tool_call") := h
    unfold normalizeBlock
    cases hvalue : Record.get record "type" with
    | none => simp [hvalue]
    | some v => cases v with
      | str s =>
        have hs : s ≠ "tool_call" := by
          rintro rfl
          exact htype hvalue
        simp [hvalue, hs]
      | _ => simp [hvalue]
  | _ => rfl

/-- A legacy block becomes a call with its id, name and arguments; its other fields stay. -/
theorem normalizeBlock_of_legacy {record : Record} (h : IsLegacy (.obj record)) :
    ∃ call, normalizeBlock (.obj record) = some (.obj call) ∧
      KeepsCall record call ["id", "toolCallId"] ["name", "toolName"] id ∧
      ∀ key ∉ ["type", "id", "name", "toolCallId", "toolName", "arguments", "args", "input"],
        Record.get call key = Record.get record key := by
  have htype : Record.get record "type" = some (.str "tool_call") := h
  unfold normalizeBlock
  simp only [htype, Option.any_some, if_true, ← firstPresent_triple]
  simp only [← firstPresent_pair]
  refine ⟨_, rfl, ⟨?_, ?_, ?_, ?_⟩, ?_⟩
  · simp [Record.get_append, Record.get_without, Record.get_cons]
  · simp [Record.get_append, Record.get_without, Record.get_cons]
  · simp [Record.get_append, Record.get_without, Record.get_cons]
  · simp [Record.get_append, Record.get_without, Record.get_cons]
  · intro key hkey
    simp only [List.mem_cons, List.not_mem_nil, or_false, not_or] at hkey
    obtain ⟨hkType, hkId, hkName, hkCallId, hkToolName, hkArguments, hkArgs, hkInput⟩ := hkey
    simp [Record.get_append, Record.get_without, Record.get_cons, Record.get_nil, hkType, hkId, hkName, hkCallId,
      hkToolName, hkArguments, hkArgs, hkInput, Ne.symm hkType, Ne.symm hkId, Ne.symm hkName, Ne.symm hkArguments]

theorem KeepsCall.not_legacy {record call : Record} {idKeys nameKeys : List String} {asText : Json → Json}
    (h : KeepsCall record call idKeys nameKeys asText) : ¬IsLegacy (.obj call) := by
  intro hlegacy
  have htype : Record.get call "type" = some (.str "tool_call") := hlegacy
  rw [h.type] at htype
  simp at htype

/-! Entries -/

section Entries
variable (rt : JsRuntime) (now : JsNumber)

def Clean (entry : TapeEntryDraft) : Prop :=
  entry.kind ≠ .tool_call ∧
    (entry.kind = .message → ∀ content, Record.get entry.payload "content" = some (.arr content) →
      ∀ block ∈ content, ¬IsLegacy block)

theorem normalizeTapeEntryDraft_of_clean {entry : TapeEntryDraft} (h : Clean entry) :
    normalizeTapeEntryDraft rt now entry = entry := by
  unfold normalizeTapeEntryDraft
  split
  case h_1 hkind => exact absurd hkind h.1
  case h_2 hkind =>
    split
    case h_1 content hcontent =>
      rw [if_neg]
      simp only [List.any_eq_true, not_exists, not_and, Bool.not_eq_true, Option.isSome_eq_false_iff,
        Option.isNone_iff_eq_none]
      exact fun block hblock => normalizeBlock_of_not (h.2 hkind content hcontent block hblock)
    case h_2 => rfl
  case h_3 => rfl

/-- The content of a normalised message, whether or not some block was rewritten. -/
theorem normalize_message {entry : TapeEntryDraft} (hkind : entry.kind = .message) {content : List Json}
    (hcontent : Record.get entry.payload "content" = some (.arr content)) :
    normalizeTapeEntryDraft rt now entry =
      { entry with
        payload := Record.set entry.payload "content"
          (.arr (content.map fun block => (normalizeBlock block).getD block)) } := by
  unfold normalizeTapeEntryDraft
  simp only [hkind, hcontent]
  split_ifs with hany
  · rfl
  · have hmap : (content.map fun block => (normalizeBlock block).getD block) = content := by
      simp only [List.any_eq_true, not_exists, not_and, Bool.not_eq_true, Option.isSome_eq_false_iff,
        Option.isNone_iff_eq_none] at hany
      calc
        (content.map fun block => (normalizeBlock block).getD block) = content.map id :=
          List.map_congr_left fun block hblock => by rw [hany block hblock, Option.getD_none, id]
        _ = content := List.map_id content
    rw [hmap, Record.set_of_get hcontent, ← hkind]

theorem normalize_toolCall (entry : TapeEntryDraft) (hkind : entry.kind = .tool_call) :
    ∃ call, Record.get (normalizeTapeEntryDraft rt now entry).payload "content" = some (.arr [.obj call]) ∧
      KeepsCall entry.payload call ["toolCallId", "id"] ["toolName", "name"] fun v => .str (rt.string v) := by
  unfold normalizeTapeEntryDraft
  simp only [hkind, normalizeLegacyToolCallEntry, ← firstPresent_triple]
  simp only [← firstPresent_pair]
  rw [Record.get_set_of_ne _ _ (by decide)]
  simp only [Record.get_append, Record.get_without, Record.get_cons]
  refine ⟨_, rfl, ⟨rfl, rfl, rfl, rfl⟩⟩

end Entries

end Tape

end Nexal
