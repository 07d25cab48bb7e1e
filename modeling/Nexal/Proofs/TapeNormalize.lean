import Mathlib.Data.List.Forall2
import Nexal.Sanity.JsonEquiv
import Nexal.Sanity.TapeEntry

/-! `normalizeTapeEntryDraft` leaves no `tool_call` behind, keeps every call, and touches nothing else.
The id and the name of a `tool_call` entry come out as strings. -/

namespace Nexal.Tape

variable (rt : JsRuntime)

inductive BlockNormalised : Json → Json → Prop where
  | kept {block : Json} (h : ¬IsLegacy block) : BlockNormalised block block
  | converted {record call : Record} (h : IsLegacy (.obj record))
    (hcall : KeepsCall record call ["id", "toolCallId"] ["name", "toolName"] id)
    (hrest : ∀ key ∉ ["type", "id", "name", "toolCallId", "toolName", "arguments", "args", "input"],
      Record.get call key = Record.get record key) : BlockNormalised (.obj record) (.obj call)

structure Normalised (entry normalised : TapeEntryDraft) : Prop where
  clean : Clean normalised
  /-- a `tool_call` entry becomes a message with its call -/
  call : entry.kind = .tool_call →
    ∃ call, Record.get normalised.payload "content" = some (.arr [.obj call]) ∧
      KeepsCall entry.payload call ["toolCallId", "id"] ["toolName", "name"] fun v => .str (rt.string v)
  blocks : entry.kind = .message → ∀ content, Record.get entry.payload "content" = some (.arr content) →
    ∃ content', Record.get normalised.payload "content" = some (.arr content') ∧
      List.Forall₂ BlockNormalised content content'
  fields : entry.kind = .message → ∀ key ≠ "content", Record.get normalised.payload key = Record.get entry.payload key
  frame : entry.kind = .message →
    normalised.kind = .message ∧ normalised.meta = entry.meta ∧ normalised.date = entry.date
  noArray : entry.kind = .message → (∀ content, Record.get entry.payload "content" ≠ some (.arr content)) →
    normalised = entry
  otherKind : entry.kind ≠ .tool_call → entry.kind ≠ .message → normalised = entry

theorem blockNormalised (block : Json) : BlockNormalised block ((normalizeBlock block).getD block) := by
  by_cases h : IsLegacy block
  · cases block with
    | obj record =>
      obtain ⟨call, hcall, hkeeps, hrest⟩ := normalizeBlock_of_legacy h
      rw [hcall, Option.getD_some]
      exact .converted h hkeeps hrest
    | _ => cases h
  · rw [normalizeBlock_of_not h, Option.getD_none]
    exact .kept h

theorem BlockNormalised.not_legacy {block block' : Json} (h : BlockNormalised block block') : ¬IsLegacy block' := by
  cases h with
  | kept h => exact h
  | converted _ hcall _ => exact hcall.not_legacy

/-- An entry with nothing legacy stays as it is. -/
theorem Clean.normalised {entry : TapeEntryDraft} (h : Clean entry) : Normalised rt entry entry where
  clean := h
  call hkind := absurd hkind h.1
  blocks hkind content hcontent :=
    ⟨content, hcontent, List.forall₂_same.mpr fun block hblock => .kept (h.2 hkind content hcontent block hblock)⟩
  fields _ _ _ := rfl
  frame hkind := ⟨hkind, rfl, rfl⟩
  noArray _ _ := rfl
  otherKind _ _ := rfl

theorem array_normalised (now : JsNumber) {entry : TapeEntryDraft} (hkind : entry.kind = .message) {content : List Json}
    (hcontent : Record.get entry.payload "content" = some (.arr content)) :
    Normalised rt entry (normalizeTapeEntryDraft rt now entry) := by
  rw [normalize_message rt now hkind hcontent]
  refine ⟨⟨?_, ?_⟩, ?_, ?_, ?_, ?_, ?_, ?_⟩
  case refine_1 => simp [hkind]
  case refine_2 =>
    intro _ content' hcontent' block hblock
    rw [Record.get_set] at hcontent'
    cases hcontent'
    obtain ⟨block, -, rfl⟩ := List.mem_map.mp hblock
    exact (blockNormalised block).not_legacy
  case refine_3 => exact fun h => absurd (h.symm.trans hkind) nofun
  case refine_4 =>
    intro _ content' hcontent'
    rw [hcontent] at hcontent'
    cases hcontent'
    exact ⟨_, Record.get_set _ _ _, List.forall₂_map_right_iff.mpr
      (List.forall₂_same.mpr fun block _ => blockNormalised block)⟩
  case refine_5 => exact fun _ key hkey => Record.get_set_of_ne _ _ (Ne.symm hkey)
  case refine_6 => exact fun h => ⟨h, rfl, rfl⟩
  case refine_7 => exact fun _ hno => absurd hcontent (hno content)
  case refine_8 => exact fun _ h => absurd hkind h

theorem toolCall_normalised (now : JsNumber) {entry : TapeEntryDraft} (hkind : entry.kind = .tool_call) :
    Normalised rt entry (normalizeTapeEntryDraft rt now entry) := by
  obtain ⟨call, hcontent, hcall⟩ := normalize_toolCall rt now entry hkind
  have hmessage : (normalizeTapeEntryDraft rt now entry).kind = .message := by
    unfold normalizeTapeEntryDraft
    simp only [hkind, normalizeLegacyToolCallEntry]
  have hnot : entry.kind ≠ .message := by simp [hkind]
  refine ⟨⟨by simp [hmessage], fun _ content hcontent' block hblock => ?_⟩, fun _ => ⟨call, hcontent, hcall⟩,
    fun h => absurd h hnot, fun h => absurd h hnot, fun h => absurd h hnot, fun h => absurd h hnot, fun h =>
      absurd hkind h⟩
  rw [hcontent] at hcontent'
  cases hcontent'
  rw [List.mem_singleton.mp hblock]
  exact hcall.not_legacy

theorem normalised (now : JsNumber) (entry : TapeEntryDraft) :
    Normalised rt entry (normalizeTapeEntryDraft rt now entry) := by
  by_cases hcall : entry.kind = .tool_call
  · exact toolCall_normalised rt now hcall
  by_cases harray : entry.kind = .message ∧ ∃ content, Record.get entry.payload "content" = some (.arr content)
  · obtain ⟨hkind, content, hcontent⟩ := harray
    exact array_normalised rt now hkind hcontent
  · have hclean : Clean entry :=
      ⟨hcall, fun hkind content hcontent => absurd ⟨hkind, content, hcontent⟩ harray⟩
    rw [normalizeTapeEntryDraft_of_clean rt now hclean]
    exact hclean.normalised rt

/-- The normalisation is done in one pass, whatever the clock says in the second. -/
theorem normalised_once (now now' : JsNumber) (entry : TapeEntryDraft) :
    Normalised rt entry (normalizeTapeEntryDraft rt now entry) ∧
      normalizeTapeEntryDraft rt now' (normalizeTapeEntryDraft rt now entry) = normalizeTapeEntryDraft rt now entry := by
  have h := normalised rt now entry
  exact ⟨h, normalizeTapeEntryDraft_of_clean rt now' h.clean⟩

def numberedCall : TapeEntryDraft where
  kind := .tool_call
  payload := [("toolCallId", .num 5), ("toolName", .str "run"), ("arguments", .obj [])]
  «meta» := []
  date := ""

/-- The call 5 comes out as the call "5". -/
theorem numbered_call_renamed :
    ∃ call, Record.get (normalizeTapeEntryDraft plainStrings 0 numberedCall).payload "content" =
      some (.arr [.obj call]) ∧
      Record.get call "id" = some (.str "5") ∧ Record.get call "id" ≠ Record.get numberedCall.payload "toolCallId" := by
  obtain ⟨call, hcontent, hcall⟩ := normalize_toolCall plainStrings 0 numberedCall rfl
  have hid : Record.get call "id" = some (.str "5") := hcall.id
  refine ⟨call, hcontent, hid, ?_⟩
  rw [hid]
  simp [numberedCall, Record.get]

end Nexal.Tape
