import Nexal.Proofs.MessageJson
import Nexal.Proofs.TapeNormalize
import Nexal.Proofs.TapeStore
import Nexal.Sanity.JsonEquiv

/-! Images that went through the file store are read back with the data and the type they were appended
with; nothing else changes, but for legacy tool calls, which are appended in their canonical shape. -/

namespace Nexal.Tape

variable (rt : JsRuntime) (opts : TapeStoreOptions)

def IsImage (block : Json) : Prop := block.field "type" = some (.str "image")

/-- The fields type, data and mimeType in some order, and no others; the data are canonical base64. -/
def PlainImage (block : Json) : Prop :=
  ∃ fields data mimeType, block = .obj fields ∧ rt.bufferToBase64 (rt.bufferFromBase64 data) = data ∧
    fields.Perm [("type", .str "image"), ("data", .str data), ("mimeType", .str mimeType)]

def PlainImages (payload : Record) : Prop :=
  ∀ content, Record.get payload "content" = some (.arr content) → ∀ block ∈ content, IsImage block →
    PlainImage rt block

/-- A download gives the bytes that were uploaded under the hash. -/
def FileStore.Keeps (store : FileStore) : Prop :=
  ∀ bytes mimeType filename, store.download (store.upload bytes mimeType filename).fileHash = some bytes

/-- A block and the block read back: an image may come back with its keys in another order. -/
def BlockBack (block back : Json) : Prop := back = block ∨ IsImage block ∧ Json.Equiv block back

structure PayloadBack (payload back : Record) : Prop where
  equiv : Json.Equiv (.obj payload) (.obj back)
  fields : ∀ key ≠ "content", Record.get back key = Record.get payload key
  blocks : ∀ content, Record.get payload "content" = some (.arr content) →
    ∃ content', Record.get back "content" = some (.arr content') ∧ List.Forall₂ BlockBack content content'
  noArray : (∀ content, Record.get payload "content" ≠ some (.arr content)) → back = payload

variable {rt opts}

theorem blockBack_of_not_image {store : FileStore} {threshold : ℕ} {block : Json} (h : ¬IsImage block) :
    blockBack rt store threshold block = block := by
  refine blockBack_of_served (Or.inl fun fields hfields himage => ?_)
  subst hfields
  exact absurd himage h

theorem blockBack_of_image {store : FileStore} (hstore : store.Keeps) {threshold : ℕ} {block : Json}
    (h : PlainImage rt block) : Json.Equiv block (blockBack rt store threshold block) := by
  obtain ⟨fields, data, mimeType, rfl, hcodec, hperm⟩ := h
  have hkeys : (fields.map Prod.fst).Nodup := (hperm.map Prod.fst).nodup_iff.mpr (by simp)
  have hget := Record.get_perm hkeys hperm
  have htype : Record.get fields "type" = some (.str "image") := hget "type"
  have hdata : Record.get fields "data" = some (.str data) := hget "data"
  have hmime : Record.get fields "mimeType" = some (.str mimeType) := hget "mimeType"
  have href : Record.get fields "fileRef" = none := hget "fileRef"
  by_cases hsmall : (rt.length data : ℚ) * (3 / 4) < threshold
  · rw [blockBack_of_served (Or.inl fun fields' hfields _ => ?_)]
    · exact .refl _
    · cases hfields
      refine ⟨fun data' hdata' => ?_, fun fileRef => by simp [href]⟩
      rw [hdata] at hdata'
      cases hdata'
      exact hsmall
  · have hback : blockBack rt store threshold (.obj fields) =
        .obj [("type", .str "image"), ("data", .str data), ("mimeType", .str mimeType)] := by
      simp [blockBack, offloadedBlock, maybeOffloadBlock, hydrateBlock, htype, hdata, hmime, hsmall, Record.get_cons,
        hstore _ _ _, hcodec]
    rw [hback]
    exact .of_get hget

theorem PayloadBack.refl (payload : Record) : PayloadBack payload payload where
  equiv := .refl _
  fields _ _ := rfl
  blocks content hcontent := ⟨content, hcontent, List.forall₂_same.mpr fun _ _ => Or.inl rfl⟩
  noArray _ := rfl

theorem payloadBack_of_blocks {payload : Record} {content content' : List Json}
    (hcontent : Record.get payload "content" = some (.arr content)) (hblocks : List.Forall₂ BlockBack content content') :
    PayloadBack payload (Record.set payload "content" (.arr content')) := by
  have hitems : Json.Equiv (.arr content) (.arr content') := by
    refine .of_forall₂ (hblocks.imp fun block back h => ?_)
    rcases h with rfl | ⟨-, h⟩
    · exact .refl _
    · exact h
  refine ⟨?_, fun key hkey => Record.get_set_of_ne _ _ (Ne.symm hkey), fun blocks hblocks' => ?_,
    fun hno => absurd hcontent (hno content)⟩
  · refine .of_rel fun key => ?_
    by_cases hkey : key = "content"
    · rw [hkey, hcontent, Record.get_set]
      exact .some hitems
    · rw [Record.get_set_of_ne _ _ (Ne.symm hkey)]
      exact Json.Equiv.rel_refl _
  · rw [hcontent] at hblocks'
    cases hblocks'
    exact ⟨content', Record.get_set _ _ _, hblocks⟩

/-- An entry with plain images is read back as it was prepared for. -/
theorem readBack_payload (hstore : ∀ store, opts.fileStore = some store → store.Keeps) {d : TapeEntryDraft}
    (himages : PlainImages rt d.payload) : PayloadBack d.payload (readBack rt opts d).payload := by
  unfold readBack
  split
  case h_1 store content hsome hcontent =>
    refine payloadBack_of_blocks hcontent (List.forall₂_map_right_iff.mpr (List.forall₂_same.mpr fun block hblock => ?_))
    by_cases himage : IsImage block
    · exact Or.inr ⟨himage, blockBack_of_image (hstore store hsome) (himages content hcontent block hblock himage)⟩
    · exact Or.inl (blockBack_of_not_image himage)
  case h_2 => exact .refl _

/-- The normalisation adds no images. -/
theorem plainImages_normalised (now : JsNumber) {entry : TapeEntryDraft} (h : PlainImages rt entry.payload) :
    PlainImages rt (normalizeTapeEntryDraft rt now entry).payload := by
  have hnormalised := normalised rt now entry
  by_cases hcall : entry.kind = .tool_call
  · obtain ⟨call, hcontent, hkeeps⟩ := hnormalised.call hcall
    intro content hcontent' block hblock himage
    rw [hcontent] at hcontent'
    cases hcontent'
    rw [List.mem_singleton.mp hblock] at himage
    exact absurd (hkeeps.type.symm.trans himage) (by simp)
  by_cases hmessage : entry.kind = .message
  · by_cases harray : ∃ content, Record.get entry.payload "content" = some (.arr content)
    · obtain ⟨content, hcontent⟩ := harray
      obtain ⟨content', hnew, hblocks⟩ := hnormalised.blocks hmessage content hcontent
      intro content'' hcontent'' block' hblock' himage
      rw [hnew] at hcontent''
      cases hcontent''
      obtain ⟨i, hi, rfl⟩ := List.getElem_of_mem hblock'
      have hi' : i < content.length := hblocks.length_eq ▸ hi
      have hnorm : BlockNormalised content[i] content'[i] := hblocks.get hi' hi
      generalize hold : content[i] = block at hnorm
      generalize content'[i] = block' at hnorm himage
      cases hnorm with
      | kept _ => exact h content hcontent block (hold ▸ List.getElem_mem hi') himage
      | converted _ hkeeps _ => exact absurd (hkeeps.type.symm.trans himage) (by simp)
    · rw [hnormalised.noArray hmessage (by simpa using harray)]
      exact h
  · rw [hnormalised.otherKind hcall hmessage]
    exact h

/-- How an entry is read back: its payload as normalised, which is its own where nothing is legacy. -/
def EntryBack (rt : JsRuntime) (now : JsNumber) (entry : TapeEntryDraft) (back : TapeEntry) : Prop :=
  PayloadBack (normalizeTapeEntryDraft rt now entry).payload back.payload ∧
    (Clean entry → PayloadBack entry.payload back.payload)

/-- In every state of a serial run a read gives the entries of the log with their payloads, and what is
appended comes back at the end of the next read. -/
theorem blobs_read_back (hstore : ∀ store, opts.fileStore = some store → store.Keeps) (ops : List Op) (t : TapeId) :
    List.Forall₂ (fun d back => PlainImages rt d.payload → PayloadBack d.payload back.payload)
        ((serialRun rt opts ops).2 t) (read rt opts (serialRun rt opts ops).1 t) ∧
      ∀ (now : JsNumber) (entries : OneOrMany TapeEntryDraft) (res : OneOrMany TapeEntry),
        (∀ entry ∈ entries.toList, PlainImages rt entry.payload) →
        (appendTape rt opts now t entries (serialRun rt opts ops).1).2 = .ok res →
        ∃ back, read rt opts (appendTape rt opts now t entries (serialRun rt opts ops).1).1 t =
            read rt opts (serialRun rt opts ops).1 t ++ back ∧
          List.Forall₂ (EntryBack rt now) entries.toList back := by
  have h : Refines rt opts (serialRun rt opts ops).1 (serialRun rt opts ops).2 := refines_serialRun ops
  refine ⟨?_, fun now entries res himages hres => ⟨_, (h.append_result hres).2, ?_⟩⟩
  · rw [h.read_eq]
    exact Lists.forall₂_mapIdx fun i d _ himages => readBack_payload hstore himages
  · rw [Lists.mapIdx_map]
    refine Lists.forall₂_mapIdx fun i entry hentry => ?_
    have hback := readBack_payload hstore (plainImages_normalised now (himages entry hentry))
    refine ⟨hback, fun hclean => ?_⟩
    rw [normalizeTapeEntryDraft_of_clean rt now hclean] at hback
    rwa [normalizeTapeEntryDraft_of_clean rt now hclean]

def namedStore : FileStore where
  upload bytes mimeType filename := ⟨MessageJson.threeBytes.bufferToBase64 bytes, mimeType, filename, bytes.length⟩
  download hash := some (MessageJson.threeBytes.bufferFromBase64 hash)
  getUrl _ := none

theorem namedStore_keeps : namedStore.Keeps := fun bytes _ _ => congrArg some (MessageJson.threeBytes_codec bytes)

def namedOpts : TapeStoreOptions := ⟨some namedStore, 3⟩

/-- An image that is just large enough to leave, and a text. -/
def picture : TapeEntryDraft where
  kind := .message
  payload := [("role", .str "user"), ("content", .arr
    [.obj [("mimeType", .str "image/png"), ("type", .str "image"), ("data", .str "AAAA")],
     .obj [("type", .str "text"), ("text", .str "hi")]])]
  «meta» := []
  date := ""

theorem picture_read_back :
    ∃ back, read MessageJson.threeBytes namedOpts (appendTape MessageJson.threeBytes namedOpts 0 "t" (.one picture)
        (serialRun MessageJson.threeBytes namedOpts [.create "t" 0]).1).1 "t" =
        read MessageJson.threeBytes namedOpts (serialRun MessageJson.threeBytes namedOpts [.create "t" 0]).1 "t" ++ back ∧
      List.Forall₂ (EntryBack MessageJson.threeBytes 0) [picture] back := by
  obtain ⟨res, hres⟩ : ∃ res, (appendTape MessageJson.threeBytes namedOpts 0 "t" (.one picture)
      (serialRun MessageJson.threeBytes namedOpts [.create "t" 0]).1).2 = .ok res := ⟨_, rfl⟩
  refine (blobs_read_back ?_ [.create "t" 0] "t").2 0 (.one picture) res ?_ hres
  · rintro store ⟨⟩
    exact namedStore_keeps
  · intro entry hentry content hcontent block hblock himage
    rw [List.mem_singleton.mp hentry] at hcontent
    cases hcontent
    simp only [List.mem_cons, List.not_mem_nil, or_false] at hblock
    rcases hblock with rfl | rfl
    · exact ⟨_, "AAAA", "image/png", rfl, rfl, (List.perm_append_singleton _ [_, _]).symm⟩
    · exact absurd himage (by simp [IsImage, Json.field, Record.get])

def legacyCall : TapeEntryDraft where
  kind := .message
  payload := [("content", .arr [.obj [("type", .str "tool_call"), ("id", .str "1"), ("input", .obj [])]])]
  «meta» := []
  date := ""

/-- A legacy block is not read back as it was appended, though there is no image. -/
theorem legacy_call_rewritten :
    ∃ entry, read MessageJson.threeBytes namedOpts
        (serialRun MessageJson.threeBytes namedOpts [.create "t" 0, .append "t" (.one legacyCall) 0]).1 "t" = [entry] ∧
      ¬Json.Equiv (.obj legacyCall.payload) (.obj entry.payload) := by
  refine ⟨_, rfl, fun h => ?_⟩
  cases h with | obj _ hfields =>
  cases hfields "content" _ _ rfl rfl with | arr _ hitems =>
  cases hitems 0 _ _ rfl rfl with | obj _ hfields =>
  exact absurd (hfields "type" _ _ rfl rfl).str_inj (by decide)

end Nexal.Tape
