import Nexal.Sanity.TapeStore
import Nexal.Spec.TapeStore

/-! Serial runs of the tape store: dense ids, reads that give back what was appended, and the
count of entries since the last anchor. -/

namespace Nexal.Tape

variable (rt : JsRuntime) (opts : TapeStoreOptions)

/-! An appended block as a read gives it back -/

def offloadedBlock (store : FileStore) (threshold : ℕ) (block : Json) : Json :=
  ((maybeOffloadBlock rt store threshold block).map (·.1)).getD block

def blockBack (store : FileStore) (threshold : ℕ) (block : Json) : Json :=
  (hydrateBlock rt store (offloadedBlock rt store threshold block)).getD
    (offloadedBlock rt store threshold block)

/-- An appended entry as a read gives it back: the same, but for blocks that went through the
file store. -/
def readBack (d : TapeEntryDraft) : TapeEntryDraft :=
  match opts.fileStore, Record.get d.payload "content" with
  | some store, some (.arr content) =>
    let blocks := content.map (blockBack rt store opts.maxInlineSize)
    { d with payload := Record.set d.payload "content" (.arr blocks) }
  | _, _ => d

/-- The block stays inline, or it has just the three fields of an image and the store and the
base64 codec give its data back. -/
def BlockServed (store : FileStore) (threshold : ℕ) (block : Json) : Prop :=
  (∀ fields, block = .obj fields → Record.get fields "type" = some (.str "image") →
    (∀ data, Record.get fields "data" = some (.str data) → (rt.length data : ℚ) * (3 / 4) < threshold) ∧
    ∀ fileRef, Record.get fields "fileRef" ≠ some (.str fileRef)) ∨
  ∃ data mimeType, block = .obj [("type", .str "image"), ("data", .str data), ("mimeType", .str mimeType)] ∧
    rt.bufferToBase64 (rt.bufferFromBase64 data) = data ∧
    store.download (store.upload (rt.bufferFromBase64 data) mimeType "tape-image").fileHash =
      some (rt.bufferFromBase64 data)

def Served (d : TapeEntryDraft) : Prop :=
  ∀ store, opts.fileStore = some store → ∀ content, Record.get d.payload "content" = some (.arr content) →
    ∀ block ∈ content, BlockServed rt store opts.maxInlineSize block

variable {rt opts}

theorem maybeOffloadBlock_none {store : FileStore} {threshold : ℕ} {block : Json}
    (h : ∀ fields data, block = .obj fields → Record.get fields "type" = some (.str "image") →
      Record.get fields "data" = some (.str data) → (rt.length data : ℚ) * (3 / 4) < threshold) :
    maybeOffloadBlock rt store threshold block = none := by
  unfold maybeOffloadBlock
  split
  · split
    · rename_i fields _ _ data htype hdata
      rw [if_pos (h _ data rfl htype hdata)]
    · rfl
  · rfl

theorem hydrateBlock_none {store : FileStore} {block : Json}
    (h : ∀ fields fileRef, block = .obj fields → Record.get fields "type" = some (.str "image") →
      Record.get fields "fileRef" ≠ some (.str fileRef)) : hydrateBlock rt store block = none := by
  unfold hydrateBlock
  split
  · split
    · rename_i fields _ _ fileRef htype href
      exact absurd href (h _ fileRef rfl htype)
    · rfl
  · rfl

theorem blockBack_of_served {store : FileStore} {threshold : ℕ} {block : Json}
    (h : BlockServed rt store threshold block) : blockBack rt store threshold block = block := by
  rcases h with h | ⟨data, mimeType, rfl, hcodec, hstore⟩
  · have hoff : maybeOffloadBlock rt store threshold block = none :=
      maybeOffloadBlock_none fun fields data hb ht hd => (h fields hb ht).1 data hd
    have hhyd : hydrateBlock rt store block = none :=
      hydrateBlock_none fun fields ref hb ht => (h fields hb ht).2 ref
    simp only [blockBack, offloadedBlock, hoff, Option.map_none, Option.getD_none, hhyd]
  · by_cases hbig : (rt.length data : ℚ) * (3 / 4) < threshold
    · simp [blockBack, offloadedBlock, maybeOffloadBlock, hydrateBlock, Record.get, List.lookup_cons, hbig]
    · simp [blockBack, offloadedBlock, maybeOffloadBlock, hydrateBlock, Record.get, List.lookup_cons, hbig,
        hstore, hcodec]

theorem map_getD_of_any {α : Type} (f : α → Option α) (l : List α) (h : (l.any fun b => (f b).isSome) = false) :
    l.map (fun b => (f b).getD b) = l := by
  refine (List.map_congr_left fun b hb => ?_).trans (List.map_id l)
  have hb' := List.any_eq_false.mp h b hb
  simp only [Option.not_isSome_iff_eq_none] at hb'
  rw [hb', Option.getD_none, id]

theorem offloadLargeBlobs_eq (store : FileStore) (threshold : ℕ) {payload : Record} {content : List Json}
    (h : Record.get payload "content" = some (.arr content)) :
    (offloadLargeBlobs rt store threshold payload).1 =
      Record.set payload "content" (.arr (content.map (offloadedBlock rt store threshold))) := by
  simp only [offloadLargeBlobs, h]
  split_ifs with hany
  · rfl
  · have hmap : content.map (offloadedBlock rt store threshold) = content := by
      refine map_getD_of_any (fun b => (maybeOffloadBlock rt store threshold b).map (·.1)) content ?_
      simpa [List.any_map] using hany
    rw [hmap, Record.set_of_get h]

theorem hydrateFileRefs_eq (store : FileStore) {payload : Record} {content : List Json}
    (h : Record.get payload "content" = some (.arr content)) :
    hydrateFileRefs rt store payload =
      Record.set payload "content" (.arr (content.map fun b => (hydrateBlock rt store b).getD b)) := by
  simp only [hydrateFileRefs, h]
  split_ifs with hany
  · rfl
  · rw [map_getD_of_any _ content (by simpa using hany), Record.set_of_get h]

/-- A read after a write, for one entry. -/
theorem hydrateEntry_stored (d : TapeEntryDraft) (n : ℕ) :
    hydrateEntry rt opts ((stored rt opts d).withId n) = (readBack rt opts d).withId n := by
  cases hstore : opts.fileStore with
  | none => simp only [hydrateEntry, stored, prepareEntry, readBack, hstore]
  | some store =>
    simp only [hydrateEntry, stored, prepareEntry, hstore, TapeEntryDraft.withId]
    by_cases hc : ∃ content, Record.get d.payload "content" = some (.arr content)
    · obtain ⟨content, hcontent⟩ := hc
      rw [offloadLargeBlobs_eq _ _ hcontent, hydrateFileRefs_eq _ (Record.get_set ..), Record.set_set,
        List.map_map]
      simp only [readBack, hstore, hcontent]
      rfl
    · have hoff : (offloadLargeBlobs rt store opts.maxInlineSize d.payload).1 = d.payload := by
        unfold offloadLargeBlobs
        split
        · rename_i content hcontent
          exact absurd ⟨content, hcontent⟩ hc
        · rfl
      have hhyd : hydrateFileRefs rt store d.payload = d.payload := by
        unfold hydrateFileRefs
        split
        · rename_i content hcontent
          exact absurd ⟨content, hcontent⟩ hc
        · rfl
      have hback : readBack rt opts d = d := by
        unfold readBack
        split
        · rename_i content _ hcontent
          exact absurd ⟨content, hcontent⟩ hc
        · rfl
      rw [hoff, hhyd, hback]

theorem readBack_of_served {d : TapeEntryDraft} (h : Served rt opts d) : readBack rt opts d = d := by
  unfold readBack
  split
  · rename_i store content hstore hcontent
    have hmap : content.map (blockBack rt store opts.maxInlineSize) = content :=
      (List.map_congr_left fun b hb =>
        blockBack_of_served (h store hstore content hcontent b hb)).trans (List.map_id content)
    simp only [hmap, Record.set_of_get hcontent]
  · rfl

/-! Queries on tables that refine a log -/

variable {db : Db} {log : Log}

/-- The rows of a tape stand in the order of their ids. -/
theorem Refines.pairwise_ids (h : Refines rt opts db log) (t : TapeId) :
    (entryRows db t).Pairwise fun a b => a.entryId < b.entryId := by
  have hids : ((entryRows db t).map (·.entryId)).Pairwise (· < ·) := by
    rw [h.entryIds]
    exact List.pairwise_lt_range'
  exact List.pairwise_map.mp hids

theorem Refines.read_eq (h : Refines rt opts db log) (t : TapeId) :
    read rt opts db t = (log t).mapIdx fun i d => (readBack rt opts d).withId (i + 1) := by
  unfold read
  cases hf : findTapeRecordById db t with
  | none => simp [h.find_none hf]
  | some row =>
    obtain rfl := find_id hf
    have hsort : orderByEntryId (entryRows db row.id) = entryRows db row.id :=
      List.Pairwise.insertionSort_eq ((h.pairwise_ids row.id).imp Nat.le_of_lt)
    simp only [hsort, h.entries]
    refine List.ext_getElem (by simp [hydrateEntries, storedFrom]) fun i hi _ => ?_
    simp [hydrateEntries, storedFrom, hydrateEntry_stored, Nat.add_comm]

theorem orderByEntryIdDesc_eq {rows : List TapeEntryRow} (h : rows.Pairwise fun a b => a.entryId < b.entryId) :
    orderByEntryIdDesc rows = rows.reverse := by
  have hperm : (orderByEntryIdDesc rows).Perm rows.reverse :=
    (List.perm_insertionSort _ rows).trans (List.reverse_perm rows).symm
  have hnodup : (rows.map (·.entryId)).Nodup := List.pairwise_map.mpr (h.imp Nat.ne_of_lt)
  refine hperm.eq_of_pairwise (fun a b ha hb hab hba => ?_) (List.pairwise_insertionSort _ rows) ?_
  · exact List.inj_on_of_nodup_map hnodup ((List.mem_insertionSort _).mp ha) (List.mem_reverse.mp hb)
      (Nat.le_antisymm hba hab)
  · rw [List.pairwise_reverse]
    exact h.imp Nat.le_of_lt

/-- With ids 1, 2, 3, ... the id of the last row of a kind counts the rows up to it. -/
theorem length_sub_last (p : TapeEntryRow → Bool) (rows : List TapeEntryRow)
    (hids : rows.map (·.entryId) = List.range' 1 rows.length) :
    (match (rows.filter p).getLast? with
      | some r => (rows.length : ℤ) - r.entryId
      | none => rows.length) = ((rows.reverse.takeWhile fun r => !p r).length : ℤ) := by
  induction rows using List.reverseRecOn with
  | nil => rfl
  | append_singleton rows r ih =>
    rw [List.map_append, List.length_append, List.length_singleton, List.range'_concat] at hids
    obtain ⟨hinit, hlast⟩ := List.append_inj' hids rfl
    simp only [List.map_cons, List.map_nil, List.cons.injEq, and_true, Nat.one_mul] at hlast
    rw [List.reverse_append, List.reverse_singleton, List.singleton_append]
    cases hp : p r with
    | true =>
      simp [hp, hlast, Int.add_comm 1]
    | false =>
      have hfilter : (rows ++ [r]).filter p = rows.filter p := by simp [hp]
      rw [hfilter, List.takeWhile_cons_of_pos (by simp [hp])]
      have ih := ih hinit
      rw [List.length_append, List.length_singleton, List.length_cons]
      revert ih
      cases (rows.filter p).getLast? with
      | none =>
        intro ih
        simp only at ih ⊢
        omega
      | some r' =>
        intro ih
        simp only at ih ⊢
        omega

theorem readBack_kind (d : TapeEntryDraft) : (readBack rt opts d).kind = d.kind := by
  unfold readBack
  split <;> rfl

theorem stored_kind (d : TapeEntryDraft) : (stored rt opts d).kind = d.kind := by
  unfold stored prepareEntry
  split <;> rfl

theorem Refines.read_kinds (h : Refines rt opts db log) (t : TapeId) :
    (read rt opts db t).map (fun e => e.kind) = (entryRows db t).map (·.kind) := by
  have hrows := congrArg (List.map fun e : TapeEntry => e.kind) (h.entries t)
  rw [List.map_map] at hrows
  refine Eq.trans ?_ hrows.symm
  rw [h.read_eq]
  refine List.ext_getElem (by simp [storedFrom]) fun i hi _ => ?_
  simp [storedFrom, TapeEntryDraft.withId, readBack_kind, stored_kind]

theorem Refines.entriesSinceLastAnchor_eq (h : Refines rt opts db log) (t : TapeId) :
    (info db t).entriesSinceLastAnchor =
      ((read rt opts db t).reverse.takeWhile fun e => e.kind ≠ .anchor).length := by
  have hcount : ((read rt opts db t).reverse.takeWhile fun e => decide (e.kind ≠ .anchor)).length =
      ((entryRows db t).reverse.takeWhile fun r => !decide (r.kind = .anchor)).length := by
    have hmap := congrArg (fun ks => (ks.reverse.takeWhile fun k => decide (k ≠ .anchor)).length)
      (h.read_kinds t)
    simpa [← List.map_reverse, List.takeWhile_map, Function.comp_def] using hmap
  rw [hcount]
  unfold info
  cases hf : findTapeRecordById db t with
  | none =>
    have hnil : entryRows db t = [] := by
      have hlen := congrArg List.length (h.entryIds t)
      simpa [h.find_none hf] using hlen
    simp [hnil]
  | some row =>
    obtain rfl := find_id hf
    have hids : (entryRows db row.id).map (·.entryId) = List.range' 1 (entryRows db row.id).length := by
      have hlen : (entryRows db row.id).length = (log row.id).length := by
        simpa using congrArg List.length (h.entryIds row.id)
      rw [hlen, h.entryIds]
    have hlast := length_sub_last (fun r => r.kind = .anchor) _ hids
    simp only [infoForTapeRecord, orderByEntryIdDesc_eq ((h.pairwise_ids row.id).filter _), List.head?_reverse]
    exact hlast

/-- A batch that was appended takes the next ids, in batch order. -/
theorem Refines.append_result (h : Refines rt opts db log) {now : JsNumber} {t : TapeId}
    {entries : OneOrMany TapeEntryDraft} {res : OneOrMany TapeEntry}
    (hres : (appendTape rt opts now t entries db).2 = .ok res) :
    res.toList.map (·.id) = List.range' ((log t).length + 1) entries.toList.length ∧
    read rt opts (appendTape rt opts now t entries db).1 t = read rt opts db t ++
      (entries.toList.map (normalizeTapeEntryDraft rt now)).mapIdx fun i d =>
        (readBack rt opts d).withId ((log t).length + 1 + i) := by
  have href := refines_appendTape h now t entries
  have hok : (appendTape rt opts now t entries db).2.toBool = true := by rw [hres]; rfl
  rw [if_pos hok] at href
  refine ⟨?_, ?_⟩
  · rcases appendTape_cases h now t entries with ⟨hnil, heq⟩ | ⟨files, e, heq⟩ | ⟨files, row, res', -, heq,
      hids⟩
    · rw [heq] at hres
      obtain rfl := Except.ok.inj hres
      rw [hnil]
      rfl
    · rw [heq] at hres
      cases hres
    · rw [heq] at hres
      obtain rfl := Except.ok.inj hres
      rw [hids]
      refine List.ext_getElem (by simp [storedFrom]) fun i hi _ => ?_
      simp [storedFrom, TapeEntryDraft.withId]
  · rw [href.read_eq, h.read_eq, Function.update_self, List.mapIdx_append]
    simp only [Nat.add_comm, Nat.add_assoc]

/-- In every state of a serial run the ids of a tape are 1 to its counter; a read gives back the
entries appended since the last reset, in order, as the file store serves them; calls on other
tapes do not show; a batch takes the next ids; and `info` counts the entries after the last
anchor. -/
theorem serial_tapes (rt : JsRuntime) (opts : TapeStoreOptions) (ops : List Op) (t : TapeId) :
    let db := (serialRun rt opts ops).1
    let log := (serialRun rt opts ops).2
    (∀ row, findTapeRecordById db t = some row →
      (entryRows db t).map (·.entryId) = List.range' 1 row.lastEntryId) ∧
    (read rt opts db t = (log t).mapIdx fun i d => (readBack rt opts d).withId (i + 1)) ∧
    (∀ d ∈ log t, Served rt opts d → readBack rt opts d = d) ∧
    (∀ op, op.tape ≠ t →
      entryRows (serialRun rt opts (ops ++ [op])).1 t = entryRows db t ∧
      read rt opts (serialRun rt opts (ops ++ [op])).1 t = read rt opts db t) ∧
    (∀ now entries res, (appendTape rt opts now t entries db).2 = .ok res →
      res.toList.map (·.id) = List.range' ((log t).length + 1) entries.toList.length ∧
      read rt opts (appendTape rt opts now t entries db).1 t = read rt opts db t ++
        (entries.toList.map (normalizeTapeEntryDraft rt now)).mapIdx fun i d =>
          (readBack rt opts d).withId ((log t).length + 1 + i)) ∧
    (info db t).entriesSinceLastAnchor =
      ((read rt opts db t).reverse.takeWhile fun e => e.kind ≠ .anchor).length := by
  intro db log
  have h : Refines rt opts db log := refines_serialRun ops
  refine ⟨fun row hf => ?_, h.read_eq t, fun d _ => readBack_of_served, fun op ht => ⟨?_, ?_⟩,
    fun now entries res hres => h.append_result hres, h.entriesSinceLastAnchor_eq t⟩
  · rw [h.entryIds, h.find_some hf]
  · rw [serialRun_append]
    exact h.entryRows_exec ht
  · rw [(refines_serialRun (ops ++ [op])).read_eq, serialRun_append, h.read_eq]
    exact congrArg (List.mapIdx _) (Log.note_of_ne log ht _)

/-! With a file store, an image block that names no type comes back with one: `read` does not
return the appended entry itself. -/

def zeroBytesRuntime : JsRuntime where
  string := fun
    | .str s => s
    | _ => ""
  string_str := fun _ => rfl
  number := fun _ => none
  dateParse := fun _ => none
  length := String.length
  bufferFromBase64 := fun _ => [0, 0, 0]
  bufferToBase64 := fun _ => "AAAA"
  sha256 := id

def zeroBytesHash : String := "709e80c88487a2411e1ee4dfb9f22a861492d20c4765150c0c794abd70f8147c"

def zeroBytesStore : FileStore where
  upload := fun bytes mimeType filename => ⟨zeroBytesHash, mimeType, filename, bytes.length⟩
  download := fun hash => if hash = zeroBytesHash then some [0, 0, 0] else none
  getUrl := fun _ => none

def imageDraft : TapeEntryDraft where
  kind := .message
  payload := [("content", .arr [.obj [("type", .str "image"), ("data", .str "AAAA")]])]
  «meta» := []
  date := "2026-01-01T00:00:00.000Z"

def imageRun : List Op := [.create "t" 0, .append "t" (.one imageDraft) 0]

def imageOpts : TapeStoreOptions := ⟨some zeroBytesStore, 1⟩

def blockSizes (entries : List TapeEntry) : List (List ℕ) :=
  entries.map fun e => match Record.get e.payload "content" with
    | some (.arr content) => content.map fun
      | .obj fields => fields.length
      | _ => 0
    | _ => []

theorem read_adds_mimeType :
    read zeroBytesRuntime imageOpts (serialRun zeroBytesRuntime imageOpts imageRun).1 "t" ≠
      ((serialRun zeroBytesRuntime imageOpts imageRun).2 "t").mapIdx fun i d => d.withId (i + 1) := by
  intro h
  have hsizes := congrArg blockSizes h
  revert hsizes
  decide +kernel

end Nexal.Tape

/-! A search looks for its query as it stands: percent signs, underscores and backslashes in it are characters like any
other, and no query makes a pattern that the database refuses. -/

namespace Nexal.Tape

open Like (like)

variable (rt : JsRuntime) (opts : TapeStoreOptions) (payloadText : Record → String) (db : Db) (tape : TapeId)
  (query : String) (limit : ℕ)

theorem searchPattern_toList : (searchPattern query).toList = '%' :: (Like.escape '\\' query.toList ++ ['%']) := by
  simp only [searchPattern, escapeLike, String.toList_append, String.toList_ofList, Like.escape]
  rfl

theorem payloadLike_iff (row : TapeEntryRow) : payloadLike payloadText (searchPattern query) row =
    some (decide (query.toList <:+: (payloadText row.payload).toList)) := by
  rw [payloadLike, searchPattern_toList, Like.like_escape (by decide)]

/-- The entries of the tape whose payload has the query in it, the last first. -/
def entriesWith (id : TapeId) : List TapeEntryRow :=
  orderByEntryIdDesc ((entryRows db id).filter fun r => query.toList <:+: (payloadText r.payload).toList)

theorem search_eq : search rt opts payloadText db tape query limit = some (match findTapeRecordById db tape with
    | none => []
    | some row => hydrateEntries rt opts (((entriesWith payloadText db query row.id).take limit).map rowToEntry)) := by
  unfold search
  cases findTapeRecordById db tape with
  | none => rfl
  | some row => simp [payloadLike_iff, entriesWith]

/-- The pattern fits the texts that the query is a part of, and the search finds the entries with such payloads. -/
theorem search_literal :
    (∀ query text : String, like '\\' ("%" ++ escapeLike query ++ "%").toList text.toList ≠ none ∧
      (like '\\' ("%" ++ escapeLike query ++ "%").toList text.toList = some true ↔ query.toList <:+: text.toList)) ∧
    search rt opts payloadText db tape query limit = some (match findTapeRecordById db tape with
      | none => []
      | some row => hydrateEntries rt opts (((entriesWith payloadText db query row.id).take limit).map rowToEntry)) := by
  refine ⟨fun query text => ?_, search_eq rt opts payloadText db tape query limit⟩
  have hpattern := searchPattern_toList query
  rw [searchPattern] at hpattern
  rw [hpattern, Like.like_escape (by decide)]
  simp

example : like '\\' (searchPattern "50%_\\").toList "at 50%_\\ off".toList = some true := by decide

example : like '\\' (searchPattern "5%f").toList "50% off".toList = some false := by decide

end Nexal.Tape
