import Nexal.Sanity.JsonEquiv
import Nexal.Spec.TapeConvert

/-! Messages through the tape: what entries make of them again. -/

namespace Nexal.Tape

/-! Object literals -/

theorem get_literal_cons (key : String) (value : Option Json) (fields : List (String × Option Json)) (k : String) :
    Record.get (literal ((key, value) :: fields)) k =
      if key = k then value.or (Record.get (literal fields) k) else Record.get (literal fields) k := by
  cases value with
  | none => simp [literal]
  | some v =>
    have hcons : literal ((key, some v) :: fields) = (key, v) :: literal fields := rfl
    rw [hcons, Record.get_cons, Option.some_or]

theorem get_literal_nil (k : String) : Record.get (literal []) k = none := rfl

theorem mem_keys_of_get_literal {fields : List (String × Option Json)} {key : String} {v : Json}
    (h : Record.get (literal fields) key = some v) : key ∈ fields.map (·.1) := by
  obtain ⟨g, hg, hgv⟩ := List.mem_filterMap.mp (Record.mem_of_get h)
  obtain ⟨w, -, hpair⟩ := Option.map_eq_some_iff.mp hgv
  exact List.mem_map.mpr ⟨g, hg, (Prod.mk.inj hpair).1⟩

theorem get_literal_of_mem {fields : List (String × Option Json)} {key : String} {value : Option Json}
    (hkeys : (fields.map (·.1)).Nodup) (h : (key, value) ∈ fields) : Record.get (literal fields) key = value := by
  induction fields with
  | nil => cases h
  | cons f fields ih =>
    obtain ⟨k, v⟩ := f
    rw [List.map_cons, List.nodup_cons] at hkeys
    rw [get_literal_cons]
    rcases List.mem_cons.mp h with heq | hmem
    · cases heq
      have hnone : Record.get (literal fields) key = none := by
        by_contra hsome
        obtain ⟨w, hw⟩ := Option.ne_none_iff_exists'.mp hsome
        exact hkeys.1 (mem_keys_of_get_literal hw)
      rw [if_pos rfl, hnone, Option.or_none]
    · have hne : k ≠ key := by
        rintro rfl
        exact hkeys.1 (List.mem_map.mpr ⟨(k, value), hmem, rfl⟩)
      rw [if_neg hne, ih hkeys.2 hmem]

/-- A record with the fields of a literal, up to the order of keys. -/
theorem equiv_literal {fields : List (String × Option Json)} {r : Record} (hkeys : (fields.map (·.1)).Nodup)
    (honly : ∀ f ∈ r, f.1 ∈ fields.map (·.1)) (h : ∀ f ∈ fields, Option.Rel Json.Equiv f.2 (Record.get r f.1)) :
    Json.Equiv (.obj (literal fields)) (.obj r) := by
  have hrel : ∀ key, Option.Rel Json.Equiv (Record.get (literal fields) key) (Record.get r key) := by
    intro key
    by_cases hmem : key ∈ fields.map (·.1)
    · obtain ⟨f, hf, rfl⟩ := List.mem_map.mp hmem
      rw [get_literal_of_mem hkeys hf]
      exact h f hf
    · have hleft : Record.get (literal fields) key = none := by
        by_contra hsome
        obtain ⟨w, hw⟩ := Option.ne_none_iff_exists'.mp hsome
        exact hmem (mem_keys_of_get_literal hw)
      have hright : Record.get r key = none := by
        by_contra hsome
        obtain ⟨w, hw⟩ := Option.ne_none_iff_exists'.mp hsome
        exact hmem (honly _ (Record.mem_of_get hw))
      rw [hleft, hright]
      exact .none
  exact .of_rel hrel

theorem withEntryMeta_literal {fields : List (String × Option Json)} («meta» : Record)
    (h : "meta" ∉ fields.map (·.1)) :
    withEntryMeta (literal fields) «meta» =
      literal (fields ++ [("meta", if «meta» = [] then none else some (.obj «meta»))]) := by
  unfold withEntryMeta
  split_ifs
  · simp [literal]
  · have hset : ∀ r : Record, "meta" ∉ r.map (·.1) →
      Record.set r "meta" (.obj «meta») = r ++ [("meta", .obj «meta»)] := by
      intro r hr
      induction r with
      | nil => rfl
      | cons f r ih =>
        rw [List.map_cons, List.mem_cons, not_or] at hr
        rw [Record.set, if_neg (Ne.symm hr.1), ih hr.2, List.cons_append]
    have hnot : "meta" ∉ (literal fields).map (·.1) := by
      intro hmem
      obtain ⟨g, hg, hgmeta⟩ := List.mem_map.mp hmem
      obtain ⟨f, hf, hfg⟩ := List.mem_filterMap.mp hg
      obtain ⟨w, -, rfl⟩ := Option.map_eq_some_iff.mp hfg
      exact h (List.mem_map.mpr ⟨f, hf, hgmeta⟩)
    rw [hset _ hnot, literal, literal, List.filterMap_append]
    rfl

/-! Canonical messages -/

def isStr (value : Option Json) : Bool := value.any (· matches .str _)

def isBool (value : Option Json) : Bool := value.any (· matches .bool _)

def present (value : Option Json) : Bool := (nullish value).isSome

def only (keys : List String) (r : Record) : Bool := r.all fun f => keys.contains f.1

def canonicalBlock (block : Json) : Bool :=
  match block with
  | .obj r =>
    match Record.get r "type" with
    | some (.str "text") => only ["type", "text"] r && isStr (Record.get r "text")
    | some (.str "image") =>
      only ["type", "data", "mimeType"] r && isStr (Record.get r "data") && isStr (Record.get r "mimeType")
    | _ => false
  | _ => false

def canonicalContent (content : Option Json) : Bool :=
  match content with
  | some (.str _) => true
  | some (.arr blocks) => blocks.all canonicalBlock
  | _ => false

def canonicalAssistantBlock (block : Json) : Bool :=
  match block with
  | .obj r =>
    match Record.get r "type" with
    | some (.str "text") => only ["type", "text", "textSignature"] r && isStr (Record.get r "text")
    | some (.str "thinking") =>
      only ["type", "thinking", "thinkingSignature", "redacted"] r && isStr (Record.get r "thinking")
    | some (.str "toolCall") =>
      only ["type", "id", "name", "arguments", "thoughtSignature"] r && isStr (Record.get r "id") &&
        isStr (Record.get r "name") && present (Record.get r "arguments")
    | _ => false
  | _ => false

def canonicalAssistantContent (content : Option Json) : Bool :=
  match content with
  | some (.arr blocks) => blocks.all canonicalAssistantBlock
  | _ => false

def canonicalTimestamp (value : Option Json) : Bool := value.any (· matches .num _)

def canonicalMeta (value : Option Json) : Bool :=
  match value with
  | none => true
  | some (.obj «meta») => !«meta».isEmpty
  | some _ => false

def nonEmptyOrAbsent (value : Option Json) : Bool :=
  match value with
  | none => true
  | some (.str s) => s ≠ ""
  | some _ => false

/-- A message with the fields of its role's type and no others, each of its own type. -/
def canonical (msg : Json) : Bool :=
  match msg with
  | .obj r =>
    canonicalTimestamp (Record.get r "timestamp") && canonicalMeta (Record.get r "meta") &&
      match Record.get r "role" with
      | some (.str "user") =>
        only ["role", "content", "timestamp", "meta"] r && canonicalContent (Record.get r "content")
      | some (.str "assistant") =>
        only ["role", "content", "api", "provider", "model", "responseId", "usage", "stopReason", "errorMessage",
          "timestamp", "meta"] r && canonicalAssistantContent (Record.get r "content") && isStr (Record.get r "api") &&
          isStr (Record.get r "provider") && isStr (Record.get r "model") && present (Record.get r "usage") &&
          present (Record.get r "stopReason") && nonEmptyOrAbsent (Record.get r "responseId") &&
          nonEmptyOrAbsent (Record.get r "errorMessage")
      | some (.str "toolResult") =>
        only ["role", "toolCallId", "toolName", "content", "details", "isError", "timestamp", "meta"] r &&
          canonicalContent (Record.get r "content") && isStr (Record.get r "toolCallId") &&
          isStr (Record.get r "toolName") && isBool (Record.get r "isError")
      | _ => false
  | _ => false

def isMessage (msg : Json) : Bool :=
  match msg.field "role" with
  | some (.str role) => role = "user" || role = "assistant" || role = "toolResult"
  | _ => false

variable (rt : JsRuntime) (now : JsNumber)

/-! What canonical values come back as -/

theorem isStr_iff {value : Option Json} : isStr value = true ↔ ∃ s, value = some (.str s) := by
  unfold isStr
  constructor
  · intro h
    cases value with
    | none => cases h
    | some v =>
      cases v with
      | str s => exact ⟨s, rfl⟩
      | _ => cases h
  · rintro ⟨s, rfl⟩
    rfl

theorem stringOr_of_isStr {value : Option Json} (h : isStr value = true) (fallback : String) :
    some (Json.str (stringOr rt value fallback)) = value := by
  obtain ⟨s, rfl⟩ := isStr_iff.mp h
  simp [stringOr, nullish, rt.string_str]

theorem truthy_of_isBool {value : Option Json} (h : isBool value = true) :
    some (Json.bool (value.any Json.truthy)) = value := by
  cases value with
  | none => cases h
  | some v =>
    cases v with
    | bool b => rfl
    | _ => cases h

theorem nullish_or_of_present {value : Option Json} (h : present value = true) (fallback : Option Json) :
    (nullish value).or fallback = value := by
  unfold present at h
  cases value with
  | none => cases h
  | some v =>
    cases v with
    | null => cases h
    | _ => rfl

theorem truthyString_of_canonical {value : Option Json} (h : nonEmptyOrAbsent value = true) :
    truthyString rt value = value := by
  cases value with
  | none => rfl
  | some v =>
    cases v with
    | str s =>
      have hne : s ≠ "" := by simpa [nonEmptyOrAbsent] using h
      simp [truthyString, Json.truthy, hne, rt.string_str]
    | _ => cases h

theorem numberOrNow_of_canonical {value : Option Json} (h : canonicalTimestamp value = true) :
    some (numberOrNow rt now value) = value := by
  cases value with
  | none => cases h
  | some v =>
    cases v with
    | num n => rfl
    | _ => cases h

theorem only_mem {keys : List String} {r : Record} (h : only keys r = true) : ∀ f ∈ r, f.1 ∈ keys := by
  intro f hf
  have hcontains := List.all_eq_true.mp h f hf
  simpa using hcontains

theorem block_survives {block : Json} (h : canonicalBlock block = true) :
    Json.Equiv (reviveBlock rt (serializeBlock block)) block := by
  cases block with
  | obj r =>
    unfold canonicalBlock at h
    dsimp only at h
    split at h
    · rename_i htype
      rw [Bool.and_eq_true] at h
      obtain ⟨honly, htext⟩ := h
      have hrevived : reviveBlock rt (serializeBlock (.obj r)) = .obj (literal [("type", some (.str "text")),
          ("text", some (.str (stringOr rt (Record.get r "text") "")))]) := by
        simp [serializeBlock, reviveBlock, Json.field, htype, get_literal_cons, get_literal_nil]
        rfl
      rw [hrevived, stringOr_of_isStr rt htext, ← htype]
      exact equiv_literal (by simp) (only_mem honly) (by simp [Json.Equiv.rel_refl])
    · rename_i htype
      simp only [Bool.and_eq_true] at h
      obtain ⟨⟨honly, hdata⟩, hmime⟩ := h
      have hrevived : reviveBlock rt (serializeBlock (.obj r)) = .obj (literal [("type", some (.str "image")),
          ("data", some (.str (stringOr rt (Record.get r "data") ""))),
          ("mimeType", some (.str (stringOr rt (Record.get r "mimeType") "image/png")))]) := by
        simp [serializeBlock, reviveBlock, Json.field, htype, get_literal_cons, get_literal_nil]
        rfl
      rw [hrevived, stringOr_of_isStr rt hdata, stringOr_of_isStr rt hmime, ← htype]
      exact equiv_literal (by simp) (only_mem honly) (by simp [Json.Equiv.rel_refl])
    · cases h
  | _ => cases h

theorem assistantBlock_survives {block : Json} (h : canonicalAssistantBlock block = true) :
    Json.Equiv (reviveAssistantBlock rt (serializeAssistantBlock block)) block := by
  cases block with
  | obj r =>
    unfold canonicalAssistantBlock at h
    dsimp only at h
    split at h
    · rename_i htype
      rw [Bool.and_eq_true] at h
      obtain ⟨honly, htext⟩ := h
      have hrevived : reviveAssistantBlock rt (serializeAssistantBlock (.obj r)) =
        .obj (literal [("type", some (.str "text")),
          ("text", some (.str (stringOr rt (Record.get r "text") ""))), ("textSignature",
            Record.get r "textSignature")]) := by
        simp [serializeAssistantBlock, reviveAssistantBlock, Json.field, htype, get_literal_cons, get_literal_nil]
      rw [hrevived, stringOr_of_isStr rt htext, ← htype]
      exact equiv_literal (by simp) (only_mem honly) (by simp [Json.Equiv.rel_refl])
    · rename_i htype
      rw [Bool.and_eq_true] at h
      obtain ⟨honly, hthinking⟩ := h
      have hrevived : reviveAssistantBlock rt (serializeAssistantBlock (.obj r)) =
        .obj (literal [("type", some (.str "thinking")),
          ("thinking", some (.str (stringOr rt (Record.get r "thinking") ""))),
          ("thinkingSignature", Record.get r "thinkingSignature"), ("redacted", Record.get r "redacted")]) := by
        simp [serializeAssistantBlock, reviveAssistantBlock, Json.field, htype, get_literal_cons, get_literal_nil]
      rw [hrevived, stringOr_of_isStr rt hthinking, ← htype]
      exact equiv_literal (by simp) (only_mem honly) (by simp [Json.Equiv.rel_refl])
    · rename_i htype
      simp only [Bool.and_eq_true] at h
      obtain ⟨⟨⟨honly, hid⟩, hname⟩, harguments⟩ := h
      have hrevived : reviveAssistantBlock rt (serializeAssistantBlock (.obj r)) =
        .obj (literal [("type", some (.str "toolCall")),
          ("id", some (.str (stringOr rt (Record.get r "id") ""))), ("name",
            some (.str (stringOr rt (Record.get r "name") ""))),
          ("arguments", (nullish (Record.get r "arguments")).or (some (.obj []))),
          ("thoughtSignature", Record.get r "thoughtSignature")]) := by
        simp [serializeAssistantBlock, reviveAssistantBlock, Json.field, htype, get_literal_cons, get_literal_nil]
      rw [hrevived, stringOr_of_isStr rt hid, stringOr_of_isStr rt hname, nullish_or_of_present harguments, ← htype]
      exact equiv_literal (by simp) (only_mem honly) (by simp [Json.Equiv.rel_refl])
    · cases h
  | _ => cases h

theorem content_survives {content : Option Json} (h : canonicalContent content = true) :
    Option.Rel Json.Equiv (some (reviveContent rt (serializeContent content))) content := by
  unfold canonicalContent at h
  split at h
  · exact Json.Equiv.rel_refl _
  · rename_i blocks
    refine .some ?_
    rw [serializeContent, reviveContent, List.map_map]
    exact Json.Equiv.of_map fun block hblock => block_survives rt (List.all_eq_true.mp h block hblock)
  · cases h

theorem assistantContent_survives {content : Option Json} (h : canonicalAssistantContent content = true) :
    Option.Rel Json.Equiv (some (reviveAssistantContent rt (some (serializeAssistantContent rt content)))) content := by
  unfold canonicalAssistantContent at h
  split at h
  · rename_i blocks
    refine .some ?_
    rw [serializeAssistantContent, reviveAssistantContent, List.map_map]
    exact Json.Equiv.of_map fun block hblock => assistantBlock_survives rt (List.all_eq_true.mp h block hblock)
  · cases h

theorem meta_survives {r : Record} (h : canonicalMeta (Record.get r "meta") = true) :
    (if messageMeta r = [] then none else some (.obj (messageMeta r))) = Record.get r "meta" := by
  unfold messageMeta
  cases hmeta : Record.get r "meta" with
  | none => rfl
  | some v =>
    rw [hmeta] at h
    cases v with
    | obj fields =>
      have hne : fields ≠ [] := by simpa [canonicalMeta] using h
      exact if_neg hne
    | _ => cases h

/-- An entry with a message's parts is read as that message. -/
theorem message_survives {msg : Json} {entry : TapeEntry} (hentry : messageToEntry rt msg = some entry.parts)
    (h : canonical msg = true) : ∃ msg', entryToMessage rt now entry = some msg' ∧ Json.Equiv msg' msg := by
  cases msg with
  | obj r =>
    unfold canonical at h
    simp only [Bool.and_eq_true] at h
    obtain ⟨⟨htime, hmeta⟩, h⟩ := h
    have htime' := numberOrNow_of_canonical rt now htime
    have hmeta' := meta_survives hmeta
    split at h
    · rename_i hrole
      rw [Bool.and_eq_true] at h
      obtain ⟨honly, hcontent⟩ := h
      simp only [messageToEntry, hrole] at hentry
      obtain ⟨hkind, hpayload, hmetas⟩ := EntryParts.mk.inj (Option.some.inj hentry)
      refine ⟨_, by
        simp only [entryToMessage, ← hkind, ← hpayload, get_literal_cons, if_true, Option.some_or]
        rfl, ?_⟩
      rw [withEntryMeta_literal _ (by simp), ← hmetas, hmeta']
      refine equiv_literal (by simp) (only_mem honly) ?_
      simp [get_literal_nil, hrole, htime', content_survives rt hcontent, Json.Equiv.rel_refl, Json.Equiv.refl]
    · rename_i hrole
      simp only [Bool.and_eq_true] at h
      obtain ⟨⟨⟨⟨⟨⟨⟨⟨honly, hcontent⟩, hapi⟩, hprovider⟩, hmodel⟩, husage⟩, hstop⟩,
        hresponse⟩, herror⟩ := h
      simp only [messageToEntry, hrole] at hentry
      obtain ⟨hkind, hpayload, hmetas⟩ := EntryParts.mk.inj (Option.some.inj hentry)
      refine ⟨_, by
        simp only [entryToMessage, ← hkind, ← hpayload, get_literal_cons, if_true, Option.some_or]
        rfl, ?_⟩
      rw [withEntryMeta_literal _ (by simp), ← hmetas, hmeta']
      refine equiv_literal (by simp) (only_mem honly) ?_
      simp [get_literal_nil, hrole, htime', assistantContent_survives rt hcontent,
        stringOr_of_isStr rt hapi, stringOr_of_isStr rt hprovider, stringOr_of_isStr rt hmodel,
        nullish_or_of_present husage, nullish_or_of_present hstop, truthyString_of_canonical rt hresponse,
        truthyString_of_canonical rt herror, Json.Equiv.rel_refl, Json.Equiv.refl]
    · rename_i hrole
      simp only [Bool.and_eq_true] at h
      obtain ⟨⟨⟨⟨honly, hcontent⟩, hcall⟩, hname⟩, herror⟩ := h
      simp only [messageToEntry, hrole] at hentry
      obtain ⟨hkind, hpayload, hmetas⟩ := EntryParts.mk.inj (Option.some.inj hentry)
      refine ⟨_, by
        simp only [entryToMessage, ← hkind, ← hpayload, get_literal_cons, if_true, Option.some_or]
        rfl, ?_⟩
      rw [withEntryMeta_literal _ (by simp), ← hmetas, hmeta']
      refine equiv_literal (by simp) (only_mem honly) ?_
      simp [get_literal_nil, hrole, htime', content_survives rt hcontent,
        stringOr_of_isStr rt hcall, stringOr_of_isStr rt hname, truthy_of_isBool herror, Json.Equiv.rel_refl,
          Json.Equiv.refl]
    · cases h
  | _ => cases h

theorem messageToEntry_of_isMessage {msg : Json} (h : isMessage msg = true) :
    ∃ parts, messageToEntry rt msg = some parts := by
  cases msg with
  | obj r =>
    simp only [isMessage, Json.field] at h
    split at h
    · rename_i role hrole
      simp only [Bool.or_eq_true, decide_eq_true_eq] at h
      rcases h with (rfl | rfl) | rfl <;> exact ⟨_, by simp only [messageToEntry, hrole]; rfl⟩
    · cases h
  | _ => cases h

theorem messageToEntry_of_not {msg : Json} (h : isMessage msg = false) : messageToEntry rt msg = none := by
  cases msg with
  | obj r =>
    unfold messageToEntry
    dsimp only
    split
    · rename_i hrole
      simp [isMessage, Json.field, hrole] at h
    · rename_i hrole
      simp [isMessage, Json.field, hrole] at h
    · rename_i hrole
      simp [isMessage, Json.field, hrole] at h
    · rfl
  | _ => rfl

/-- Whatever ids and dates the entries get: the user, assistant and tool result messages of the list
come back in order, each as it was up to the order of its keys. -/
theorem messages_survive (messages : List Json) (entries : List TapeEntry)
    (hcanonical : ∀ msg ∈ messages, isMessage msg = true → canonical msg = true)
    (hentries : entries.map TapeEntry.parts = messagesToEntries rt messages) :
    List.Forall₂ Json.Equiv (entriesToMessages rt now entries) (messages.filter isMessage) := by
  induction messages generalizing entries with
  | nil =>
    rw [List.map_eq_nil_iff.mp hentries]
    exact .nil
  | cons msg messages ih =>
    have hrest : ∀ m ∈ messages, isMessage m = true → canonical m = true :=
      fun m hm => hcanonical m (List.mem_cons_of_mem msg hm)
    rw [messagesToEntries, List.filterMap_cons] at hentries
    cases hmsg : isMessage msg with
    | false =>
      rw [messageToEntry_of_not rt hmsg] at hentries
      rw [List.filter_cons_of_neg (by simp [hmsg])]
      exact ih entries hrest hentries
    | true =>
      obtain ⟨parts, hparts⟩ := messageToEntry_of_isMessage rt hmsg
      rw [hparts] at hentries
      cases entries with
      | nil => cases hentries
      | cons entry entries =>
        obtain ⟨hfirst, htail⟩ := List.cons.inj hentries
        rw [← hfirst] at hparts
        obtain ⟨msg', hread, hequiv⟩ :=
          message_survives rt now hparts (hcanonical msg List.mem_cons_self hmsg)
        rw [List.filter_cons_of_pos hmsg, entriesToMessages, List.filterMap_cons, hread]
        exact .cons hequiv (ih entries hrest htail)

/-- A question, its answer with a tool call, and something that is no message. -/
def exchange : List Json := [
  .obj [("role", .str "user"), ("content", .str "hi"), ("timestamp", .num 1)],
  .str "note",
  .obj [("role", .str "assistant"), ("api", .str "a"), ("provider", .str "p"), ("model", .str "m"),
    ("content", .arr [.obj [("type", .str "toolCall"), ("id", .str "c"), ("name", .str "ls"), ("arguments", .obj [])]]),
    ("usage", .obj []), ("stopReason", .str "toolUse"), ("timestamp", .num 2)]]

theorem exchange_survives :
    List.Forall₂ Json.Equiv
      (entriesToMessages plainStrings 0
        ((messagesToEntries plainStrings exchange).mapIdx fun i p => ⟨⟨p.kind, p.payload, p.meta, ""⟩, i + 1⟩))
      (exchange.filter isMessage) ∧ (exchange.filter isMessage).length = 2 :=
  ⟨messages_survive plainStrings 0 exchange _ (by decide) rfl, by decide⟩

end Nexal.Tape
