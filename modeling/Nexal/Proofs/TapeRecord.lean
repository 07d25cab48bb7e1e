import Nexal.Sanity.SortObject

/-! With `ifChanged` a configuration is recorded once: its status is current exactly when the latest
record carries the same data, and then nothing is appended. -/

namespace Nexal.Tape

variable {rt : JsRuntime} {nt : NumberText} {locale : LocaleCompare}

/-! The data of a call are a value -/

theorem literal_keys (fields : List (String × Option Json)) :
    ((literal fields).map Prod.fst).Sublist (fields.map Prod.fst) := by
  induction fields with
  | nil => exact List.Sublist.slnil
  | cons f fields ih =>
    obtain ⟨key, value⟩ := f
    cases value with
    | none => exact ih.cons key
    | some v => exact ih.cons_cons key

theorem compactRecord_valid {fields : List (String × Option Json)} (hkeys : (fields.map Prod.fst).Nodup)
    (hvalid : ∀ f ∈ fields, ∀ v, f.2 = some v → v.Valid nt) : (Json.obj (compactRecord fields)).Valid nt := by
  refine valid_fromEntries ((literal_keys fields).nodup hkeys) fun f hf => ?_
  obtain ⟨g, hg, hgf⟩ := List.mem_filterMap.mp hf
  obtain ⟨v, hv, rfl⟩ := Option.map_eq_some_iff.mp hgf
  exact hvalid g hg v hv

theorem toPlain_eq {v : Json} (h : v.Valid nt) : toPlain rt nt v = v := by
  rw [toPlain, JsonText.parse_stringify h, Option.getD_some]

theorem field_valid {v w : Json} {key : String} (h : v.Valid nt) (hw : v.field key = some w) : w.Valid nt := by
  cases h with
  | obj _ _ hfields => exact hfields (key, w) (Record.mem_of_get hw)
  | _ => cases hw

def TapeSystemOptions.Valid (nt : NumberText) (options : TapeSystemOptions) : Prop :=
  ∀ «meta», options.metadata = some «meta» → (Json.obj «meta»).Valid nt

def Summary.Valid (nt : NumberText) : Summary → Prop
  | .text _ => True
  | .object fields => (Json.obj fields).Valid nt

def RecordCall.Valid (nt : NumberText) : RecordCall → Prop
  | .setSystemPrompt _ options | .setStatus _ options => options.Valid nt
  | .setModel model options => model.Valid nt ∧ options.Valid nt
  | .setTools tools options => (∀ tool ∈ tools, tool.Valid nt) ∧ options.Valid nt
  | .setContext value options | .setPolicy value options | .setRuntime value options =>
    (Json.obj value).Valid nt ∧ options.Valid nt
  | .recordSummary summary options =>
    summary.Valid nt ∧ options.toTapeSystemOptions.Valid nt ∧ ∀ range, options.range = some range →
      (Json.obj range).Valid nt

theorem metadataOf_valid {options : TapeSystemOptions} (h : options.Valid nt) {v : Json} (hv : metadataOf options = some v) :
    v.Valid nt := by
  cases hv
  cases hmeta : options.metadata with
  | none => exact .obj List.nodup_nil rfl (by simp)
  | some «meta» => exact h «meta» hmeta

theorem scopeOf_valid {options : TapeSystemOptions} {v : Json} (hv : scopeOf options = some v) : v.Valid nt := by
  obtain ⟨s, -, rfl⟩ := Option.map_eq_some_iff.mp hv
  exact .str s

/-- Data made of the scope, one value and the metadata. -/
theorem scoped_valid {options : TapeSystemOptions} (h : options.Valid nt) {key : String} {v : Json} (hv : v.Valid nt)
    (hkey : key ∉ ["scope", "metadata"]) :
    (Json.obj (compactRecord [("scope", scopeOf options), (key, some v), ("metadata", metadataOf options)])).Valid nt := by
  simp only [List.mem_cons, List.not_mem_nil, or_false, not_or] at hkey
  refine compactRecord_valid (by simp [hkey.2, Ne.symm hkey.1]) ?_
  simp only [List.forall_mem_cons, List.not_mem_nil, false_imp_iff, implies_true, and_true]
  refine ⟨fun w hw => scopeOf_valid hw, fun w hw => ?_, fun w hw => metadataOf_valid h hw⟩
  cases hw
  exact hv

theorem serializeModel_valid {model : Json} (h : model.Valid nt) : (serializeModel model).Valid nt := by
  refine compactRecord_valid (by simp) ?_
  simp only [List.forall_mem_cons, List.not_mem_nil, false_imp_iff, implies_true, and_true]
  exact ⟨fun _ => field_valid h, fun _ => field_valid h, fun _ => field_valid h, fun _ => field_valid h,
    fun _ => field_valid h, fun _ => field_valid h, fun _ => field_valid h, fun _ => field_valid h⟩

theorem serializeTool_valid {tool : Json} (h : tool.Valid nt) : (serializeTool rt nt tool).Valid nt := by
  refine compactRecord_valid (by simp) ?_
  simp only [List.forall_mem_cons, List.not_mem_nil, false_imp_iff, implies_true, and_true]
  refine ⟨fun _ => field_valid h, fun _ => field_valid h, fun _ => field_valid h, fun v hv => ?_⟩
  obtain ⟨parameters, hparameters, rfl⟩ := Option.map_eq_some_iff.mp hv
  rw [toPlain_eq (field_valid h hparameters)]
  exact field_valid h hparameters

theorem summaryData_valid {summary : Summary} {options : TapeSummaryOptions} (hsummary : summary.Valid nt)
    (hoptions : options.toTapeSystemOptions.Valid nt)
    (hrange : ∀ range, options.range = some range → (Json.obj range).Valid nt) :
    (Json.obj (summaryData rt nt summary options)).Valid nt := by
  refine compactRecord_valid (by simp) ?_
  simp only [List.forall_mem_cons, List.not_mem_nil, false_imp_iff, implies_true, and_true]
  refine ⟨fun _ hv => scopeOf_valid hv, fun v hv => ?_, fun v hv => ?_, fun _ hv => metadataOf_valid hoptions hv⟩
  · obtain ⟨range, hsome, rfl⟩ := Option.map_eq_some_iff.mp hv
    exact hrange range hsome
  · cases hv
    cases summary with
    | text s => exact .str s
    | object fields =>
      rw [summaryValue, toPlain_eq hsummary]
      exact hsummary

theorem data_valid {call : RecordCall} (h : call.Valid nt) : (Json.obj (call.data rt nt)).Valid nt := by
  cases call with
  | setSystemPrompt systemPrompt options => exact scoped_valid h (.str _) (by decide)
  | setModel model options => exact scoped_valid h.2 (serializeModel_valid h.1) (by decide)
  | setTools tools options =>
    refine scoped_valid h.2 (.arr ?_) (by decide)
    exact List.forall_mem_map.mpr fun tool htool => serializeTool_valid (h.1 tool htool)
  | setContext value options | setPolicy value options | setRuntime value options =>
    exact scoped_valid h.2 ((toPlain_eq h.1).symm ▸ h.1) (by decide)
  | setStatus status options => exact scoped_valid h (.str _) (by decide)
  | recordSummary summary options => exact summaryData_valid h.1 h.2.1 h.2.2

/-! The latest record of a tape -/

theorem isEvent_iff {name : String} {entry : TapeEntry} :
    isEvent name entry = true ↔ entry.kind = .event ∧ Record.get entry.payload "name" = some (.str name) := by
  unfold isEvent
  cases Record.get entry.payload "name" with
  | none => simp
  | some v => cases v <;> simp

def IsLatest (name : String) (tape : List TapeEntry) (entry : TapeEntry) : Prop :=
  ∃ older newer, tape = older ++ entry :: newer ∧
    entry.kind = .event ∧ Record.get entry.payload "name" = some (.str name) ∧
    ∀ e ∈ newer, ¬(e.kind = .event ∧ Record.get e.payload "name" = some (.str name))

/-- The latest event of the name has this data, up to the order of keys. -/
def CarriesLatest (tape : List TapeEntry) (name : String) (data : Json) : Prop :=
  ∃ entry d, IsLatest name tape entry ∧ Record.get entry.payload "data" = some d ∧ Json.Equiv d data

/-- What a read of the tape gives for one of its entries: objects may list their keys differently. -/
structure SameEntry (nt : NumberText) (entry seen : TapeEntry) : Prop where
  kind : seen.kind = entry.kind
  payload : Json.Equiv (.obj entry.payload) (.obj seen.payload)
  valid : (Json.obj seen.payload).Valid nt

def ReadsAs (nt : NumberText) (tape seen : List TapeEntry) : Prop := List.Forall₂ (SameEntry nt) tape seen

theorem isLatest_iff {name : String} {tape : List TapeEntry} {entry : TapeEntry} :
    IsLatest name tape entry ↔ tape.reverse.find? (isEvent name) = some entry := by
  rw [Lists.reverse_find?_eq_some_iff]
  refine exists_congr fun older => exists_congr fun newer => and_congr_right fun _ => ?_
  rw [isEvent_iff, and_assoc]
  refine and_congr_right fun _ => and_congr_right fun _ => forall₂_congr fun e _ => ?_
  rw [← isEvent_iff, Bool.not_eq_true]

theorem rel_str_iff {a b : Option Json} (h : Option.Rel Json.Equiv a b) (s : String) :
    a = some (.str s) ↔ b = some (.str s) := by
  cases h with
  | none => rfl
  | some h => cases h <;> simp

theorem SameEntry.isEvent {entry seen : TapeEntry} (h : SameEntry nt entry seen) (name : String) :
    isEvent name entry = isEvent name seen := by
  rw [Bool.eq_iff_iff, isEvent_iff, isEvent_iff, h.kind, rel_str_iff (h.payload.rel_get "name") name]

theorem nullish_getD (value : Option Json) : (nullish value).getD .null = value.getD .null := by
  cases value with
  | none => rfl
  | some v => cases v <;> rfl

theorem latestEventData_eq (entries : List TapeEntry) (name : String) :
    latestEventData entries name =
      ((entries.reverse.find? (isEvent name)).bind fun entry => Record.get entry.payload "data").getD .null := by
  rw [latestEventData]
  cases entries.reverse.find? (isEvent name) with
  | none => rfl
  | some entry => exact nullish_getD (Record.get entry.payload "data")

/-- The data that the latest event of the name has on the tape, and as it is read. -/
theorem latestEventData_read {tape seen : List TapeEntry} (hread : ReadsAs nt tape seen) (name : String) :
    (latestEventData seen name).Valid nt ∧
      ∀ data, CarriesLatest tape name (.obj data) ↔ Json.Equiv (latestEventData seen name) (.obj data) := by
  have hfind : Option.Rel (SameEntry nt) (tape.reverse.find? (isEvent name)) (seen.reverse.find? (isEvent name)) :=
    Lists.find?_rel (fun _ _ h => h.isEvent name) (List.forall₂_reverse_iff.mpr hread)
  rw [latestEventData_eq]
  simp only [CarriesLatest, isLatest_iff]
  cases htape : tape.reverse.find? (isEvent name) <;> cases hseen : seen.reverse.find? (isEvent name) <;>
    rw [htape, hseen] at hfind
  case none.none =>
    refine ⟨.null, fun data => iff_of_false ?_ nofun⟩
    rintro ⟨_, _, ⟨⟩, _⟩
  case none.some => cases hfind
  case some.none => cases hfind
  case some.some entry entry' =>
    obtain ⟨hsame⟩ := hfind
    have hget := hsame.payload.rel_get "data"
    rw [Option.bind_some]
    cases hd : Record.get entry.payload "data" <;> cases hd' : Record.get entry'.payload "data" <;> rw [hd, hd'] at hget
    case none.none =>
      refine ⟨.null, fun data => iff_of_false ?_ nofun⟩
      rintro ⟨_, _, ⟨⟩, hsome, _⟩
      rw [hd] at hsome
      cases hsome
    case none.some => cases hget
    case some.none => cases hget
    case some.some d d' =>
      obtain ⟨hequiv⟩ := hget
      refine ⟨field_valid (v := .obj entry'.payload) hsame.valid hd', fun data => ?_⟩
      constructor
      · rintro ⟨_, _, ⟨⟩, hsome, hdata⟩
        rw [hd] at hsome
        cases hsome
        exact hequiv.symm.trans hdata
      · exact fun hdata => ⟨entry, d, rfl, hd, hequiv.trans hdata⟩

theorem entryStatus_current_iff {entries : List TapeEntry} {name : String} {data : Record}
    (hlatest : (latestEventData entries name).Valid nt) (hdata : (Json.obj data).Valid nt) :
    entryStatus nt locale entries name data = .current ↔ Json.Equiv (latestEventData entries name) (.obj data) := by
  unfold entryStatus
  generalize latestEventData entries name = latest at hlatest ⊢
  have htext := stableStringify_eq_iff locale hlatest hdata
  constructor
  · intro h
    dsimp only at h
    split_ifs at h with _ heq
    exact htext.mp heq
  · intro hequiv
    have htruthy : latest.truthy = true := by
      cases hequiv
      rfl
    simp [htruthy, htext.mpr hequiv]

/-! One call after another -/

theorem status_eq (call : RecordCall) (entries : List TapeEntry) :
    call.status rt nt locale entries = entryStatus nt locale entries call.event (call.data rt nt) := by
  cases call <;> rfl

theorem run_eq (call : RecordCall) (date : String) (entries : List TapeEntry) :
    call.run rt nt locale date entries =
      setRecord (call.status rt nt locale entries) call.event (call.data rt nt) call.options date := by
  cases call <;> rfl

inductive Calls (rt : JsRuntime) (nt : NumberText) (locale : LocaleCompare) (call : RecordCall) :
    List TapeEntry → List TapeEntry → Prop where
  | skipped {tape : List TapeEntry} (seen : List TapeEntry) (date : String) (hread : ReadsAs nt tape seen)
    (hrun : call.run rt nt locale date seen = none) : Calls rt nt locale call tape tape
  | appended {tape : List TapeEntry} (seen : List TapeEntry) (date : String) {draft : TapeEntryDraft} (id : ℕ)
    (hread : ReadsAs nt tape seen) (hrun : call.run rt nt locale date seen = some draft) :
      Calls rt nt locale call tape (tape ++ [draft.withId id])

theorem status_current_iff {call : RecordCall} (hcall : call.Valid nt) {tape seen : List TapeEntry}
    (hread : ReadsAs nt tape seen) :
    call.status rt nt locale seen = .current ↔ CarriesLatest tape call.event (.obj (call.data rt nt)) := by
  obtain ⟨hlatest, hcarries⟩ := latestEventData_read hread call.event
  rw [status_eq, entryStatus_current_iff hlatest (data_valid hcall), hcarries]

/-- After a call the latest event of its name has its data. -/
theorem carriesLatest_of_calls {call : RecordCall} (hcall : call.Valid nt) {tape tape' : List TapeEntry}
    (h : Calls rt nt locale call tape tape') : CarriesLatest tape' call.event (.obj (call.data rt nt)) := by
  cases h with
  | skipped seen date hread hrun =>
    rw [run_eq, setRecord] at hrun
    split_ifs at hrun with hcurrent
    exact (status_current_iff hcall hread).mp hcurrent.2
  | appended seen date id hread hrun =>
    rw [run_eq, setRecord] at hrun
    split_ifs at hrun
    cases hrun
    exact ⟨_, _, ⟨tape, [], rfl, rfl, rfl, by simp⟩, rfl, .refl _⟩

/-- A call with `ifChanged` appends nothing where the latest event has its data. -/
theorem calls_of_carriesLatest {call : RecordCall} (hcall : call.Valid nt) {tape tape' : List TapeEntry}
    (h : Calls rt nt locale call tape tape') (hif : call.options.ifChanged = true)
    (hcarries : CarriesLatest tape call.event (.obj (call.data rt nt))) : tape' = tape := by
  cases h with
  | skipped => rfl
  | appended seen date id hread hrun =>
    rw [run_eq, setRecord, if_pos ⟨hif, (status_current_iff hcall hread).mpr hcarries⟩] at hrun
    cases hrun

/-- The status is current exactly when the latest record has the same data, and a call made twice
with `ifChanged` appends one entry at most. -/
theorem recorded_once {call : RecordCall} (hcall : call.Valid nt) :
    (∀ tape seen, ReadsAs nt tape seen →
      (call.status rt nt locale seen = .current ↔ CarriesLatest tape call.event (.obj (call.data rt nt)))) ∧
    (call.options.ifChanged = true → ∀ tape tape₁ tape₂, Calls rt nt locale call tape tape₁ →
      Calls rt nt locale call tape₁ tape₂ → tape₂ = tape ∨ ∃ entry, tape₂ = tape ++ [entry]) := by
  refine ⟨fun tape seen => status_current_iff hcall, fun hif tape tape₁ tape₂ hfirst hsecond => ?_⟩
  rw [calls_of_carriesLatest hcall hsecond hif (carriesLatest_of_calls hcall hfirst)]
  cases hfirst with
  | skipped => exact Or.inl rfl
  | appended => exact Or.inr ⟨_, rfl⟩

def byCodePoint : LocaleCompare where
  compare a b := if a ≤ b then 0 else 1
  total a b := by
    rcases String.le_total a b with h | h
    · simp [h]
    · simp [h]
  trans a b c hab hbc := by
    split_ifs at hab hbc with h h'
    · simp [String.le_trans h h']
    all_goals omega
  antisymm a b hab hba := by
    split_ifs at hab hba with h h'
    · exact String.le_antisymm h h'
    all_goals omega

def idleMetadata : Record := [("turn", .num 1), ("by", .str "x")]

def setIdle : RecordCall := .setStatus "idle" ⟨none, some idleMetadata, true⟩

def idleEntry : TapeEntry :=
  (systemEvent TapeEvent.System.status (statusData "idle" setIdle.options) setIdle.options "").withId 1

/-- The entry as a store gives it back that sorts keys at every depth. -/
def idleSeen : TapeEntry :=
  { idleEntry with
    payload := fromEntries
      ((idleEntry.payload.map (Prod.map id (sortObject byCodePoint))).insertionSort (byKey byCodePoint)) }

theorem setIdle_valid : setIdle.Valid JsonText.digits := by
  intro «meta» hmeta
  cases hmeta
  refine .obj (by decide) (ownOrder_eq_self (by decide)) ?_
  simp only [idleMetadata, List.forall_mem_cons, List.not_mem_nil, false_imp_iff, implies_true, and_true]
  exact ⟨.num ⟨1, by decide, rfl⟩, .str _⟩

theorem idleSeen_same : SameEntry JsonText.digits idleEntry idleSeen := by
  have hpayload : (Json.obj idleEntry.payload).Valid JsonText.digits := by
    refine .obj (by decide) (ownOrder_eq_self ?_) ?_
    · change ∀ f ∈ [("name", _), ("data", _)], arrayIndex f.1 = none
      simpa using ⟨by decide, by decide⟩
    · change ∀ f ∈ [("name", Json.str _), ("data", Json.obj _)], f.2.Valid JsonText.digits
      simpa using ⟨.str _, @data_valid plainStrings JsonText.digits setIdle setIdle_valid⟩
  have hsorted := sortObject_obj byCodePoint idleEntry.payload
  refine ⟨rfl, ?_, ?_⟩
  · exact hsorted ▸ equiv_sortObject byCodePoint hpayload
  · exact hsorted ▸ sortObject_valid byCodePoint hpayload

/-- The second call finds the status current though the store turned the keys around. -/
theorem idle_recorded_once :
    setIdle.status plainStrings JsonText.digits byCodePoint [idleSeen] = .current ∧
      ([idleEntry] = [] ∨ ∃ entry, [idleEntry] = [] ++ [entry]) := by
  obtain ⟨hstatus, honce⟩ := @recorded_once plainStrings JsonText.digits byCodePoint setIdle setIdle_valid
  have hread : ReadsAs JsonText.digits [idleEntry] [idleSeen] := .cons idleSeen_same .nil
  have hcurrent := (hstatus _ _ hread).mpr ⟨idleEntry, _, ⟨[], [], rfl, rfl, rfl, by simp⟩, rfl, .refl _⟩
  have hfirst : Calls plainStrings JsonText.digits byCodePoint setIdle [] [idleEntry] :=
    .appended [] "" 1 .nil rfl
  have hsecond : Calls plainStrings JsonText.digits byCodePoint setIdle [idleEntry] [idleEntry] := by
    refine .skipped [idleSeen] "" hread ?_
    rw [run_eq, setRecord, if_pos ⟨rfl, hcurrent⟩]
  exact ⟨hcurrent, honce rfl [] _ _ hfirst hsecond⟩

end Nexal.Tape
