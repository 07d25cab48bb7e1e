import Nexal.Lib.Lists
import Nexal.Proofs.WireShape
import Nexal.Spec.TsConnection

/-! Where the two connections deliver a frame, and as what. They look at the same keys, but in another
order, and make different things of a stream that is not a non-empty text. -/

namespace Nexal.Wire

open Ts (Kind Msgpack Object prop hasProp truthy)

def WireMessage.kind : WireMessage → Kind
  | .request _ => .request
  | .response _ => .response
  | .notification _ => .notification

/-- The level at which the Rust connection dispatches a frame and the kind of message it takes it for. -/
def rustRoute {ε : Type} (decodeFrame : ByteArray → Except ε Value) (streams : List String) (bytes : ByteArray) :
    Outcome (Option (Option String × Kind)) :=
  (handleFrame decodeFrame streams bytes).map (Option.map fun p => (p.1, p.2.kind))

/-- The same of the TypeScript connection, none for what it ignores. -/
def tsRoute (lib : Msgpack) (streams : List String) (value : Value) : Option (Option String × Kind) :=
  (Ts.handleMessage lib streams value).bind fun p => (Ts.kindOf p.2).map fun kind => (p.1, kind)

def OneKind (v : Value) : Prop :=
  (HasKey v "id" ∧ HasKey v "method" ∧ ¬ HasKey v "result" ∧ ¬ HasKey v "error") ∨
    (HasKey v "id" ∧ ¬ HasKey v "method" ∧ (HasKey v "result" ∨ HasKey v "error")) ∨
      (¬ HasKey v "id" ∧ HasKey v "method")

def SomeKind (v : Value) : Prop := HasKey v "method" ∨ (HasKey v "id" ∧ (HasKey v "result" ∨ HasKey v "error"))

/-- The frame has the shape its keys announce, and either its stream is a text that names no open stream,
or TypeScript can read it, its keys are those of one kind and its stream is absent, nil or a text that is
not empty. The empty text is a stream to Rust alone. -/
def RoutedAlike (lib : Msgpack) (streams : List String) (v : Value) : Prop :=
  WellShaped v ∧
    ((∃ s, streamTag v = some s ∧ s ∉ streams ∧ (s ≠ "" ∨ lib.decodes v = false ∨ ¬ SomeKind v)) ∨
      (lib.decodes v = true ∧ OneKind v ∧
        ((∃ s, streamTag v = some s ∧ s ∈ streams ∧ s ≠ "") ∨
          streamTag v = none ∧ ∀ entries x, v = .map entries → (.string "stream", x) ∈ entries → x = .nil)))

/-! The keys of a frame -/

variable {entries : List (Value × Value)} {name : String} {x y : Value}

theorem prop_mem (h : prop entries name = some x) : (.string name, x) ∈ entries := by
  obtain ⟨⟨k, v⟩, hfind, rfl⟩ := Option.map_eq_some_iff.mp h
  have hk := List.find?_some hfind
  obtain rfl : k = .string name := asStr_eq_some.mp (of_decide_eq_true hk)
  exact List.mem_reverse.mp (List.mem_of_find?_eq_some hfind)

theorem hasProp_iff : hasProp entries name = true ↔ HasKey (.map entries) name := by
  have hkey : HasKey (.map entries) name ↔ ∃ x, (.string name, x) ∈ entries := by simp [HasKey]
  rw [hkey, hasProp, prop, Option.isSome_map, List.find?_isSome]
  constructor
  · rintro ⟨⟨k, x⟩, hmem, hk⟩
    obtain rfl : k = .string name := asStr_eq_some.mp (of_decide_eq_true hk)
    exact ⟨x, List.mem_reverse.mp hmem⟩
  · rintro ⟨x, hmem⟩
    exact ⟨(.string name, x), List.mem_reverse.mpr hmem, decide_eq_true rfl⟩

theorem slot_of_mem {names : List String} {slots : Slots Value} {i : ℕ}
    (hident : identifier names (.string name) = .field i)
    (h : HasFields names (.map entries) slots) (hx : (.string name, x) ∈ entries) : slots i = some x := by
  cases h with
  | map hread =>
    refine Lists.lookup_eq_some_of_mem hread.once (List.mem_filterMap.mpr ⟨_, hx, ?_⟩)
    simp only [hident]

/-- A well-shaped frame has its stream once, and it is nil or a text. -/
theorem stream_of_wellShaped (h : WellShaped (.map entries)) (hx : (.string "stream", x) ∈ entries) :
    OptText x ∧ ∀ y, (.string "stream", y) ∈ entries → y = x := by
  have hslots : ∃ names slots, identifier names (.string "stream") = .field 0 ∧ HasFields names (.map entries) slots ∧
      ∀ stream, slots 0 = some stream → OptText stream := by
    obtain ⟨hreq, hresp, hnotif⟩ := h
    by_cases hid : HasKey (.map entries) "id"
    · by_cases hmethod : HasKey (.map entries) "method"
      · obtain ⟨slots, hfields, hstream, -⟩ := hreq ⟨hid, hmethod⟩
        exact ⟨_, slots, by decide, hfields, hstream⟩
      · by_cases hother : HasKey (.map entries) "result" ∨ HasKey (.map entries) "error"
        · obtain ⟨slots, hfields, hstream, -⟩ := hresp ⟨hid, hmethod, hother⟩
          exact ⟨_, slots, by decide, hfields, hstream⟩
        · obtain ⟨slots, hfields, hstream, -⟩ := hnotif fun hall => hall.2.elim hmethod hother
          exact ⟨_, slots, by decide, hfields, hstream⟩
    · obtain ⟨slots, hfields, hstream, -⟩ := hnotif fun hall => hid hall.1
      exact ⟨_, slots, by decide, hfields, hstream⟩
  obtain ⟨names, slots, hident, hfields, hstream⟩ := hslots
  have hslot := slot_of_mem hident hfields hx
  refine ⟨hstream x hslot, fun y hy => ?_⟩
  exact Option.some.inj ((slot_of_mem hident hfields hy).symm.trans hslot)

theorem streamTag_mem {s : String} (h : streamTag (.map entries) = some s) : (.string "stream", .string s) ∈ entries := by
  obtain ⟨⟨k, v⟩, hmem, hsome⟩ := List.exists_of_findSome?_eq_some h
  dsimp only at hsome
  split_ifs at hsome with hk
  obtain rfl : k = .string "stream" := asStr_eq_some.mp hk
  obtain rfl : v = .string s := asStr_eq_some.mp hsome
  exact hmem

theorem streamTag_isSome {s : String} (h : (.string "stream", .string s) ∈ entries) :
    (streamTag (.map entries)).isSome = true := by
  rw [streamTag, Value.asMap, Option.bind_some, List.findSome?_isSome_iff]
  exact ⟨_, h, rfl⟩

/-! The kinds -/

def rustKind (v : Value) : Kind :=
  if (mapGet v "id").isSome && (mapGet v "method").isSome then .request
  else if (mapGet v "id").isSome && ((mapGet v "result").isSome || (mapGet v "error").isSome) then .response
  else .notification

theorem kind_map_expect {α : Type} {message : String} {o : Option α} {wrap : α → WireMessage} {msg : WireMessage}
    {kind : Kind}
    (hwrap : ∀ a, (wrap a).kind = kind) (h : (expect message o).map wrap = .returns msg) : msg.kind = kind := by
  cases o with
  | none => cases h
  | some a =>
    cases h
    exact hwrap a

theorem valueToWireMessage_kind {v : Value} (h : WellShaped v) :
    ∃ msg, valueToWireMessage v = .returns msg ∧ msg.kind = rustKind v := by
  have hnot := (valueToWireMessage_panicked v).mpr h
  cases hmsg : valueToWireMessage v with
  | panics message =>
    rw [hmsg] at hnot
    cases hnot
  | returns msg =>
    refine ⟨msg, rfl, ?_⟩
    unfold valueToWireMessage at hmsg
    dsimp only at hmsg
    rw [rustKind]
    split_ifs at hmsg ⊢
    · exact kind_map_expect (fun _ => rfl) hmsg
    · exact kind_map_expect (fun _ => rfl) hmsg
    · exact kind_map_expect (fun _ => rfl) hmsg

theorem hasProp_eq (entries : List (Value × Value)) (name : String) :
    hasProp entries name = (mapGet (.map entries) name).isSome :=
  Bool.eq_iff_iff.mpr (hasProp_iff.trans (mapGet_isSome _ name).symm)

theorem kindOf_eq_rustKind : Ts.kindOf entries = some (rustKind (.map entries)) ↔ OneKind (.map entries) := by
  rw [OneKind, Ts.kindOf, Ts.isWireResponse, Ts.isWireNotification, Ts.isWireRequest, rustKind]
  simp only [hasProp_eq, ← mapGet_isSome]
  cases (mapGet (.map entries) "id").isSome <;> cases (mapGet (.map entries) "method").isSome <;>
    cases (mapGet (.map entries) "result").isSome <;> cases (mapGet (.map entries) "error").isSome <;> simp

theorem kindOf_eq_none : Ts.kindOf entries = none ↔ ¬ SomeKind (.map entries) := by
  rw [SomeKind, Ts.kindOf, Ts.isWireResponse, Ts.isWireNotification, Ts.isWireRequest]
  simp only [hasProp_eq, ← mapGet_isSome]
  cases (mapGet (.map entries) "id").isSome <;> cases (mapGet (.map entries) "method").isSome <;>
    cases (mapGet (.map entries) "result").isSome <;> cases (mapGet (.map entries) "error").isSome <;> simp

/-! The two routes -/

section Routes
variable {ε : Type} {decodeFrame : ByteArray → Except ε Value} {bytes : ByteArray} {streams : List String}
  {lib : Msgpack}

theorem rustRoute_eq {v : Value} (hframe : decodeFrame bytes = .ok v) (h : WellShaped v) :
    rustRoute decodeFrame streams bytes = .returns (match streamTag v with
      | some s => if s ∈ streams then some (some s, rustKind v) else none
      | none => some (none, rustKind v)) := by
  obtain ⟨msg, hmsg, hkind⟩ := valueToWireMessage_kind h
  rw [rustRoute, handleFrame.eq_def, hframe]
  dsimp only
  rw [hmsg, ← hkind]
  cases streamTag v with
  | none => rfl
  | some s =>
    by_cases hs : s ∈ streams
    · simp [Outcome.map, hs]
    · simp [Outcome.map, hs]

theorem prop_stream (h : WellShaped (.map entries)) (hx : (.string "stream", x) ∈ entries) :
    prop entries "stream" = some x := by
  have hsome : hasProp entries "stream" = true := hasProp_iff.mpr ⟨entries, x, rfl, hx⟩
  obtain ⟨y, hy⟩ := Option.isSome_iff_exists.mp hsome
  rw [hy, (stream_of_wellShaped h hx).2 y (prop_mem hy)]

theorem tsRoute_tagged {s : String} (hdecodes : lib.decodes (.map entries) = true) (h : WellShaped (.map entries))
    (hs : streamTag (.map entries) = some s) :
    tsRoute lib streams (.map entries) =
      if s = "" then (Ts.kindOf entries).map fun kind => (none, kind)
      else if s ∈ streams then (Ts.kindOf entries).map fun kind => (some s, kind) else none := by
  rw [tsRoute, Ts.handleMessage.eq_def, hdecodes]
  dsimp only
  rw [prop_stream h (streamTag_mem hs)]
  by_cases hempty : s = ""
  · simp [truthy, hempty]
  · by_cases hopen : s ∈ streams
    · simp [truthy, hempty, hopen]
    · simp [truthy, hempty, hopen]

theorem tsRoute_untagged (hdecodes : lib.decodes (.map entries) = true) (h : WellShaped (.map entries))
    (hs : streamTag (.map entries) = none) :
    ((∀ x, (.string "stream", x) ∈ entries → x = .nil) →
        tsRoute lib streams (.map entries) = (Ts.kindOf entries).map fun kind => (none, kind)) ∧
      ((∃ x, (.string "stream", x) ∈ entries ∧ x ≠ .nil) → tsRoute lib streams (.map entries) = none) := by
  rw [tsRoute, Ts.handleMessage.eq_def, hdecodes]
  dsimp only
  constructor
  · intro hnil
    cases hprop : prop entries "stream" with
    | none => rfl
    | some x =>
      rw [hnil x (prop_mem hprop)]
      rfl
  · rintro ⟨x, hx, hne⟩
    rw [prop_stream h hx]
    rcases (stream_of_wellShaped h hx).1 with hnil | ⟨s, rfl⟩ | ⟨data, rfl, -⟩
    · exact absurd hnil hne
    · have hsome := streamTag_isSome hx
      rw [hs] at hsome
      cases hsome
    · rfl

theorem tsRoute_undecoded {v : Value} (h : lib.decodes v = false) : tsRoute lib streams v = none := by
  rw [tsRoute, Ts.handleMessage.eq_def, h]
  rfl

theorem map_level_eq {level : Option String} {o : Option Kind} {kind : Kind} :
    some (level, kind) = o.map (fun kind => (level, kind)) ↔ o = some kind := by
  cases o with
  | none => simp
  | some k => simp [eq_comm]

theorem agree_tagged {s : String} (h : WellShaped (.map entries)) (hs : streamTag (.map entries) = some s) :
    (if s ∈ streams then some (some s, rustKind (.map entries)) else none) = tsRoute lib streams (.map entries) ↔
      (s ∉ streams ∧ (s ≠ "" ∨ lib.decodes (.map entries) = false ∨ ¬ SomeKind (.map entries))) ∨
        (lib.decodes (.map entries) = true ∧ OneKind (.map entries) ∧ s ∈ streams ∧ s ≠ "") := by
  cases hdecodes : lib.decodes (.map entries) with
  | false =>
    rw [tsRoute_undecoded hdecodes]
    by_cases hopen : s ∈ streams
    · simp [hopen]
    · simp [hopen]
  | true =>
    rw [tsRoute_tagged hdecodes h hs]
    by_cases hopen : s ∈ streams
    · by_cases hempty : s = ""
      · -- Rust has the stream, TypeScript takes the frame for the connection's own
        subst hempty
        rw [if_pos hopen, if_pos rfl]
        refine iff_of_false ?_ (by simp [hopen])
        cases Ts.kindOf entries with
        | none => simp
        | some kind => simp
      · rw [if_pos hopen, if_neg hempty, if_pos hopen, map_level_eq, kindOf_eq_rustKind]
        simp [hopen, hempty]
    · by_cases hempty : s = ""
      · subst hempty
        rw [if_neg hopen, if_pos rfl, eq_comm, Option.map_eq_none_iff, kindOf_eq_none]
        simp [hopen]
      · rw [if_neg hopen, if_neg hempty, if_neg hopen]
        simp [hopen, hempty]

theorem agree_untagged (h : WellShaped (.map entries)) (hs : streamTag (.map entries) = none) :
    some (none, rustKind (.map entries)) = tsRoute lib streams (.map entries) ↔
      lib.decodes (.map entries) = true ∧ OneKind (.map entries) ∧ ∀ x, (.string "stream", x) ∈ entries →
        x = .nil := by
  cases hdecodes : lib.decodes (.map entries) with
  | false =>
    rw [tsRoute_undecoded hdecodes]
    simp
  | true =>
    obtain ⟨hroot, hnowhere⟩ := @tsRoute_untagged entries streams lib hdecodes h hs
    by_cases hnil : ∀ x, (.string "stream", x) ∈ entries → x = .nil
    · rw [hroot hnil, map_level_eq, kindOf_eq_rustKind]
      exact ⟨fun hkind => ⟨rfl, hkind, hnil⟩, fun hall => hall.2.1⟩
    · refine iff_of_false ?_ fun hall => hnil hall.2.2
      obtain ⟨x, hx⟩ := not_forall.mp hnil
      obtain ⟨hmem, hne⟩ := Classical.not_imp.mp hx
      rw [hnowhere ⟨x, hmem, hne⟩]
      simp

/-- For every frame that is a map: both connections deliver it to the same level as the same kind of
message, or both nowhere, exactly if `RoutedAlike` says so. -/
theorem routes_agree_iff (hframe : decodeFrame bytes = .ok (.map entries)) :
    rustRoute decodeFrame streams bytes = .returns (tsRoute lib streams (.map entries)) ↔
      RoutedAlike lib streams (.map entries) := by
  by_cases h : WellShaped (.map entries)
  · rw [rustRoute_eq hframe h, Outcome.returns.injEq, RoutedAlike]
    cases hs : streamTag (.map entries) with
    | none =>
      have hflat : (∀ entries' x, Value.map entries = .map entries' → (.string "stream", x) ∈ entries' →
        x = .nil) ↔
          ∀ x, (.string "stream", x) ∈ entries → x = .nil :=
        ⟨fun hall x hx => hall entries x rfl hx, fun hall entries' x heq hx => hall x (Value.map.inj heq ▸ hx)⟩
      dsimp only
      rw [agree_untagged h hs, hflat]
      simp [h]
    | some s =>
      dsimp only
      rw [agree_tagged h hs]
      simp [h]
  · -- Rust panics
    refine iff_of_false (fun heq => h ?_) fun halike => h halike.1
    have hreturns : (rustRoute decodeFrame streams bytes).panicked = false := by
      rw [heq]
      rfl
    rw [rustRoute, Outcome.panicked_map, handleFrame.eq_def, hframe] at hreturns
    rw [← valueToWireMessage_panicked, ← hreturns]
    exact (Outcome.panicked_map _ _).symm

end Routes

/-! Frames that differ -/

def field (name : String) (v : Value) : Value × Value := (.string name, v)

def streamRequest : List (Value × Value) :=
  [field "stream" (.string "agent-1"), field "id" (.string "7"), field "method" (.string "process/start")]

theorem routes_agree_iff_streamRequest :
    rustRoute (fun _ => (.ok (.map streamRequest) : Except Unit Value)) ["agent-1"] ⟨#[]⟩ =
        .returns (some (some "agent-1", .request)) ∧
      RoutedAlike ⟨fun _ => true, fun v => v⟩ ["agent-1"] (.map streamRequest) :=
  ⟨rfl, (@routes_agree_iff streamRequest Unit (fun _ => .ok (.map streamRequest)) ⟨#[]⟩ ["agent-1"]
    ⟨fun _ => true, fun v => v⟩ rfl).mp rfl⟩

/-- A response that also has a method: a request to Rust, a response to TypeScript. -/
def responseWithMethod : List (Value × Value) :=
  [field "id" (.string "7"), field "method" (.string "status"), field "result" (.boolean true)]

theorem responseWithMethod_differs : ¬ ∀ (decodeFrame : ByteArray → Except Unit Value) (bytes : ByteArray)
    (streams : List String)
    (lib : Msgpack) (entries : List (Value × Value)), decodeFrame bytes = .ok (.map entries) →
      rustRoute decodeFrame streams bytes = .returns (tsRoute lib streams (.map entries)) := by
  intro hall
  have hsame := hall (fun _ => .ok (.map responseWithMethod)) ⟨#[]⟩ [] ⟨fun _ => true,
    fun v => v⟩ responseWithMethod rfl
  have hkind : some (none, Kind.request) = some (none, Kind.response) := Outcome.returns.inj hsame
  cases hkind

/-- With an empty stream: the stream of that name to Rust, the connection's own to TypeScript. -/
example : tsRoute ⟨fun _ => true, fun v => v⟩ []
    (.map [field "stream" (.string ""), field "method" (.string "status")]) =
    some (none, .notification) := rfl

end Nexal.Wire
