import Nexal.Proofs.Heartbeat
import Nexal.Proofs.Routing

/-! What becomes of a request. The handler's result or error is sent back under the request's id; a request
for which there is no handler is dropped in both languages, at both levels. -/

namespace Nexal.Wire

open Ts (Msgpack Object prop hasProp truthy)

/-- Exactly one response has been produced, with the id and the stream of the request. -/
def Answered (id : MessageId) (stream : Option String) (sent : List WireResponse) : Prop :=
  ∃ resp, sent = [resp] ∧ resp.id = id ∧ resp.stream = stream

/-- Rust: a handler is registered and does not panic, and what it returns can be encoded. -/
def RustAnswers (encodes : WireResponse → Bool) (handlers : String → Option Handler) (req : WireRequest) : Prop :=
  ∃ handler, handlers req.method = some handler ∧
    ((∃ value, handler (req.params.getD .nil) = .result (.ok value) ∧
      encodes ⟨req.stream, req.id, some value, none⟩ = true) ∨
      ∃ err, handler (req.params.getD .nil) = .result (.error err) ∧
        encodes ⟨req.stream, req.id, none, some err⟩ = true)

theorem answered_sendResponse {encodes : WireResponse → Bool} {resp : WireResponse} :
    Answered resp.id resp.stream (sendResponse encodes resp) ↔ encodes resp = true := by
  rw [sendResponse]
  split_ifs with h
  · exact iff_of_true ⟨resp, rfl, rfl, rfl⟩ h
  · refine iff_of_false ?_ h
    rintro ⟨resp', hsent, -⟩
    cases hsent

theorem not_answered_nil {id : MessageId} {stream : Option String} : ¬ Answered id stream [] := by
  rintro ⟨resp, hsent, -⟩
  cases hsent

theorem rust_answered_iff (encodes : WireResponse → Bool) (handlers : String → Option Handler) (req : WireRequest) :
    Answered req.id req.stream (dispatchRequest encodes handlers req) ↔ RustAnswers encodes handlers req := by
  rw [dispatchRequest, RustAnswers]
  cases handlers req.method with
  | none =>
    refine iff_of_false not_answered_nil ?_
    rintro ⟨handler, hnone, -⟩
    cases hnone
  | some handler =>
    have hsame : ∀ {P : Handler → Prop}, (∃ h, some handler = some h ∧ P h) ↔ P handler := by simp
    rw [hsame]
    dsimp only
    cases handler (req.params.getD .nil) with
    | result result =>
      cases result with
      | ok value => simpa using @answered_sendResponse encodes ⟨req.stream, req.id, some value, none⟩
      | error err => simpa using @answered_sendResponse encodes ⟨req.stream, req.id, none, some err⟩
    | panic =>
      refine iff_of_false not_answered_nil ?_
      simp

def streamOf (msg : Object) : Option String := (prop msg "stream").bind Value.asStr

def sendable : Ts.Settled → Bool
  | .resolved result => result.isSome
  | .threw message | .rejected message => message.isSome

/-- TypeScript: a handler is registered for the method and its outcome can be sent, the library writes the id
as it has read it, and the stream is not the empty text. -/
def TsAnswers (lib : Msgpack) (handlers : String → Option Ts.Handler) (msg : Object) : Prop :=
  (∃ method handler, prop msg "method" = some (.string method) ∧ handlers method = some handler ∧
      sendable (handler (prop msg "params")) = true) ∧
    (∀ id, prop msg "id" = some id → lib.rewrite id = id) ∧ streamOf msg ≠ some ""

theorem respond_cases (lib : Msgpack) (level : Option String) (id : MessageId) (settled : Ts.Settled) :
    (sendable settled = true ∧ ∃ result error, Ts.respond lib level id settled =
      [⟨level, lib.rewrite id, result, error⟩]) ∨
      (sendable settled = false ∧ Ts.respond lib level id settled = []) := by
  cases settled with
  | resolved result => cases result <;> simp [sendable, Ts.respond]
  | threw message => cases message <;> simp [sendable, Ts.respond]
  | rejected message => cases message <;> simp [sendable, Ts.respond]

/-- The level of a request is its stream, but for the empty one. -/
theorem level_of_handleMessage {lib : Msgpack} {streams : List String} {v : Value} {level : Option String} {msg : Object}
    (h : Ts.handleMessage lib streams v = some (level, msg)) : level = streamOf msg ↔ streamOf msg ≠ some "" := by
  unfold Ts.handleMessage at h
  split at h
  · rename_i entries _
    cases hprop : prop entries "stream" with
    | none =>
      rw [hprop] at h
      cases h
      simp [streamOf, hprop]
    | some streamId =>
      rw [hprop] at h
      dsimp only at h
      split_ifs at h with htruthy
      · -- an open stream's name, which is not empty
        split at h
        · rename_i s
          split_ifs at h
          cases h
          have hne : s ≠ "" := by simpa [truthy] using htruthy
          simp [streamOf, hprop, Value.asStr, hne]
        · cases h
      · cases h
        cases streamId with
        | string s =>
          have hempty : s = "" := by simpa [truthy] using htruthy
          simp [streamOf, hprop, Value.asStr, hempty]
        | _ => simp [streamOf, hprop, Value.asStr]
  · cases h

/-- A request that is dispatched has an id. -/
theorem id_of_request {msg : Object} (h : Ts.kindOf msg = some .request) : ∃ id, prop msg "id" = some id := by
  have hid : hasProp msg "id" = true := by
    by_contra hno
    simp [Ts.kindOf, Ts.isWireResponse, Ts.isWireNotification, Ts.isWireRequest, hno] at h
  exact Option.isSome_iff_exists.mp hid

theorem ts_answered_iff {lib : Msgpack} {streams : List String} {handlers : String → Option Ts.Handler} {v : Value}
    {level : Option String} {msg : Object} {id : MessageId} (hlevel : Ts.handleMessage lib streams v = some (level, msg))
    (hid : prop msg "id" = some id) :
    Answered id (streamOf msg) (Ts.dispatchRequest lib handlers level msg) ↔ TsAnswers lib handlers msg := by
  have hstream := level_of_handleMessage hlevel
  unfold Ts.dispatchRequest TsAnswers
  rw [hid]
  cases hmethod : prop msg "method" with
  | none =>
    refine iff_of_false not_answered_nil ?_
    rintro ⟨⟨method, handler, hnone, -⟩, -⟩
    cases hnone
  | some method =>
    cases method with
    | string method =>
      dsimp only
      cases hhandler : handlers method with
      | none =>
        refine iff_of_false not_answered_nil ?_
        rintro ⟨⟨method', handler, hsome, hregistered, -⟩, -⟩
        obtain rfl : method = method' := by simpa using hsome
        rw [hhandler] at hregistered
        cases hregistered
      | some handler =>
        dsimp only
        rcases respond_cases lib level id (handler (prop msg "params"))
          with ⟨hsend, result, error, hsent⟩ | ⟨hsend, hsent⟩
        · -- one response, under the id as it is written again and the level's name
          rw [hsent]
          constructor
          · rintro ⟨resp, hresp, hsame, htag⟩
            obtain rfl := List.singleton_inj.mp hresp
            refine ⟨⟨method, handler, rfl, hhandler, hsend⟩, ?_, hstream.mp htag⟩
            rintro id' heq
            obtain rfl := Option.some.inj heq
            exact hsame
          · rintro ⟨-, hrewrite, hne⟩
            exact ⟨_, rfl, hrewrite id rfl, hstream.mpr hne⟩
        · rw [hsent]
          refine iff_of_false not_answered_nil ?_
          rintro ⟨⟨method', handler', hsome, hregistered, hsend'⟩, -⟩
          obtain rfl : method = method' := by simpa using hsome
          rw [hhandler] at hregistered
          obtain rfl := Option.some.inj hregistered
          rw [hsend] at hsend'
          cases hsend'
    | _ =>
      refine iff_of_false not_answered_nil ?_
      rintro ⟨⟨method', handler, hsome, -⟩, -⟩
      simp at hsome

/-- For every request that is delivered to a level of a connection, there is exactly one response with the
request's id and stream exactly if a handler is registered for it there and its outcome can be sent; in
TypeScript the library must also write the id as it came, and the stream must not be the empty text. -/
theorem request_answered_iff (encodes : WireResponse → Bool) (handlers : String → Option Handler) (req : WireRequest)
    (lib : Msgpack) (streams : List String) (tsHandlers : String → Option Ts.Handler) (v : Value) (level : Option String)
    (msg : Object) :
    (Answered req.id req.stream (dispatchRequest encodes handlers req) ↔ RustAnswers encodes handlers req) ∧
      (Ts.handleMessage lib streams v = some (level, msg) → Ts.kindOf msg = some .request →
        ∃ id, prop msg "id" = some id ∧
          (Answered id (streamOf msg) (Ts.dispatchRequest lib tsHandlers level msg) ↔ TsAnswers lib tsHandlers msg)) := by
  refine ⟨rust_answered_iff encodes handlers req, fun hlevel hkind => ?_⟩
  obtain ⟨id, hid⟩ := id_of_request hkind
  exact ⟨id, hid, ts_answered_iff hlevel hid⟩

def echo : Ts.Handler := fun params => .resolved (some (params.getD .nil))

theorem request_answered_iff_streamRequest :
    Ts.handleMessage everyFrame ["agent-1"] (.map streamRequest) = some (some "agent-1", streamRequest) ∧
      ∃ id, prop streamRequest "id" = some id ∧
        (Answered id (streamOf streamRequest) (Ts.dispatchRequest everyFrame (fun _ => some echo)
          (some "agent-1") streamRequest) ↔
          TsAnswers everyFrame (fun _ => some echo) streamRequest) :=
  ⟨rfl, (request_answered_iff (fun _ => true) (fun _ => none) ⟨none, .string "7", "agent/reboot",
    none⟩ everyFrame ["agent-1"]
    (fun _ => some echo) (.map streamRequest) (some "agent-1") streamRequest).2 rfl rfl⟩

/-- A request for a method without a handler is not answered by either. -/
theorem unregistered_unanswered :
    (¬ ∀ (encodes : WireResponse → Bool) (handlers : String → Option Handler) (req : WireRequest),
        Answered req.id req.stream (dispatchRequest encodes handlers req)) ∧
      ¬ ∀ (lib : Msgpack) (streams : List String) (handlers : String →
        Option Ts.Handler) (v : Value) (level : Option String)
        (msg : Object), Ts.handleMessage lib streams v = some (level, msg) → Ts.kindOf msg = some .request →
        ∃ id, prop msg "id" = some id ∧ Answered id (streamOf msg) (Ts.dispatchRequest lib handlers level msg) := by
  refine ⟨fun hall => ?_, fun hall => ?_⟩
  · exact not_answered_nil (hall (fun _ => true) (fun _ => none) ⟨none, .string "7", "agent/reboot", none⟩)
  · obtain ⟨id, -, hanswered⟩ :=
      hall everyFrame ["agent-1"] (fun _ => none) (.map streamRequest) (some "agent-1") streamRequest rfl rfl
    exact not_answered_nil hanswered

end Nexal.Wire
