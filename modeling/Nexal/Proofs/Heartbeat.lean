import Nexal.Proofs.WireShape
import Nexal.Spec.TsConnection

/-! Heartbeats and the frames of applications. The Rust transport takes a map with nothing but the method
`ping` or `pong` for a heartbeat, the TypeScript one any frame with that method; both connections let an
application send such frames. -/

namespace Nexal.Wire

open Ts (Msgpack Message heartbeatFrame)

/-- A frame that a connection or a stream of either implementation sends. -/
inductive Sent where
  | rust (msg : WireMessage)
  | ts (msg : Message)

namespace Sent

def toValue : Sent → Value
  | .rust msg => msg.toValue
  | .ts msg => msg.toValue

def method : Sent → Option String
  | .rust (.request req) => some req.method
  | .rust (.notification notif) => some notif.method
  | .ts (.request _ _ method _) | .ts (.notification _ method _) => some method
  | .rust (.response _) | .ts (.response _ _ _ _) => none

/-- A notification of the connection itself without parameters; a TypeScript `notify` writes even those
it is not given. -/
def bare : Sent → Bool
  | .rust (.notification ⟨none, _, none⟩) | .ts (.notification .absent _ .absent) => true
  | _ => false

end Sent

def HeartbeatName (method : Option String) : Prop := method = some "ping" ∨ method = some "pong"

/-! What the receivers look at -/

def methodOnly : Value → Option String
  | .map [(.string "method", .string method)] => some method
  | _ => none

theorem methodOnly_sent (f : Sent) : methodOnly f.toValue = if f.bare then f.method else none := by
  cases f with
  | rust msg =>
    cases msg with
    | request r =>
      obtain ⟨stream, id, method, params⟩ := r
      cases stream <;> cases params <;> rfl
    | response r =>
      obtain ⟨stream, id, result, error⟩ := r
      cases stream <;> cases result <;> cases error <;> rfl
    | notification n =>
      obtain ⟨stream, method, params⟩ := n
      cases stream <;> cases params <;> rfl
  | ts msg =>
    cases msg with
    | request stream id method params => cases stream <;> cases params <;> rfl
    | response stream id result error => cases stream <;> cases result <;> cases error <;> rfl
    | notification stream method params => cases stream <;> cases params <;> rfl

theorem prop_method_sent (f : Sent) : ∃ entries, f.toValue = .map entries ∧
    Ts.prop entries "method" = f.method.map .string := by
  cases f with
  | rust msg =>
    cases msg with
    | request r =>
      obtain ⟨stream, id, method, params⟩ := r
      refine ⟨_, rfl, ?_⟩
      cases stream <;> cases params <;> rfl
    | response r =>
      obtain ⟨stream, id, result, error⟩ := r
      refine ⟨_, rfl, ?_⟩
      cases stream <;> cases result <;> cases error <;> rfl
    | notification n =>
      obtain ⟨stream, method, params⟩ := n
      refine ⟨_, rfl, ?_⟩
      cases stream <;> cases params <;> rfl
  | ts msg =>
    cases msg with
    | request stream id method params =>
      refine ⟨_, rfl, ?_⟩
      cases stream <;> cases params <;> rfl
    | response stream id result error =>
      refine ⟨_, rfl, ?_⟩
      cases stream <;> cases result <;> cases error <;> rfl
    | notification stream method params =>
      refine ⟨_, rfl, ?_⟩
      cases stream <;> cases params <;> rfl

theorem methodOnly_single (k v : Value) : methodOnly (.map [(k, v)]) = if k.asStr = some "method" then v.asStr
    else none := by
  split_ifs with hk
  · rw [asStr_eq_some.mp hk]
    cases v <;> rfl
  · rw [methodOnly.eq_def]
    split
    · rename_i method heq
      cases heq
      exact absurd rfl hk
    · rfl

theorem classifyPingPong_eq_none {ε : Type} {decodeFrame : ByteArray → Except ε Value} {bytes : ByteArray} {v : Value}
    (h : decodeFrame bytes = .ok v) : classifyPingPong decodeFrame bytes = none ↔ ¬ HeartbeatName (methodOnly v) := by
  rw [classifyPingPong.eq_def, h]
  split
  · rename_i k x heq
    cases heq
    rw [methodOnly_single, HeartbeatName]
    split_ifs
    · split <;> simp_all
    · simp
  · rename_i hother
    rw [methodOnly.eq_def]
    split
    · exact absurd rfl (hother _ _)
    · simp [HeartbeatName]

theorem heartbeatFrame_eq_none (lib : Msgpack) (f : Sent) :
    heartbeatFrame lib f.toValue = none ↔ ¬ (lib.decodes f.toValue = true ∧ HeartbeatName f.method) := by
  obtain ⟨entries, hvalue, hprop⟩ := prop_method_sent f
  rw [hvalue]
  unfold heartbeatFrame
  cases lib.decodes (.map entries) with
  | false => simp
  | true =>
    dsimp only
    rw [hprop, HeartbeatName]
    cases hmethod : f.method with
    | none => simp
    | some method =>
      rw [Option.map_some]
      split <;> simp_all

/-- The Rust transport takes a frame for a heartbeat exactly if it is a notification of the connection
itself that carries nothing but one of their names; the TypeScript one takes every request and notification
with such a name that it can decode. -/
theorem heartbeat_taken_iff {ε : Type} (lib : Msgpack) (decodeFrame : ByteArray → Except ε Value)
    (bytes : ByteArray) (f : Sent)
    (h : decodeFrame bytes = .ok f.toValue) :
    (classifyPingPong decodeFrame bytes = none ↔ ¬ (f.bare = true ∧ HeartbeatName f.method)) ∧
      (heartbeatFrame lib f.toValue = none ↔ ¬ (lib.decodes f.toValue = true ∧ HeartbeatName f.method)) := by
  refine ⟨?_, heartbeatFrame_eq_none lib f⟩
  rw [classifyPingPong_eq_none h, methodOnly_sent]
  cases f.bare with
  | true => simp
  | false => simp [HeartbeatName]

def readsAs (v : Value) : ByteArray → Except Unit Value := fun _ => .ok v

def everyFrame : Msgpack := ⟨fun _ => true, fun v => v⟩

/-- `conn.notify("status", ...)` reaches the connection of either peer. -/
theorem heartbeat_taken_iff_status :
    let f : Sent := .rust (.notification ⟨none, "status", some (.string "up")⟩)
    classifyPingPong (readsAs f.toValue) ⟨#[]⟩ = none ∧ heartbeatFrame everyFrame f.toValue = none := by
  have hname : ¬ HeartbeatName (some "status") := by simp [HeartbeatName]
  have hiff := heartbeat_taken_iff everyFrame
    (readsAs (Sent.rust (.notification ⟨none, "status", some (.string "up")⟩)).toValue) ⟨#[]⟩ _ rfl
  exact ⟨hiff.1.mpr fun h => hname h.2, hiff.2.mpr fun h => hname h.2⟩

/-- `conn.notify("ping", None)` of a Rust connection is taken for a heartbeat. -/
theorem ping_notification_taken : ¬ ∀ (lib : Msgpack) (decodeFrame : ByteArray → Except Unit Value)
    (bytes : ByteArray) (f : Sent),
    decodeFrame bytes = .ok f.toValue → classifyPingPong decodeFrame bytes = none ∧
    heartbeatFrame lib f.toValue = none := by
  intro hall
  have htaken := (hall everyFrame (readsAs (Sent.rust (.notification ⟨none, "ping", none⟩)).toValue) ⟨#[]⟩ _ rfl).1
  cases htaken

/-- `agent.notify("ping", None)`, on a stream. -/
example : heartbeatFrame everyFrame (Sent.rust (.notification ⟨some "agent-1", "ping", none⟩)).toValue =
    some .ping := rfl

end Nexal.Wire
