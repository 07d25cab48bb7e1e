import Nexal.Sanity.Reconnect
import Nexal.Spec.TsRequests

/-! Requests and their sockets. Only an answer and the closing of a level take a request out of its pending map;
neither the transport, which drops the frame of a socket that is not open, nor the end of a socket does. -/

namespace Nexal.TsRequests

open Runs
open Reconnect (Socket Gone)

/-- A request that was sent on no socket has been rejected, and one whose socket is gone is not pending. -/
def NoneOutlives (s : State) : Prop :=
  ∀ r ∈ s.requests, (r.socket = none → r.status = .rejected) ∧ ∀ i, r.socket = some i →
    Gone s.transport i → r.status ≠ .pending

def ClosesTold (o : WebSocketConnectionOptions) (s : State) (k : Socket) : Prop :=
  o.closesOnDisconnect = true ∧ s.transport.settled = true ∧ s.transport.closed = false ∧
    (k.opened = true ∨ k.failedBeforeOpen = false)

/-- A request is made only when the last socket is open; and no request is pending on a socket when its close event
comes, or the owner closes the connection then and the request is on a level this reaches. -/
def RequestCovered (o : WebSocketConnectionOptions) (s : State) : Act → Prop
  | .request _ => sendSocket s.transport ≠ none
  | .socket (.closed i) => ∀ k, s.transport.sockets[i]? = some k → ∀ r ∈ s.requests, r.socket = some i →
    r.status = .pending →
      ClosesTold o s k ∧ s.reaches r.level = true
  | _ => True

variable {o : WebSocketConnectionOptions} {s s' : State} {a : Act} {acts : List Act} {i j : ℕ} {k : Socket} {r : Request}

/-! Requests -/

@[simp] theorem reject_socket (r : Request) : r.reject.socket = r.socket := by
  rw [Request.reject]
  cases r.status <;> rfl

@[simp] theorem answer_socket (r : Request) (ok : Bool) : (r.answer ok).socket = r.socket := by
  rw [Request.answer]
  cases r.status <;> rfl

theorem reject_not_pending (r : Request) : r.reject.status ≠ .pending := by
  rw [Request.reject]
  cases hstatus : r.status <;> simp [hstatus]

structure Later (r r' : Request) : Prop where
  socket : r'.socket = r.socket
  rejected : r.status = .rejected → r'.status = .rejected
  settled : r.status ≠ .pending → r'.status ≠ .pending

theorem Later.refl (r : Request) : Later r r := ⟨rfl, fun h => h, fun h => h⟩

theorem Later.trans {r r' r'' : Request} (h : Later r r') (h' : Later r' r'') : Later r r'' :=
  ⟨h'.socket.trans h.socket, fun hs => h'.rejected (h.rejected hs), fun hs => h'.settled (h.settled hs)⟩

theorem later_reject (r : Request) : Later r r.reject := by
  refine ⟨reject_socket r, fun h => ?_, fun _ => reject_not_pending r⟩
  rw [Request.reject, h]
  exact h

theorem later_answer (r : Request) (ok : Bool) : Later r (r.answer ok) := by
  refine ⟨answer_socket r ok, fun h => ?_, fun h => ?_⟩
  · rw [Request.answer, h]
    exact h
  · rw [Request.answer]
    cases hstatus : r.status with
    | pending => exact absurd hstatus h
    | resolved | rejected => exact h

def From (s s' : State) : Prop := ∀ r' ∈ s'.requests, ∃ r ∈ s.requests, Later r r'

theorem From.refl (s : State) : From s s := fun r hr => ⟨r, hr, Later.refl r⟩

theorem From.trans {s s' s'' : State} (h : From s s') (h' : From s' s'') : From s s'' := by
  intro r'' hr''
  obtain ⟨r', hr', hlater'⟩ := h' r'' hr''
  obtain ⟨r, hr, hlater⟩ := h r' hr'
  exact ⟨r, hr, hlater.trans hlater'⟩

theorem from_rejectAllPending (p : Option ℕ → Bool) (s : State) : From s (rejectAllPending p s) := by
  intro r' hr'
  obtain ⟨r, hr, rfl⟩ := List.mem_map.mp hr'
  refine ⟨r, hr, ?_⟩
  split_ifs
  · exact later_reject r
  · exact Later.refl r

theorem from_handleResponse (s : State) (stream : Option String) (r : ℕ) (ok : Bool) :
    From s (handleResponse s stream r ok) := by
  intro r' hr'
  obtain ⟨j, hj⟩ := Lists.exists_getElem?_of_mem hr'
  rw [handleResponse, List.getElem?_modify] at hj
  obtain ⟨q, hq, rfl⟩ := Option.map_eq_some_iff.mp hj
  refine ⟨q, List.mem_of_getElem? hq, ?_⟩
  split_ifs
  · exact later_answer q ok
  · exact Later.refl q
  · exact Later.refl q

theorem closeStream_spec (s : State) (id : String) :
    From s (closeStream s id) ∧ (closeStream s id).transport = s.transport := by
  unfold closeStream
  split
  · rename_i n _
    exact ⟨from_rejectAllPending (fun level => level = some n) s, rfl⟩
  · exact ⟨From.refl s, rfl⟩

theorem from_close (s : State) : From s (close s) := from_rejectAllPending _ s

/-- Closing rejects what is pending on a level that it reaches. -/
theorem close_reaches {r' : Request} (h : r' ∈ (close s).requests) (hpending : r'.status = .pending) :
    r' ∈ s.requests ∧ s.reaches r'.level = false := by
  obtain ⟨r, hr, rfl⟩ := List.mem_map.mp h
  split_ifs at hpending ⊢ with hreaches
  · exact absurd hpending (reject_not_pending r)
  · exact ⟨hr, Bool.not_eq_true _ ▸ hreaches⟩

/-- What comes from a state without such requests has none, as long as no further socket is gone. -/
theorem noneOutlives_of_from (h : NoneOutlives s) (hfrom : From s s')
    (hgone : ∀ i, Gone s'.transport i → Gone s.transport i) : NoneOutlives s' := by
  intro r' hr'
  obtain ⟨r, hr, hlater⟩ := hfrom r' hr'
  obtain ⟨hnone, hsome⟩ := h r hr
  refine ⟨fun hsocket => hlater.rejected (hnone (hlater.socket.symm.trans hsocket)), fun i hsocket hi => ?_⟩
  exact hlater.settled (hsome i (hlater.socket.symm.trans hsocket) (hgone i hi))

/-! The end of a socket -/

theorem onClose_told (htold : ClosesTold o s k) :
    ∃ t, t.sockets = s.transport.sockets.set i { k with connectTimeout := false } ∧
    (onClose o s i k).requests = (close { s with transport := t }).requests ∧
      (∀ j, Gone (onClose o s i k).transport j ↔ Gone t j) := by
  obtain ⟨hcloses, hsettled, hopen, hfailed⟩ := htold
  refine ⟨(s.transport.setSocket i { k with connectTimeout := false }).call .disconnect, rfl, ?_⟩
  have hnot : ¬ (!k.opened && k.failedBeforeOpen) = true := by
    rcases hfailed with h | h
    · simp [h]
    · simp [h]
  unfold onClose
  dsimp only
  rw [if_neg hnot, if_neg (by simp [Reconnect.State.setSocket, hopen])]
  simp only [Reconnect.State.setSocket, Reconnect.State.call, hsettled, hcloses, Bool.and_true, if_true]
  refine ⟨trivial, fun j => ?_⟩
  exact (Reconnect.gone_congr (Reconnect.sockets_schedule _ _)).trans Reconnect.gone_close

theorem onClose_untold (htold : ¬ ClosesTold o s k) : (onClose o s i k).requests = s.requests ∧
    (onClose o s i k).transport.sockets = s.transport.sockets.set i { k with connectTimeout := false } := by
  unfold onClose
  dsimp only
  split_ifs with hfailed hclosed hsettled hcloses hcloses
  · exact ⟨rfl, rfl⟩
  · exact ⟨rfl, rfl⟩
  · refine absurd ⟨(Bool.and_eq_true_iff.mp hcloses).2, hsettled, Bool.not_eq_true _ ▸ hclosed, ?_⟩ htold
    cases hopened : k.opened with
    | true => exact Or.inl rfl
    | false => exact Or.inr (by simpa [hopened] using hfailed)
  · exact ⟨rfl, Reconnect.sockets_schedule _ _⟩
  · exact absurd (Bool.and_eq_true_iff.mp hcloses).1 hsettled
  · exact ⟨rfl, Reconnect.sockets_schedule _ _⟩

theorem noneOutlives_onClose (h : NoneOutlives s) (hi : s.transport.sockets[i]? = some k) :
    NoneOutlives (onClose o s i { k with ready := .closed }) ↔ RequestCovered o s (.socket (.closed i)) := by
  have hfirst : ∀ j, Gone (s.transport.setSocket i { k with ready := .closed, connectTimeout := false }) j ↔
      Gone s.transport j ∨ j = i := fun j => Reconnect.gone_setSocket_closed rfl hi
  by_cases htold : ClosesTold o s { k with ready := .closed }
  · obtain ⟨t, hsockets, hrequests, hgone⟩ := onClose_told (i := i) htold
    have hgone' : ∀ j, Gone (onClose o s i { k with ready := .closed }).transport j ↔
      Gone s.transport j ∨ j = i := fun j =>
      ((hgone j).trans (Reconnect.gone_congr hsockets)).trans (hfirst j)
    constructor
    · intro hafter k' hk' r hr hsocket hpending
      cases hi.symm.trans hk'
      refine ⟨htold, Bool.of_not_eq_false fun hreaches => ?_⟩
      have hmem : r ∈ (onClose o s i { k with ready := .closed }).requests := by
        rw [hrequests]
        exact List.mem_map.mpr ⟨r, hr, if_neg (Bool.eq_false_iff.mp hreaches)⟩
      exact (hafter r hmem).2 i hsocket ((hgone' i).mpr (Or.inr rfl)) hpending
    · intro hcovered r' hr'
      rw [hrequests] at hr'
      obtain ⟨r, hr, hlater⟩ := from_close { s with transport := t } r' hr'
      obtain ⟨hnone, hsome⟩ := h r hr
      refine ⟨fun hsocket => hlater.rejected (hnone (hlater.socket.symm.trans hsocket)), fun j hsocket hj hpending => ?_⟩
      obtain ⟨hold, hreaches⟩ := close_reaches hr' hpending
      rcases (hgone' j).mp hj with hj | rfl
      · exact (h r' hold).2 j hsocket hj hpending
      · cases hreaches.symm.trans (hcovered k hi r' hold hsocket hpending).2
  · obtain ⟨hrequests, hsockets⟩ := onClose_untold (i := i) htold
    have hgone : ∀ j, Gone (onClose o s i { k with ready := .closed }).transport j ↔ Gone s.transport j ∨ j = i :=
      fun j =>
      (Reconnect.gone_congr hsockets).trans (hfirst j)
    constructor
    · intro hafter k' hk' r hr hsocket hpending
      exact absurd hpending ((hafter r (hrequests ▸ hr)).2 i hsocket ((hgone i).mpr (Or.inr rfl)))
    · intro hcovered r hr
      rw [hrequests] at hr
      refine ⟨(h r hr).1, fun j hsocket hj hpending => ?_⟩
      rcases (hgone j).mp hj with hj | rfl
      · exact (h r hr).2 j hsocket hj hpending
      · exact htold (hcovered k hi r hr hsocket hpending).1

/-! Runs -/

theorem socketEvent_eq {a : Reconnect.Act} (ha : ∀ i, a ≠ .closed i) :
    socketEvent o s a = (Reconnect.step o.reconnect s.transport a).map fun t => { s with transport := t } := by
  cases a with
  | closed i => exact absurd rfl (ha i)
  | _ => rfl

theorem noneOutlives_request (h : NoneOutlives s) (level : Option ℕ) :
    NoneOutlives (request s level) ↔ sendSocket s.transport ≠ none := by
  constructor
  · intro hafter hnone
    have hnew := (hafter ⟨level, sendSocket s.transport, .pending⟩
      (List.mem_append_right _ (List.mem_singleton.mpr rfl))).1 hnone
    cases hnew
  · intro hsome r hr
    rcases List.mem_append.mp hr with hold | hnew
    · exact h r hold
    · rw [List.mem_singleton.mp hnew]
      refine ⟨fun hnone => absurd hnone hsome, fun i hsocket hgone => ?_⟩
      obtain ⟨k, hk, hready⟩ := hgone
      rw [sendSocket] at hsocket
      split at hsocket
      · rename_i c hc
        split at hsocket
        · rename_i hconnected
          cases hsocket
          rw [List.getLast?_eq_getElem?] at hc
          cases hc.symm.trans hk
          cases hconnected.symm.trans hready
        · cases hsocket
      · cases hsocket

theorem socketEvent_spec {a : Reconnect.Act} (h : NoneOutlives s) (hs : socketEvent o s a = some s') :
    NoneOutlives s' ↔ RequestCovered o s (.socket a) := by
  cases a with
  | closed i =>
    obtain ⟨k, hi, hs⟩ := Option.bind_eq_some_iff.mp hs
    split_ifs at hs
    cases hs
    exact noneOutlives_onClose h hi
  | _ =>
    rw [socketEvent_eq (by simp)] at hs
    obtain ⟨t, ht, rfl⟩ := Option.map_eq_some_iff.mp hs
    refine iff_of_true (noneOutlives_of_from h (From.refl s) fun i hi => ?_) trivial
    exact Reconnect.gone_step (by simp) ht hi

theorem step_spec (h : NoneOutlives s) (hs : step o s a = some s') : NoneOutlives s' ↔ RequestCovered o s a := by
  cases a with
  | socket a => exact socketEvent_spec h hs
  | response i stream r ok =>
    obtain ⟨t, -, rfl⟩ := Option.map_eq_some_iff.mp hs
    exact iff_of_true (noneOutlives_of_from h (from_handleResponse s stream r ok) fun _ hi => hi) trivial
  | request level =>
    simp only [step] at hs
    split_ifs at hs
    cases hs
    exact noneOutlives_request h level
  | stream id =>
    simp only [step] at hs
    split_ifs at hs
    cases hs
    refine iff_of_true ?_ trivial
    unfold stream
    split
    · exact h
    · exact h
  | closeStream id =>
    simp only [step] at hs
    split_ifs at hs
    cases hs
    obtain ⟨hfrom, htransport⟩ := closeStream_spec s id
    exact iff_of_true (noneOutlives_of_from h hfrom fun i hi => htransport ▸ hi) trivial
  | closeHandle n =>
    obtain ⟨id, -, rfl⟩ := Option.map_eq_some_iff.mp hs
    obtain ⟨hfrom, htransport⟩ := closeStream_spec (rejectAllPending (fun level => level = some n) s) id
    refine iff_of_true (noneOutlives_of_from h ((from_rejectAllPending _ s).trans hfrom) fun i hi => ?_) trivial
    rw [Stream.close, htransport] at hi
    exact hi
  | close =>
    simp only [step] at hs
    split_ifs at hs
    cases hs
    exact iff_of_true (noneOutlives_of_from h (from_close s) fun i hi => Reconnect.gone_close.mp hi) trivial

/-- Where the owner leaves the connection alone, the transport runs as it does by itself. -/
theorem socketEvent_transport {a : Reconnect.Act} (ho : o.closesOnDisconnect = false) :
    (socketEvent o s a).map State.transport = Reconnect.step o.reconnect s.transport a := by
  cases a with
  | closed i =>
    simp only [socketEvent, Reconnect.step, Option.map_bind]
    congr 1
    funext k
    simp only [Function.comp, Reconnect.socketStep]
    split_ifs with hready
    · rfl
    · simp only [Option.map_some, onClose, Reconnect.onClose, ho, Bool.and_false, Bool.false_eq_true, if_false]
      split_ifs <;> rfl
  | _ =>
    rw [socketEvent_eq (by simp), Option.map_map]
    exact Option.map_id'

/-- At every point of a run each request that was sent on no socket has been rejected and none is pending on a socket
that is gone, exactly if requests are made only while the last socket is open, and at the close event of a socket no
request is pending on it, or the owner closes the connection then and reaches its level. -/
theorem noneOutlives_iff_requestCovered (h : run (step o) init acts = some s) :
    (∀ acts' s', acts' <+: acts → run (step o) init acts' = some s' → NoneOutlives s') ↔
      RunOk (step o) (RequestCovered o) init acts := by
  refine (runOk_iff_prefixes (H := fun _ _ => True) (fun _ => True) NoneOutlives ?_ trivial (fun r hr => by cases hr)
    (runOk_of_forall (fun _ _ => trivial) _ _) h).symm
  exact fun s a s' _ hq _ hs => ⟨trivial, step_spec hq hs⟩

/-- One request is answered; the gateway's client loses its connection while another is pending. -/
def closesOnDisconnectRun : List Act :=
  [.socket (.open 0), .request none, .stream "agent-1", .request (some 0), .response 0 none 0 true, .socket (.closed 0)]

theorem noneOutlives_iff_requestCovered_closes :
    ∃ s, run (step ⟨some none, true⟩) init closesOnDisconnectRun = some s ∧
    ∀ acts' s', acts' <+: closesOnDisconnectRun → run (step ⟨some none, true⟩) init acts' = some s' →
      NoneOutlives s' := by
  refine ⟨_, rfl, (@noneOutlives_iff_requestCovered ⟨some none, true⟩ _ closesOnDisconnectRun rfl).mpr ?_⟩
  have hopen : some 0 ≠ none := Option.some_ne_none 0
  refine runOk_cons rfl trivial (runOk_cons rfl hopen (runOk_cons rfl trivial (runOk_cons rfl hopen
    (runOk_cons rfl trivial (runOk_cons rfl (fun k hk r hr hsocket hpending => ?_) trivial)))))
  cases hk
  refine ⟨⟨rfl, rfl, rfl, Or.inl rfl⟩, ?_⟩
  revert r
  decide

/-- A request is pending when the socket is lost, and stays so after the transport has come back. -/
def lostRun : List Act :=
    [.socket (.open 0), .request none, .socket (.closed 0), .socket (.reconnectTimer 0), .socket (.open 1)]

theorem lost_request_pends : ¬ ∀ (o : WebSocketConnectionOptions) (acts : List Act) (s : State),
    run (step o) init acts = some s → NoneOutlives s := by
  intro hall
  have h := hall ⟨some none, false⟩ lostRun _ rfl ⟨none, some 0, .pending⟩ (List.mem_singleton.mpr rfl)
  exact h.2 0 rfl ⟨_, rfl, rfl⟩ rfl

end Nexal.TsRequests
