import Nexal.Lib.Lists
import Nexal.Sanity.Connection

/-! Every request of a connection is completed at most once, by a response to it on its own
level or by a drain of its channel. -/

namespace Nexal.Conn

open Runs
open Wire (Value WireResponse)

/-! An id that reads as a request's key is the request's id -/

theorem Uuid.dash (u : Uuid) : u.text.toList[8]? = some '-' := by
  have h := u.shape
  simp only [isUuid, Bool.and_eq_true, decide_eq_true_eq, List.all_eq_true] at h
  obtain ⟨hlen, hall⟩ := h
  have h8 : 8 < u.text.toList.length := by omega
  have hmem : (u.text.toList[8], 8) ∈ u.text.toList.zipIdx :=
    List.mk_mem_zipIdx_iff_getElem?.mpr (List.getElem?_eq_getElem h8)
  have hdash := hall _ hmem
  rw [List.getElem?_eq_getElem h8]
  simpa using hdash

theorem repr_no_dash (m i : ℕ) : m.repr.toList[i]? ≠ some '-' := by
  intro hi
  have hmem : '-' ∈ Nat.toDigits 10 m := Nat.toList_repr ▸ List.mem_of_getElem? hi
  exact absurd (Nat.isDigit_of_mem_toDigits (by decide) (by decide) hmem) (by decide)

theorem toString_int_ne_uuid (n : ℤ) (u : Uuid) : toString n ≠ u.text := by
  intro h
  have hdash := u.dash
  rw [← h, Int.toString_eq_repr, Int.repr_eq_if] at hdash
  split_ifs at hdash with hneg
  · exact repr_no_dash n.toNat 8 hdash
  · rw [String.toList_append] at hdash
    exact repr_no_dash (-n).toNat 7 hdash

section Once
variable {ε : Type} {decodeFrame : ByteArray → Except ε Value} {display : Value → String}
  {reconnects : Bool}

/-- What is assumed of the library's text for ids that are neither strings nor integers (nil,
booleans, floats, bytes, arrays, maps, extensions): it never reads as a UUID. -/
def NoUuid (display : Value → String) : Prop :=
  ∀ (v : Value) (u : Uuid), (∀ s, v ≠ .string s) → (∀ n, v ≠ .integer n) → display v ≠ u.text

theorem eq_string_of_idToKey (hdisplay : NoUuid display) {v : Value} {u : Uuid}
    (h : idToKey display v = u.text) : v = .string u.text := by
  cases v with
  | string s => exact congrArg Value.string h
  | integer n => exact absurd h (toString_int_ne_uuid n.val u)
  | _ => exact absurd h (hdisplay _ u (by simp) (by simp))

/-! Where a request's sender is -/

def Pump.hand : Pump → List ReqId
  | .completing req _ _ => [req]
  | _ => []

def Core.held (k : Core) : List ReqId :=
  k.pending.map (·.req) ++ k.pump.hand ++ k.completions.map (·.req)

/-- The cause fits the request: a response to its id on its level, or a drain of its channel. -/
def Fits (display : Value → String) (k : Core) (req : ReqId) : Cause → Prop
  | .response resp stream => ∃ q, k.requests[req]? = some q ∧
      idToKey display resp.id = q.id.text ∧ stream = q.stream
  | .drain chan => ∃ q, k.requests[req]? = some q ∧ chan = q.chan

structure OnceInv (display : Value → String) (k : Core) : Prop where
  nodup : k.held.Nodup
  known : ∀ r ∈ k.held, r < k.requests.length
  rows : ∀ row ∈ k.pending, ∃ q, k.requests[row.req]? = some q ∧ q.chan = row.chan ∧ q.id.text = row.key
  levels : ∀ q ∈ k.requests, k.channels[q.chan]? = some q.stream
  names : ∀ p ∈ k.streams, k.channels[p.2]? = some (some p.1)
  root : k.channels[0]? = some none
  routed : ∀ c resp stream, k.pump = .routed c resp stream → k.channels[c]? = some stream
  hand : ∀ r resp stream, k.pump = .completing r resp stream → Fits display k r (.response resp stream)
  done : ∀ c ∈ k.completions, Fits display k c.req c.cause

theorem onceInv_init : OnceInv display init.core where
  nodup := List.nodup_nil
  known := fun _ h => absurd h List.not_mem_nil
  rows := fun _ h => absurd h List.not_mem_nil
  levels := fun _ h => absurd h List.not_mem_nil
  names := fun _ h => absurd h List.not_mem_nil
  root := rfl
  routed := fun _ _ _ h => by cases h
  hand := fun _ _ _ h => by cases h
  done := fun _ h => absurd h List.not_mem_nil

variable {k k' : Core} {a : Act}

/-- A fit is about the request only, and requests stay. -/
theorem Fits.mono {req : ReqId} {cause : Cause} (h : Fits display k req cause)
    (hreq : ∀ q, k.requests[req]? = some q → k'.requests[req]? = some q) : Fits display k' req cause := by
  cases cause with
  | response resp stream =>
    obtain ⟨q, hq, hfit⟩ := h
    exact ⟨q, hreq q hq, hfit⟩
  | drain chan =>
    obtain ⟨q, hq, hfit⟩ := h
    exact ⟨q, hreq q hq, hfit⟩

/-- Nothing but the tasks and the bookkeeping of drains changes. -/
theorem OnceInv.of_eq (h : OnceInv display k) (hch : k'.channels = k.channels)
    (hst : k'.streams ⊆ k.streams) (hpe : k'.pending = k.pending) (hre : k'.requests = k.requests)
    (hpu : k'.pump = k.pump) (hco : k'.completions = k.completions) : OnceInv display k' where
  nodup := by simpa only [Core.held, hpe, hpu, hco] using h.nodup
  known := by simpa only [Core.held, hpe, hpu, hco, hre] using h.known
  rows := by simpa only [hpe, hre] using h.rows
  levels := by simpa only [hre, hch] using h.levels
  names := fun p hp => hch ▸ h.names p (hst hp)
  root := hch ▸ h.root
  routed := by simpa only [hpu, hch] using h.routed
  hand := fun r resp stream hp => (h.hand r resp stream (hpu ▸ hp)).mono fun q hq => hre ▸ hq
  done := fun c hc => (h.done c (hco ▸ hc)).mono fun q hq => hre ▸ hq

/-- The pump moves with empty hands. -/
theorem OnceInv.with_pump (h : OnceInv display k) {p : Pump} (hold : k.pump.hand = []) (hnew : p.hand = [])
    (hrouted : ∀ c resp stream, p = .routed c resp stream → k.channels[c]? = some stream) :
    OnceInv display { k with pump := p } := by
  have hheld : Core.held { k with pump := p } = k.held := by simp only [Core.held, hold, hnew]
  refine ⟨hheld ▸ h.nodup, fun r hr => h.known r (hheld ▸ hr), h.rows, h.levels, h.names, h.root, hrouted,
    fun r resp stream hp => ?_, h.done⟩
  have hp : p = .completing r resp stream := hp
  rw [hp] at hnew
  cases hnew

theorem held_drain_perm (k : Core) (c : ChanId) : (k.drain c).held.Perm k.held := by
  have hsplit := (List.filter_append_perm (fun row : Row => decide (row.chan = c)) k.pending).map (·.req)
  rw [List.map_append] at hsplit
  have hcompletions : (k.drain c).completions.map (·.req) = k.completions.map (·.req) ++
      (k.pending.filter fun row => decide (row.chan = c)).map (·.req) := by
    simp [Core.drain]
  have hpending : (k.drain c).pending = k.pending.filter fun row => !decide (row.chan = c) := by
    simp [Core.drain]
  unfold Core.held
  rw [hcompletions, hpending, ← List.append_assoc]
  refine List.perm_append_comm.trans ?_
  rw [← List.append_assoc, ← List.append_assoc]
  exact (hsplit.append_right _).append_right _

theorem onceInv_drain (h : OnceInv display k) (c : ChanId) : OnceInv display (k.drain c) := by
  have hperm := held_drain_perm k c
  refine ⟨hperm.nodup_iff.mpr h.nodup, fun r hr => h.known r (hperm.subset hr), fun row hrow => ?_,
    h.levels, h.names, h.root, h.routed, h.hand, fun x hx => ?_⟩
  · exact h.rows row (List.mem_filter.mp hrow).1
  · rcases List.mem_append.mp hx with hx | hx
    · exact h.done x hx
    · obtain ⟨row, hrow, rfl⟩ := List.mem_map.mp hx
      obtain ⟨hmem, hc⟩ := List.mem_filter.mp hrow
      obtain ⟨q, hq, hchan, -⟩ := h.rows row hmem
      exact ⟨q, hq, (of_decide_eq_true hc).symm.trans hchan.symm⟩

theorem onceInv_stream (h : OnceInv display k) (name : String) :
    OnceInv display { k with
      channels := k.channels ++ [some name]
      streams := k.streams ++ [(name, k.channels.length)]
      swept := if k.taken then k.channels.length :: k.swept else k.swept } := by
  have hkeep : ∀ {c : ChanId} {x : Option String}, k.channels[c]? = some x →
      (k.channels ++ [some name])[c]? = some x := by
    intro c x hc
    rw [List.getElem?_append_left (List.getElem?_eq_some_iff.mp hc).1, hc]
  refine ⟨h.nodup, h.known, h.rows, fun q hq => hkeep (h.levels q hq), fun p hp => ?_, hkeep h.root,
    fun c resp stream hp => hkeep (h.routed c resp stream hp), h.hand, h.done⟩
  rcases List.mem_append.mp hp with hp | hp
  · exact hkeep (h.names p hp)
  · rw [List.mem_singleton.mp hp]
    simp

theorem onceInv_request (h : OnceInv display k) {chan : ChanId} {id : Uuid} {stream : Option String}
    (hchan : k.channels[chan]? = some stream) :
    OnceInv display { k with
      pending := k.pending.filter (fun row => ¬ (row.chan = chan ∧ row.key = id.text)) ++
        [⟨chan, id.text, k.requests.length⟩]
      requests := k.requests ++ [⟨chan, stream, id⟩] } := by
  have hkeep : ∀ (r : ReqId) q, k.requests[r]? = some q → (k.requests ++ [⟨chan, stream, id⟩])[r]? = some q := by
    intro r q hq
    rw [List.getElem?_append_left (List.getElem?_eq_some_iff.mp hq).1, hq]
  -- the new request is held beside some of the old ones
  have hperm : ((k.pending.filter (fun row => ¬ (row.chan = chan ∧ row.key = id.text)) ++
      [(⟨chan, id.text, k.requests.length⟩ : Row)]).map (·.req) ++ k.pump.hand ++ k.completions.map (·.req)).Perm
      (k.requests.length ::
        ((k.pending.filter (fun row => ¬ (row.chan = chan ∧ row.key = id.text))).map (·.req) ++
          k.pump.hand ++ k.completions.map (·.req))) := by
    simp only [List.map_append, List.map_cons, List.map_nil, List.append_assoc, List.singleton_append]
    exact List.perm_middle
  have hsub : ((k.pending.filter (fun row => ¬ (row.chan = chan ∧ row.key = id.text))).map (·.req) ++
      k.pump.hand ++ k.completions.map (·.req)).Sublist k.held :=
    ((List.filter_sublist.map _).append_right _).append_right _
  refine ⟨hperm.nodup_iff.mpr (List.nodup_cons.mpr ⟨fun hmem => ?_, h.nodup.sublist hsub⟩),
    fun r hr => ?_, fun row hrow => ?_, fun q hq => ?_, h.names, h.root, h.routed,
    fun r resp str hp => (h.hand r resp str hp).mono (hkeep r), fun x hx => (h.done x hx).mono (hkeep x.req)⟩
  · exact Nat.lt_irrefl _ (h.known _ (hsub.subset hmem))
  · rw [List.length_append, List.length_singleton]
    rcases List.mem_cons.mp (hperm.subset hr) with rfl | hr
    · exact Nat.lt_succ_self _
    · exact Nat.lt_succ_of_lt (h.known r (hsub.subset hr))
  · rcases List.mem_append.mp hrow with hrow | hrow
    · obtain ⟨q, hq, hfit⟩ := h.rows row (List.mem_filter.mp hrow).1
      exact ⟨q, hkeep _ q hq, hfit⟩
    · rw [List.mem_singleton.mp hrow]
      exact ⟨⟨chan, stream, id⟩, by simp, rfl, rfl⟩
  · rcases List.mem_append.mp hq with hq | hq
    · exact h.levels q hq
    · rw [List.mem_singleton.mp hq]
      exact hchan

theorem onceInv_slot (h : OnceInv display k) {resp : WireResponse} {stream : Option String} {row : Row}
    (hpump : k.pump = .routed row.chan resp stream) (hrow : row ∈ k.pending)
    (hkey : row.key = idToKey display resp.id) :
    OnceInv display { k with pending := k.pending.erase row, pump := .completing row.req resp stream } := by
  have hperm : Core.held { k with pending := k.pending.erase row, pump := .completing row.req resp stream } |>.Perm
      k.held := by
    have herase := (List.perm_cons_erase hrow).map (·.req)
    unfold Core.held
    simp only [hpump, Pump.hand, List.append_nil]
    refine List.Perm.append_right _ ((List.perm_append_singleton _ _).trans ?_)
    simpa using herase.symm
  refine ⟨hperm.nodup_iff.mpr h.nodup, fun r hr => h.known r (hperm.subset hr),
    fun row' hrow' => h.rows row' (List.mem_of_mem_erase hrow'), h.levels, h.names, h.root,
    fun c resp' stream' hp => (by cases hp), fun r resp' stream' hp => ?_, h.done⟩
  obtain ⟨rfl, rfl, rfl⟩ := Pump.completing.inj hp
  obtain ⟨q, hq, hchan, hid⟩ := h.rows row hrow
  have hlevel := h.levels q (List.mem_of_getElem? hq)
  rw [hchan, h.routed _ _ _ hpump] at hlevel
  exact ⟨q, hq, hkey.symm.trans hid.symm, Option.some.inj hlevel⟩

theorem onceInv_complete (h : OnceInv display k) {req : ReqId} {resp : WireResponse}
    {stream : Option String} (hpump : k.pump = .completing req resp stream) :
    OnceInv display { k with
      pump := .idle
      completions := k.completions ++ [⟨req, .response resp stream⟩] } := by
  have hperm : (Core.held { k with
      pump := .idle
      completions := k.completions ++ [⟨req, .response resp stream⟩] }).Perm k.held := by
    unfold Core.held
    simp only [hpump, Pump.hand, List.append_nil, List.map_append, List.map_cons, List.map_nil,
      List.append_assoc]
    have hswap : (k.completions.map (·.req) ++ [req]).Perm ([req] ++ k.completions.map (·.req)) :=
      List.perm_append_comm
    exact hswap.append_left _
  refine ⟨hperm.nodup_iff.mpr h.nodup, fun r hr => h.known r (hperm.subset hr), h.rows, h.levels, h.names,
    h.root, fun c resp' stream' hp => (by cases hp), fun r resp' stream' hp => (by cases hp), fun x hx => ?_⟩
  rcases List.mem_append.mp hx with hx | hx
  · exact h.done x hx
  · rw [List.mem_singleton.mp hx]
    exact h.hand req resp stream hpump

theorem onceInv_step (h : OnceInv display k) (hs : CoreStep display a k k') : OnceInv display k' := by
  cases hs with
  | stream hnone => exact onceInv_stream h _
  | request hchan => exact onceInv_request h hchan
  | closeStream hname => exact h.of_eq rfl List.erase_subset rfl rfl rfl rfl
  | close => exact h.of_eq rfl (List.Subset.refl _) rfl rfl rfl rfl
  | drainRoot ht => exact (onceInv_drain h 0).of_eq rfl (List.Subset.refl _) rfl rfl rfl rfl
  | drainTake ht => exact h.of_eq rfl (List.nil_subset _) rfl rfl rfl rfl
  | drainRest ht hmem => exact (onceInv_drain h _).of_eq rfl (List.Subset.refl _) rfl rfl rfl rfl
  | drainDone ht => exact h.of_eq rfl (List.Subset.refl _) rfl rfl rfl rfl
  | route hpump hlevel =>
    refine h.with_pump (by rw [hpump]; rfl) rfl fun c resp stream hp => ?_
    obtain ⟨rfl, rfl, rfl⟩ := Pump.routed.inj hp
    rcases hlevel with ⟨rfl, rfl⟩ | ⟨sid, rfl, hsid⟩
    · exact h.root
    · exact h.names _ (Lists.mem_of_lookup_eq_some hsid)
  | stop hpump =>
    have hstop := h.with_pump (p := .stopped) (by rw [hpump]; rfl) rfl fun _ _ _ hp => by cases hp
    exact hstop.of_eq rfl (List.Subset.refl _) rfl rfl rfl rfl
  | slot hpump hrow hkey => exact onceInv_slot h hpump hrow hkey
  | unknown hpump => exact h.with_pump (by rw [hpump]; rfl) rfl fun _ _ _ hp => by cases hp
  | complete hpump => exact onceInv_complete h hpump

/-- In every run, whatever the interleaving: no request is completed twice, a completed one has
left its pending map, it was completed by a response to its own id on its own level or by a
drain of its channel, and a response to an unknown id changes nothing. -/
theorem requests_completed_once (decodeFrame : ByteArray → Except ε Value) (display : Value → String)
    (reconnects : Bool) (hdisplay : NoUuid display) (acts : List Act) (s : State)
    (hrun : run (step decodeFrame display reconnects) init acts = some s) :
    (s.completions.map (·.req)).Nodup ∧
    (∀ row ∈ s.pending, row.req ∉ s.completions.map (·.req)) ∧
    (∀ c ∈ s.completions, ∃ q, s.requests[c.req]? = some q ∧
      match c.cause with
      | .response resp stream => resp.id = .string q.id.text ∧ stream = q.stream
      | .drain chan => chan = q.chan) ∧
    (∀ c resp stream, s.pump = .routed c resp stream →
      (∀ row ∈ s.pending, row.chan = c → row.key ≠ idToKey display resp.id) →
      step decodeFrame display reconnects s .pump = some { s with pump := .idle }) := by
  have hinv : OnceInv display s.core := by
    refine run_inv_all (fun s => OnceInv display s.core) (fun s a s' hi hs => ?_) onceInv_init hrun
    rcases step_core hs with heq | hstep
    · exact heq ▸ hi
    · exact onceInv_step hi hstep
  have hnodup := hinv.nodup
  refine ⟨(List.nodup_append.mp hnodup).2.1, fun row hrow hmem => ?_, fun c hc => ?_,
    fun c resp stream hpump hunknown => ?_⟩
  · have hrow' : row.req ∈ s.pending.map (·.req) ++ s.pump.hand :=
      List.mem_append_left _ (List.mem_map_of_mem hrow)
    exact (List.nodup_append.mp hnodup).2.2 _ hrow' _ hmem rfl
  · have hfits := hinv.done c hc
    cases hcause : c.cause with
    | response resp stream =>
      rw [hcause] at hfits
      obtain ⟨q, hq, hid, hstream⟩ := hfits
      exact ⟨q, hq, eq_string_of_idToKey hdisplay hid, hstream⟩
    | drain chan =>
      rw [hcause] at hfits
      exact hfits
  · have hfind : (s.pending.find? fun row => row.chan = c ∧ row.key = idToKey display resp.id) = none := by
      refine List.find?_eq_none.mpr fun row hrow hmatch => ?_
      obtain ⟨hchan, hkey⟩ := of_decide_eq_true hmatch
      exact hunknown row hrow hchan hkey
    simp only [step, pumpStep, hpump, hfind]

end Once

def answeredId : Uuid := ⟨"6f9619ff-8b86-4d01-b42d-00cf4fc964ff", by decide⟩

/-- The decoder at a frame with a nil result for `answeredId`. -/
def decodeAnswer (_ : ByteArray) : Except Unit Value :=
  .ok (.map [(.string "id", .string answeredId.text), (.string "result", .nil)])

/-- A request is answered before the connection is closed. -/
def answeredRun : List Act :=
  [.request 0 answeredId, .send 0, .command, .receive .empty, .pump, .pump, .pump, .close, .task 0 0]

theorem requests_completed_once_run :
    ∃ s, run (step decodeAnswer (fun _ => "nil") false) init answeredRun = some s ∧
      s.completions.map (·.req) = [0] ∧ (s.completions.map (·.req)).Nodup := by
  obtain ⟨s, hs, hcompleted⟩ : ∃ s, run (step decodeAnswer (fun _ => "nil") false) init answeredRun = some s ∧
      s.completions.map (·.req) = [0] := ⟨_, rfl, rfl⟩
  have hnil : NoUuid fun _ => "nil" := by
    intro v u _ _ h
    have hdash := u.dash
    rw [← show "nil" = u.text from h] at hdash
    exact absurd hdash (by decide)
  exact ⟨s, hs, hcompleted, (requests_completed_once decodeAnswer _ false hnil answeredRun s hs).1⟩

end Nexal.Conn
