import Nexal.Lib.Lists
import Nexal.Spec.AgentCalls
import Nexal.Spec.AgentChannel
import Nexal.Spec.AgentConn

/-! What one step of a call can do, and what holds of the calls of either program whatever
frames come in. -/

namespace Nexal.Link

open Wire (Value mapGet)

/-! The keys of the frames -/

theorem mapGet_mpMap (pairs : List (String × Value)) (key : String) :
    mapGet (mpMap pairs) key = pairs.lookup key := by
  induction pairs with
  | nil => rfl
  | cons pair pairs ih =>
    have hcons : mapGet (mpMap (pair :: pairs)) key =
        if (Value.string pair.1).asStr = some key then some pair.2 else mapGet (mpMap pairs) key := by
      simp only [mapGet, mpMap, Value.asMap, Option.bind_some, List.map_cons, List.findSome?_cons]
      split_ifs <;> rfl
    rw [hcons, List.lookup_cons, ih]
    by_cases hkey : key = pair.1
    · simp [hkey, Value.asStr]
    · have hne : (key == pair.1) = false := by simpa using hkey
      rw [hne, if_neg (by simpa [Value.asStr] using Ne.symm hkey)]

theorem asU64_ofU64 (n : UInt64) : asU64 (ofU64 n) = some n := by
  have hnat : (0 : ℤ) ≤ (n.toNat : ℤ) := Int.natCast_nonneg _
  simp only [ofU64, asU64, if_pos hnat, Int.toNat_natCast, UInt64.ofNat_toNat]

def frameId (value : Value) : Option UInt64 := (mapGet value "id").bind asU64

theorem frameId_request (id : UInt64) (method : String) (params : Value) :
    frameId (buildRpcRequest id method params) = some id := by
  have hid : mapGet (buildRpcRequest id method params) "id" = some (ofU64 id) := by
    rw [buildRpcRequest, mapGet_mpMap]
    rfl
  rw [frameId, hid, Option.bind_some, asU64_ofU64]

def hasMethod (value : Value) : Bool := (mapGet value "method").isSome

theorem responseId_of_hasMethod {value : Value} (h : hasMethod value = true) : responseId value = none := if_pos h

theorem responseId_of_not_hasMethod {value : Value} (h : hasMethod value = false) : responseId value = frameId value := by
  have hnot : ¬ (mapGet value "method").isSome = true := by
    rw [hasMethod] at h
    simp [h]
  exact if_neg hnot

theorem hasMethod_request (id : UInt64) (method : String) (params : Value) :
    hasMethod (buildRpcRequest id method params) = true := by
  rw [hasMethod, buildRpcRequest, mapGet_mpMap]
  rfl

theorem notification_keys (method : String) (params : Value) :
    hasMethod (buildRpcNotification method params) = true ∧ mapGet (buildRpcNotification method params) "id" = none := by
  rw [hasMethod, buildRpcNotification, mapGet_mpMap, mapGet_mpMap]
  exact ⟨rfl, rfl⟩

theorem resultFrame_keys (id result : Value) :
    hasMethod (resultFrame id result) = false ∧ mapGet (resultFrame id result) "id" = some id := by
  rw [hasMethod, resultFrame, mapGet_mpMap, mapGet_mpMap]
  exact ⟨rfl, rfl⟩

theorem errorFrame_keys (id error : Value) :
    hasMethod (errorFrame id error) = false ∧ mapGet (errorFrame id error) "id" = some id := by
  rw [hasMethod, errorFrame, mapGet_mpMap, mapGet_mpMap]
  exact ⟨rfl, rfl⟩

/-- A response carries the id of its request and no method. -/
theorem gatewayResponse_keys (id : Value) (r : Except String Value) :
    hasMethod (gatewayResponse id r) = false ∧ mapGet (gatewayResponse id r) "id" = some id := by
  cases r with
  | ok val => exact resultFrame_keys id val
  | error msg => exact errorFrame_keys id _

theorem agentResponse_keys (id : Value) (r : Except ChannelError Value) :
    hasMethod (agentResponse id r) = false ∧ mapGet (agentResponse id r) "id" = some id := by
  cases r with
  | ok val => exact resultFrame_keys id val
  | error err => exact errorFrame_keys id _

theorem parseErrorFrame_keys (reason : String) :
    hasMethod (parseErrorFrame reason) = false ∧ mapGet (parseErrorFrame reason) "id" = some .nil := errorFrame_keys .nil _

variable {ε : Type} {c c' : Calls ε} {call : Call ε} {i j : ℕ} {frame : Option Value}

inductive CallMove (c : Calls ε) (closedError : ε) (accepts : Bool) (i : ℕ) (call : Call ε) :
    Calls ε → Option Value → Prop where
  | allocates (hphase : call.phase = .allocating) (hroom : c.nextId.toNat + 1 < 2 ^ 64) :
    CallMove c closedError accepts i call
      { c.set i { call with phase := .inserting c.nextId, id := some c.nextId } with nextId := c.nextId + 1 } none
  | inserts {id : UInt64} (hphase : call.phase = .inserting id) :
    CallMove c closedError accepts i call
      { c.set i { call with phase := .sending id } with pending := (id, i) :: c.pending.filter (·.1 ≠ id) } none
  | sends {id : UInt64} (hphase : call.phase = .sending id) (haccepts : accepts = true) :
    CallMove c closedError accepts i call (c.set i { call with phase := .waiting id }) (some (call.frame id))
  | refused {id : UInt64} {phase : CallPhase ε} (hphase : call.phase = .sending id)
    (hnext : phase = .removing id ∨ phase = .returned (.error closedError)) :
    CallMove c closedError accepts i call (c.set i { call with phase := phase }) none
  | wakes {id : UInt64} {result : Except ε Value} (hphase : call.phase = .waiting id)
    (hslot : call.slot = some result) :
    CallMove c closedError accepts i call (c.set i { call with phase := .returned result }) none
  | removes {id : UInt64} (hphase : call.phase = .removing id) :
    CallMove c closedError accepts i call
      { c.set i { call with phase := .returned (.error closedError) } with
        pending := c.pending.filter (·.1 ≠ id) } none

theorem Calls.step_move {closedError : ε} {accepts : Bool} (h : c.step closedError accepts i = some (c', frame)) :
    ∃ call, c.calls[i]? = some call ∧ CallMove c closedError accepts i call c' frame := by
  obtain ⟨call, hcall, h⟩ := Option.bind_eq_some_iff.mp h
  refine ⟨call, hcall, ?_⟩
  cases hphase : call.phase with
  | checking | returned _ =>
    simp only [hphase] at h
    cases h
  | allocating =>
    simp only [hphase] at h
    split_ifs at h with hroom
    cases h
    exact .allocates hphase hroom
  | inserting id =>
    simp only [hphase] at h
    cases h
    exact .inserts hphase
  | sending id =>
    simp only [hphase] at h
    split_ifs at h with haccepts
    · cases h
      exact .sends hphase haccepts
    · cases h
      exact .refused hphase (Or.inl rfl)
    · cases h
      exact .refused hphase (Or.inr rfl)
  | waiting id =>
    simp only [hphase] at h
    obtain ⟨result, hslot, h⟩ := Option.map_eq_some_iff.mp h
    cases h
    exact .wakes hphase hslot
  | removing id =>
    simp only [hphase] at h
    cases h
    exact .removes hphase

/-! The senders -/

theorem calls_resolve (c : Calls ε) (result : Except ε Value) (i j : ℕ) :
    (c.resolve result i).calls[j]? =
      (c.calls[j]?).map fun call => if j = i then { call with slot := some result } else call := by
  unfold Calls.resolve
  dsimp only
  rw [List.getElem?_modify]
  by_cases hij : i = j
  · simp [hij]
  · simp [hij, Ne.symm hij]

theorem foldl_resolve (result : Except ε Value) (l : List ℕ) (c : Calls ε) :
    (l.foldl (Calls.resolve · result) c).nextId = c.nextId ∧
    (l.foldl (Calls.resolve · result) c).resolved = c.resolved ++ l.map (·, result) ∧
    ∀ j, (l.foldl (Calls.resolve · result) c).calls[j]? =
      (c.calls[j]?).map fun call => if j ∈ l then { call with slot := some result } else call := by
  induction l generalizing c with
  | nil => simp
  | cons i l ih =>
    obtain ⟨hnext, hresolved, hcalls⟩ := ih (c.resolve result i)
    refine ⟨hnext, ?_, fun j => ?_⟩
    · rw [List.foldl_cons, hresolved]
      simp [Calls.resolve]
    · rw [List.foldl_cons, hcalls, calls_resolve, Option.map_map]
      congr 1
      funext call
      by_cases hij : j = i
      · simp [hij]
      · simp [hij]

def CallPhase.id : CallPhase ε → Option UInt64
  | .inserting id | .sending id | .waiting id | .removing id => some id
  | _ => none

/-- The call has no sender in the map yet. -/
def CallPhase.early : CallPhase ε → Bool
  | .checking | .allocating | .inserting _ => true
  | _ => false

structure CallOk (nextId : UInt64) (call : Call ε) : Prop where
  below : ∀ id, call.id = some id → id < nextId
  phase : ∀ id, call.phase.id = some id → call.id = some id
  fresh : call.phase.early = true → call.slot = none

structure CallsOk (c : Calls ε) : Prop where
  each : ∀ (i : ℕ) (call : Call ε), c.calls[i]? = some call → CallOk c.nextId call
  unique : ∀ (i j : ℕ) (call call' : Call ε) (id : UInt64), c.calls[i]? = some call → c.calls[j]? = some call' →
    call.id = some id → call'.id = some id → i = j
  keys : (c.pending.map (·.1)).Nodup
  pending : ∀ id i, (id, i) ∈ c.pending →
    ∃ call : Call ε, c.calls[i]? = some call ∧ call.id = some id ∧ call.slot = none ∧ call.phase.early = false
  once : (c.resolved.map (·.1)).Nodup
  resolved : ∀ i r, (i, r) ∈ c.resolved → ∃ call : Call ε, c.calls[i]? = some call ∧ call.slot = some r

theorem callsOk_new : CallsOk (Calls.new : Calls ε) where
  each := by simp [Calls.new]
  unique := by simp [Calls.new]
  keys := List.nodup_nil
  pending := by simp [Calls.new]
  once := List.nodup_nil
  resolved := by simp [Calls.new]

theorem CallsOk.shrink {pending : List (UInt64 × ℕ)} (h : CallsOk c) (hsub : pending.Sublist c.pending) :
    CallsOk { c with pending := pending } :=
  { h with
    keys := h.keys.sublist (hsub.map _)
    pending := fun id i hmem => h.pending id i (hsub.subset hmem) }

/-- A call moves on, with its id and its sender as they were. -/
theorem CallsOk.update {call' : Call ε} (h : CallsOk c) (hcall : c.calls[i]? = some call)
    (hok : CallOk c.nextId call') (hid : call'.id = call.id) (hslot : call'.slot = call.slot)
    (hearly : call'.phase.early = true → call.phase.early = true) : CallsOk (c.set i call') := by
  have hself : (c.set i call').calls[i]? = some call' := Lists.getElem?_set_self_of_some hcall
  have hback : ∀ (j : ℕ) (x : Call ε), (c.set i call').calls[j]? = some x →
      ∃ y : Call ε, c.calls[j]? = some y ∧ x.id = y.id := by
    intro j x hx
    rcases Lists.getElem?_set_cases hx with ⟨rfl, rfl⟩ | ⟨-, hx⟩
    · exact ⟨call, hcall, hid⟩
    · exact ⟨x, hx, rfl⟩
  refine ⟨fun j x hx => ?_, fun j k x y id hx hy hxid hyid => ?_, h.keys, fun id j hmem => ?_, h.once,
    fun j r hmem => ?_⟩
  · rcases Lists.getElem?_set_cases hx with ⟨rfl, rfl⟩ | ⟨-, hx⟩
    · exact hok
    · exact h.each j x hx
  · obtain ⟨x', hx', hxe⟩ := hback j x hx
    obtain ⟨y', hy', hye⟩ := hback k y hy
    exact h.unique j k x' y' id hx' hy' (hxe ▸ hxid) (hye ▸ hyid)
  · obtain ⟨x, hx, hxid, hxslot, hxlate⟩ := h.pending id j hmem
    by_cases hji : j = i
    · subst hji
      obtain rfl := Option.some.inj (hcall.symm.trans hx)
      refine ⟨call', hself, hid.trans hxid, hslot.trans hxslot, ?_⟩
      by_contra hset
      rw [hearly (by simpa using hset)] at hxlate
      cases hxlate
    · exact ⟨x, (List.getElem?_set_ne (Ne.symm hji)).trans hx, hxid, hxslot, hxlate⟩
  · obtain ⟨x, hx, hxslot⟩ := h.resolved j r hmem
    by_cases hji : j = i
    · subst hji
      obtain rfl := Option.some.inj (hcall.symm.trans hx)
      exact ⟨call', hself, hslot.trans hxslot⟩
    · exact ⟨x, (List.getElem?_set_ne (Ne.symm hji)).trans hx, hxslot⟩

/-- A new call. -/
theorem CallsOk.append {call' : Call ε} (h : CallsOk c) (hid : call'.id = none) (hphase : call'.phase.id = none)
    (hslot : call'.slot = none) : CallsOk { c with calls := c.calls ++ [call'] } := by
  have hold : ∀ (j : ℕ) (x : Call ε), c.calls[j]? = some x → (c.calls ++ [call'])[j]? = some x := by
    intro j x hx
    exact Lists.getElem?_append_of_some hx _
  have hback : ∀ (j : ℕ) (x : Call ε), (c.calls ++ [call'])[j]? = some x → c.calls[j]? = some x ∨ x = call' :=
    fun j x hx => Lists.getElem?_concat_cases hx
  refine ⟨fun j x hx => ?_, fun j k x y id hx hy hxid hyid => ?_, h.keys, fun id j hmem => ?_, h.once,
    fun j r hmem => ?_⟩
  · rcases hback j x hx with hx | rfl
    · exact h.each j x hx
    · refine ⟨fun id hset => ?_, fun id hset => ?_, fun _ => hslot⟩
      · rw [hid] at hset
        cases hset
      · rw [hphase] at hset
        cases hset
  · rcases hback j x hx with hx | rfl
    · rcases hback k y hy with hy | rfl
      · exact h.unique j k x y id hx hy hxid hyid
      · rw [hid] at hyid
        cases hyid
    · rw [hid] at hxid
      cases hxid
  · obtain ⟨x, hx, hrest⟩ := h.pending id j hmem
    exact ⟨x, hold j x hx, hrest⟩
  · obtain ⟨x, hx, hxslot⟩ := h.resolved j r hmem
    exact ⟨x, hold j x hx, hxslot⟩

theorem CallsOk.allocate (h : CallsOk c) (hcall : c.calls[i]? = some call) (hphase : call.phase = .allocating)
    (hroom : c.nextId.toNat + 1 < 2 ^ 64) :
    CallsOk { c.set i { call with phase := .inserting c.nextId, id := some c.nextId } with nextId := c.nextId + 1 } := by
  have hnext : c.nextId < c.nextId + 1 := by
    rw [UInt64.lt_iff_toNat_lt, UInt64.toNat_add, UInt64.toNat_one, Nat.mod_eq_of_lt hroom]
    exact Nat.lt_succ_self _
  have hlater : ∀ id, id < c.nextId → id < c.nextId + 1 := fun id hlt => UInt64.lt_trans hlt hnext
  have hslot : call.slot = none := (h.each i call hcall).fresh (by rw [hphase]; rfl)
  -- nobody has the new id
  have hnew : ∀ (j : ℕ) (x : Call ε), c.calls[j]? = some x → x.id ≠ some c.nextId := by
    intro j x hx hid
    exact absurd ((h.each j x hx).below _ hid) (UInt64.lt_irrefl _)
  refine ⟨fun j x hx => ?_, fun j k x y id hx hy hxid hyid => ?_, h.keys, fun id j hmem => ?_, h.once,
    fun j r hmem => ?_⟩
  · rcases Lists.getElem?_set_cases hx with ⟨rfl, rfl⟩ | ⟨-, hx⟩
    · refine ⟨fun id hid => ?_, fun id hid => hid, fun _ => hslot⟩
      cases hid
      exact hnext
    · exact { h.each j x hx with below := fun id hid => hlater id ((h.each j x hx).below id hid) }
  · rcases Lists.getElem?_set_cases hx with ⟨rfl, rfl⟩ | ⟨-, hxold⟩
    · rcases Lists.getElem?_set_cases hy with ⟨rfl, -⟩ | ⟨-, hyold⟩
      · rfl
      · cases hxid
        exact absurd hyid (hnew k y hyold)
    · rcases Lists.getElem?_set_cases hy with ⟨rfl, rfl⟩ | ⟨-, hy⟩
      · cases hyid
        exact absurd hxid (hnew j x hxold)
      · exact h.unique j k x y id hxold hy hxid hyid
  · obtain ⟨x, hx, hrest⟩ := h.pending id j hmem
    have hji : j ≠ i := by
      rintro rfl
      obtain rfl := Option.some.inj (hcall.symm.trans hx)
      rw [hphase] at hrest
      cases hrest.2.2
    exact ⟨x, (List.getElem?_set_ne (Ne.symm hji)).trans hx, hrest⟩
  · obtain ⟨x, hx, hxslot⟩ := h.resolved j r hmem
    have hji : j ≠ i := by
      rintro rfl
      obtain rfl := Option.some.inj (hcall.symm.trans hx)
      rw [hslot] at hxslot
      cases hxslot
    exact ⟨x, (List.getElem?_set_ne (Ne.symm hji)).trans hx, hxslot⟩

theorem CallsOk.insert {id : UInt64} (h : CallsOk c) (hcall : c.calls[i]? = some call)
    (hphase : call.phase = .inserting id) :
    CallsOk { c.set i { call with phase := .sending id } with pending := (id, i) :: c.pending.filter (·.1 ≠ id) } := by
  have hok := h.each i call hcall
  have hslot : call.slot = none := hok.fresh (by rw [hphase]; rfl)
  have hid : call.id = some id := hok.phase id (by rw [hphase]; rfl)
  have hset : CallsOk (c.set i { call with phase := .sending id }) := by
    refine h.update hcall ⟨hok.below, fun id' hid' => ?_, fun hearly => by cases hearly⟩ rfl rfl fun hearly => by
      cases hearly
    cases hid'
    exact hid
  have hless : CallsOk { c.set i { call with phase := .sending id } with
    pending := c.pending.filter (·.1 ≠ id) } := hset.shrink List.filter_sublist
  refine { hless with keys := ?_, pending := fun id' j hmem => ?_ }
  · rw [List.map_cons, List.nodup_cons]
    refine ⟨fun hmem => ?_, hless.keys⟩
    obtain ⟨entry, hentry, heq⟩ := List.mem_map.mp hmem
    simpa [heq] using (List.mem_filter.mp hentry).2
  · rcases List.mem_cons.mp hmem with heq | hmem
    · cases heq
      exact ⟨_, Lists.getElem?_set_self_of_some hcall, hid, hslot, rfl⟩
    · exact hless.pending id' j hmem

theorem CallOk.move {nextId : UInt64} {phase : CallPhase ε} (h : CallOk nextId call)
    (hid : ∀ id, phase.id = some id → call.id = some id) (hlate : phase.early = false) :
    CallOk nextId { call with phase := phase } := by
  refine ⟨h.below, hid, fun hearly => ?_⟩
  rw [hlate] at hearly
  cases hearly

theorem CallsOk.move {phase : CallPhase ε} (h : CallsOk c) (hcall : c.calls[i]? = some call)
    (hid : ∀ id, phase.id = some id → call.phase.id = some id) (hlate : phase.early = false) :
    CallsOk (c.set i { call with phase := phase }) := by
  have hok := h.each i call hcall
  refine h.update hcall (hok.move (fun id hset => hok.phase id (hid id hset)) hlate) rfl rfl fun hearly => ?_
  rw [hlate] at hearly
  cases hearly

theorem callsOk_move {closedError : ε} {accepts : Bool} (h : CallsOk c) (hcall : c.calls[i]? = some call)
    (hmove : CallMove c closedError accepts i call c' frame) : CallsOk c' := by
  cases hmove with
  | allocates hphase hroom => exact h.allocate hcall hphase hroom
  | inserts hphase => exact h.insert hcall hphase
  | sends hphase => exact h.move hcall (fun id hset => by rw [hphase]; exact hset) rfl
  | refused hphase hnext =>
    rcases hnext with rfl | rfl
    · exact h.move hcall (fun id hset => by rw [hphase]; exact hset) rfl
    · exact h.move hcall (fun id hset => by cases hset) rfl
  | wakes => exact h.move hcall (fun id hset => by cases hset) rfl
  | removes =>
    have hset : CallsOk (c.set i { call with phase := .returned (.error closedError) }) :=
      h.move hcall (fun id hset => by cases hset) rfl
    exact hset.shrink List.filter_sublist

/-- Senders are used: those of the calls `l`, which leave the map. -/
theorem CallsOk.resolve {l : List ℕ} {pending : List (UInt64 × ℕ)} {result : Except ε Value} (h : CallsOk c)
    (hl : l.Nodup) (hwaiting : ∀ i ∈ l, ∃ id, (id, i) ∈ c.pending) (hsub : pending.Sublist c.pending)
    (hleft : ∀ id i, (id, i) ∈ pending → i ∉ l) :
    CallsOk { l.foldl (Calls.resolve · result) c with pending := pending } := by
  obtain ⟨hnext, hresolved, hcalls⟩ := foldl_resolve result l c
  have hslot : ∀ i ∈ l, ∀ x : Call ε, c.calls[i]? = some x → x.slot = none ∧ x.phase.early = false := by
    intro i hi x hx
    obtain ⟨id, hmem⟩ := hwaiting i hi
    obtain ⟨y, hy, -, hrest⟩ := h.pending id i hmem
    obtain rfl := Option.some.inj (hx.symm.trans hy)
    exact hrest
  have hback : ∀ (j : ℕ) (x : Call ε), (l.foldl (Calls.resolve · result) c).calls[j]? = some x →
      ∃ y : Call ε, c.calls[j]? = some y ∧ x = if j ∈ l then { y with slot := some result } else y := by
    intro j x hx
    rw [hcalls] at hx
    obtain ⟨y, hy, rfl⟩ := Option.map_eq_some_iff.mp hx
    exact ⟨y, hy, rfl⟩
  have hforth : ∀ (j : ℕ) (y : Call ε), c.calls[j]? = some y → j ∉ l →
      (l.foldl (Calls.resolve · result) c).calls[j]? = some y := by
    intro j y hy hj
    rw [hcalls, hy, Option.map_some, if_neg hj]
  refine ⟨fun j x hx => ?_, fun j k x y id hx hy hxid hyid => ?_, h.keys.sublist (hsub.map _), fun id j hmem => ?_, ?_,
    fun j r hmem => ?_⟩
  · obtain ⟨y, hy, rfl⟩ := hback j x hx
    rw [hnext]
    split_ifs with hj
    · have hok := h.each j y hy
      refine ⟨hok.below, hok.phase, fun hearly => ?_⟩
      have hearly : y.phase.early = true := hearly
      rw [(hslot j hj y hy).2] at hearly
      cases hearly
    · exact h.each j y hy
  · obtain ⟨x', hx', rfl⟩ := hback j x hx
    obtain ⟨y', hy', rfl⟩ := hback k y hy
    refine h.unique j k x' y' id hx' hy' ?_ ?_
    · split_ifs at hxid <;> exact hxid
    · split_ifs at hyid <;> exact hyid
  · obtain ⟨x, hx, hrest⟩ := h.pending id j (hsub.subset hmem)
    exact ⟨x, hforth j x hx (hleft id j hmem), hrest⟩
  · dsimp only
    rw [hresolved, List.map_append, List.map_map]
    refine List.nodup_append.mpr ⟨h.once, ?_, fun a ha b hb hab => ?_⟩
    · simpa [Function.comp_def] using hl
    · subst hab
      obtain ⟨⟨i, r⟩, hmem, rfl⟩ := List.mem_map.mp ha
      obtain ⟨x, hx, hxslot⟩ := h.resolved i r hmem
      have hi : i ∈ l := by simpa [Function.comp_def] using hb
      rw [(hslot i hi x hx).1] at hxslot
      cases hxslot
  · dsimp only at hmem
    rw [hresolved] at hmem
    rcases List.mem_append.mp hmem with hmem | hmem
    · obtain ⟨x, hx, hxslot⟩ := h.resolved j r hmem
      have hj : j ∉ l := fun hj => by
        rw [(hslot j hj x hx).1] at hxslot
        cases hxslot
      exact ⟨x, hforth j x hx hj, hxslot⟩
    · obtain ⟨i, hi, heq⟩ := List.mem_map.mp hmem
      cases heq
      obtain ⟨id, hin⟩ := hwaiting j hi
      obtain ⟨x, hx, -⟩ := h.pending id j hin
      refine ⟨{ x with slot := some result }, ?_, rfl⟩
      rw [hcalls, hx, Option.map_some, if_pos hi]

/-- A call has at most one sender in the map. -/
theorem CallsOk.key_of_call {id id' : UInt64} (h : CallsOk c) (hmem : (id, i) ∈ c.pending)
    (hmem' : (id', i) ∈ c.pending) :
    id = id' := by
  obtain ⟨x, hx, hid, -⟩ := h.pending id i hmem
  obtain ⟨y, hy, hid', -⟩ := h.pending id' i hmem'
  obtain rfl := Option.some.inj (hx.symm.trans hy)
  exact Option.some.inj (hid.symm.trans hid')

theorem CallsOk.respond {id : UInt64} {result : Except ε Value} (h : CallsOk c) (hlookup : c.pending.lookup id = some i) :
    CallsOk (c.respond id i result) := by
  have hmem : (id, i) ∈ c.pending := Lists.mem_of_lookup_eq_some hlookup
  refine h.resolve (l := [i]) (List.nodup_singleton i) (fun j hj => ?_) List.filter_sublist fun id' j hin hj => ?_
  · rw [List.mem_singleton.mp hj]
    exact ⟨id, hmem⟩
  · rw [List.mem_singleton.mp hj] at hin
    have hne := (List.mem_filter.mp hin).2
    rw [h.key_of_call (List.mem_filter.mp hin).1 hmem] at hne
    simp at hne

theorem CallsOk.nodup_waiting (h : CallsOk c) : (c.pending.map (·.2)).Nodup := by
  have hentries : c.pending.Nodup := List.Nodup.of_map _ h.keys
  refine hentries.map_on fun a ha b hb hab => ?_
  obtain ⟨id, i⟩ := a
  obtain ⟨id', i'⟩ := b
  dsimp only at hab
  subst hab
  rw [h.key_of_call ha hb]

theorem CallsOk.drain {err : ε} (h : CallsOk c) : CallsOk (c.drain err) := by
  refine h.resolve h.nodup_waiting (fun i hi => ?_) (List.nil_sublist _) fun id i hmem => by cases hmem
  obtain ⟨⟨id, j⟩, hmem, rfl⟩ := List.mem_map.mp hi
  exact ⟨id, hmem⟩

/-! What the callers get -/

/-- A call returns what its sender was used for, or that the connection is closed. -/
structure ReturnsOk (closedError : ε) (c : Calls ε) : Prop where
  slot : ∀ (i : ℕ) (call : Call ε) (r : Except ε Value), c.calls[i]? = some call → call.slot = some r →
    (i, r) ∈ c.resolved
  returned : ∀ (i : ℕ) (call : Call ε) (r : Except ε Value), c.calls[i]? = some call → call.phase = .returned r →
    r = .error closedError ∨ call.slot = some r

variable {closedError : ε}

theorem ReturnsOk.set {call' : Call ε} {pending : List (UInt64 × ℕ)} {nextId : UInt64} (h : ReturnsOk closedError c)
    (hcall : c.calls[i]? = some call) (hslot : call'.slot = call.slot)
    (hreturned : ∀ r, call'.phase = .returned r → r = .error closedError ∨ call'.slot = some r) :
    ReturnsOk closedError { c.set i call' with pending := pending, nextId := nextId } := by
  refine ⟨fun j x r hx hxslot => ?_, fun j x r hx hphase => ?_⟩
  · rcases Lists.getElem?_set_cases hx with ⟨rfl, rfl⟩ | ⟨-, hx⟩
    · exact h.slot j call r hcall (hslot.symm.trans hxslot)
    · exact h.slot j x r hx hxslot
  · rcases Lists.getElem?_set_cases hx with ⟨rfl, rfl⟩ | ⟨-, hx⟩
    · exact hreturned r hphase
    · exact h.returned j x r hx hphase

theorem ReturnsOk.append {call' : Call ε} (h : ReturnsOk closedError c) (hslot : call'.slot = none)
    (hphase : call'.phase.early = true) : ReturnsOk closedError { c with calls := c.calls ++ [call'] } := by
  refine ⟨fun j x r hx hxslot => ?_, fun j x r hx hxphase => ?_⟩
  · rcases Lists.getElem?_concat_cases hx with hx | rfl
    · exact h.slot j x r hx hxslot
    · rw [hslot] at hxslot
      cases hxslot
  · rcases Lists.getElem?_concat_cases hx with hx | rfl
    · exact h.returned j x r hx hxphase
    · rw [hxphase] at hphase
      cases hphase

theorem returnsOk_move {accepts : Bool} (h : ReturnsOk closedError c) (hcall : c.calls[i]? = some call)
    (hmove : CallMove c closedError accepts i call c' frame) : ReturnsOk closedError c' := by
  cases hmove with
  | allocates => exact h.set hcall rfl fun r hset => by cases hset
  | inserts => exact h.set hcall rfl fun r hset => by cases hset
  | sends => exact h.set hcall rfl fun r hset => by cases hset
  | refused _ hnext =>
    refine h.set hcall rfl fun r hset => ?_
    rcases hnext with rfl | rfl
    · cases hset
    · cases hset
      exact Or.inl rfl
  | wakes _ hslot =>
    refine h.set hcall rfl fun r hset => ?_
    cases hset
    exact Or.inr hslot
  | removes =>
    refine h.set hcall rfl fun r hset => ?_
    cases hset
    exact Or.inl rfl

theorem ReturnsOk.resolve {l : List ℕ} {pending : List (UInt64 × ℕ)} {result : Except ε Value}
    (h : ReturnsOk closedError c) (hok : CallsOk c) (hwaiting : ∀ i ∈ l, ∃ id, (id, i) ∈ c.pending) :
    ReturnsOk closedError { l.foldl (Calls.resolve · result) c with pending := pending } := by
  obtain ⟨-, hresolved, hcalls⟩ := foldl_resolve result l c
  refine ⟨fun j x r hx hslot => ?_, fun j x r hx hphase => ?_⟩
  · dsimp only at hx ⊢
    rw [hcalls] at hx
    obtain ⟨y, hy, rfl⟩ := Option.map_eq_some_iff.mp hx
    rw [hresolved]
    split_ifs at hslot with hj
    · cases hslot
      exact List.mem_append_right _ (List.mem_map_of_mem hj)
    · exact List.mem_append_left _ (h.slot j y r hy hslot)
  · dsimp only at hx
    rw [hcalls] at hx
    obtain ⟨y, hy, rfl⟩ := Option.map_eq_some_iff.mp hx
    split_ifs at hphase ⊢ with hj
    · -- a call with a sender in the map has not got anything
      obtain ⟨id, hmem⟩ := hwaiting j hj
      obtain ⟨z, hz, -, hnone, -⟩ := hok.pending id j hmem
      obtain rfl := Option.some.inj (hy.symm.trans hz)
      refine Or.inl ((h.returned j y r hy hphase).resolve_right fun hset => ?_)
      rw [hnone] at hset
      cases hset
    · exact h.returned j y r hy hphase

/-! Who still waits -/

/-- A call that waits with its sender in the map has an id with `P`. -/
def WaitersIn (P : UInt64 → Prop) (calls : List (Call ε)) (pending : List (UInt64 × ℕ)) : Prop :=
  ∀ (id : UInt64) (j : ℕ) (x : Call ε), (id, j) ∈ pending → calls[j]? = some x → x.phase = .waiting id → P id

section Waiters
variable {P Q : UInt64 → Prop} {pending : List (UInt64 × ℕ)}

/-- Other calls stay as they are. -/
theorem WaitersIn.set (h : WaitersIn P c.calls c.pending) (hmore : ∀ id, P id → Q id)
    (hsub : ∀ id j, (id, j) ∈ pending → j ≠ i → (id, j) ∈ c.pending)
    (hself : ∀ id, (id, i) ∈ pending → call.phase = .waiting id → Q id) :
    WaitersIn Q (c.calls.set i call) pending := by
  intro id j x hmem hx hphase
  rcases Lists.getElem?_set_cases hx with ⟨rfl, rfl⟩ | ⟨hne, hx⟩
  · exact hself id hmem hphase
  · exact hmore id (h id j x (hsub id j hmem hne) hx hphase)

theorem WaitersIn.append (h : WaitersIn P c.calls c.pending) (hc : CallsOk c) (call : Call ε) :
    WaitersIn P (c.calls ++ [call]) c.pending := by
  intro id j x hmem hx
  obtain ⟨y, hy, -⟩ := hc.pending id j hmem
  rw [List.getElem?_append_left (List.getElem?_eq_some_iff.mp hy).1] at hx
  exact h id j x hmem hx

theorem WaitersIn.respond {id : UInt64} {result : Except ε Value} (h : WaitersIn P c.calls c.pending) :
    WaitersIn (fun k => P k ∧ k ≠ id) (c.respond id i result).calls (c.respond id i result).pending := by
  intro k j x hmem hx hphase
  have hx : (c.resolve result i).calls[j]? = some x := hx
  rw [calls_resolve] at hx
  obtain ⟨y, hy, rfl⟩ := Option.map_eq_some_iff.mp hx
  obtain ⟨hold, hne⟩ := List.mem_filter.mp hmem
  refine ⟨h k j y hold hy ?_, by simpa using hne⟩
  split_ifs at hphase <;> exact hphase

/-- The pending map as a step of a call leaves it for the others. -/
theorem mem_pending_insert {id k : UInt64} (h : (k, j) ∈ (id, i) :: c.pending.filter (·.1 ≠ id)) (hne : j ≠ i) :
    (k, j) ∈ c.pending := by
  rcases List.mem_cons.mp h with heq | hmem
  · cases heq
    exact absurd rfl hne
  · exact (List.mem_filter.mp hmem).1

end Waiters

end Nexal.Link

/-! How either program tells a response from a request: a frame without a method whose id is in
the pending map is a response, any other frame with an id is handled as a request. -/

namespace Nexal.Link

open Wire (Value mapGet)

theorem AgentConn.dispatchFrame_resolve {pending : List (UInt64 × ℕ)} {hasHandler : Bool} {value : Value} {id : UInt64}
    {i : ℕ} (h : dispatchFrame pending hasHandler value = .resolve id i) :
    responseId value = some id ∧ pending.lookup id = some i := by
  unfold dispatchFrame at h
  split at h
  · rename_i hmatch
    cases h
    obtain ⟨id', hid, hmap⟩ := Option.bind_eq_some_iff.mp hmatch
    obtain ⟨i', hi, heq⟩ := Option.map_eq_some_iff.mp hmap
    cases heq
    exact ⟨hid, hi⟩
  · split at h
    · cases h
    · split at h <;> cases h

theorem AgentConn.dispatchFrame_request {pending : List (UInt64 × ℕ)} {hasHandler : Bool} {value id : Value}
    {method : String} {params : Option Value} (h : dispatchFrame pending hasHandler value = .request id method params) :
    mapGet value "id" = some id ∧ hasHandler = true ∧ (∀ k, responseId value = some k → pending.lookup k = none) ∧
      method = (mapStr value "method").getD "" := by
  unfold dispatchFrame at h
  split at h
  · cases h
  · rename_i hmatch
    cases hid : mapGet value "id" with
    | none =>
      simp only [hid] at h
      split at h <;> cases h
    | some id' =>
      cases hasHandler with
      | false =>
        simp only [hid] at h
        split at h <;> cases h
      | true =>
        simp only [hid] at h
        cases h
        refine ⟨rfl, rfl, fun k hk => ?_, rfl⟩
        rw [hk, Option.bind_some, Option.map_eq_none_iff] at hmatch
        exact hmatch

theorem AgentChannel.tryResolvePending_some {calls calls' : Calls String} {value : Value} {id : UInt64}
    (h : tryResolvePending calls value = some (id, calls')) :
    ∃ i, responseId value = some id ∧ calls.pending.lookup id = some i ∧
      calls' = calls.respond id i (agentResult value) := by
  obtain ⟨id', hid, hmap⟩ := Option.bind_eq_some_iff.mp h
  obtain ⟨i, hi, heq⟩ := Option.map_eq_some_iff.mp hmap
  cases heq
  exact ⟨i, hid, hi, rfl⟩

theorem AgentChannel.tryResolvePending_none {calls : Calls String} {value : Value}
    (h : tryResolvePending calls value = none) : ∀ k, responseId value = some k → calls.pending.lookup k = none := by
  intro k hk
  rw [tryResolvePending, hk, Option.bind_some, Option.map_eq_none_iff] at h
  exact h

end Nexal.Link
