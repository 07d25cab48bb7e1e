import Mathlib.Data.Multiset.Filter
import Nexal.Sanity.AgentCalls

/-! One direction of the connection: the requests of one side on their way, at work on the other
side, and their responses on the way back. Every id has at most one such place, and its call has
its sender in the map as long as the side reads responses. -/

namespace Nexal.Link

open Wire (Value mapGet)

/-- A frame and where it is, seen from the side whose requests these are. -/
inductive Item where
  | request (frame : Value)
  | serving (frame : Value)
  | response (frame : Value)

def Item.token : Item → Option UInt64
  | .request f => if hasMethod f then frameId f else none
  | .serving f => frameId f
  | .response f => responseId f

variable {ε : Type}

def Item.Of (handled : List (Value × Value)) (call : Call ε) (id : UInt64) : Item → Prop
  | .request f | .serving f => f = call.frame id
  | .response f => (call.frame id, f) ∈ handled

def CallPhase.unsent : CallPhase ε → Bool
  | .checking | .allocating | .inserting _ | .sending _ | .removing _ => true
  | .waiting _ | .returned _ => false

structure FlowInv (calls : Calls ε) (handled : List (Value × Value)) (live : Bool) (items : Multiset Item) : Prop where
  ok : ∀ x ∈ items, ∀ id, x.token = some id → ∃ (i : ℕ) (call : Call ε), calls.calls[i]? = some call ∧
    call.id = some id ∧ x.Of handled call id ∧ (live = true → (id, i) ∈ calls.pending)
  once : (items.filterMap Item.token).Nodup
  unsent : ∀ (i : ℕ) (call : Call ε) (id : UInt64), calls.calls[i]? = some call → call.id = some id →
    call.phase.unsent = true → id ∉ items.filterMap Item.token
  ready : live = true → ∀ (i : ℕ) (call : Call ε) (id : UInt64), calls.calls[i]? = some call →
    call.phase = .sending id → (id, i) ∈ calls.pending

variable {calls calls' : Calls ε} {handled : List (Value × Value)} {live : Bool} {items items' : Multiset Item}
  {x y : Item}

/-- Items get lost. -/
theorem FlowInv.lose (h : FlowInv calls handled live items) (hle : items' ≤ items) :
    FlowInv calls handled live items' := by
  have htokens := Multiset.filterMap_le_filterMap Item.token hle
  exact ⟨fun x hx => h.ok x (Multiset.mem_of_le hle hx), Multiset.nodup_of_le htokens h.once,
    fun i call id hcall hid hunsent hmem => h.unsent i call id hcall hid hunsent (Multiset.mem_of_le htokens hmem),
    h.ready⟩

/-- A frame that means nothing to the side. -/
theorem FlowInv.add (h : FlowInv calls handled live items) (hx : x.token = none) :
    FlowInv calls handled live (x ::ₘ items) := by
  have htokens : (x ::ₘ items).filterMap Item.token = items.filterMap Item.token :=
    Multiset.filterMap_cons_none x items hx
  refine ⟨fun y hy id hid => ?_, htokens ▸ h.once, htokens ▸ h.unsent, h.ready⟩
  rcases Multiset.mem_cons.mp hy with rfl | hy
  · rw [hx] at hid
    cases hid
  · exact h.ok y hy id hid

/-- An item moves on, with its token. -/
theorem FlowInv.replace {handled' : List (Value × Value)} (h : FlowInv calls handled live (x ::ₘ items))
    (htoken : y.token = x.token)
    (hof : ∀ (call : Call ε) (id : UInt64), x.token = some id → x.Of handled call id → y.Of handled' call id)
    (hmore : handled ⊆ handled') : FlowInv calls handled' live (y ::ₘ items) := by
  have htokens : (y ::ₘ items).filterMap Item.token = (x ::ₘ items).filterMap Item.token := by
    cases hx : x.token with
    | none => rw [Multiset.filterMap_cons_none _ _ hx, Multiset.filterMap_cons_none _ _ (htoken.trans hx)]
    | some id => rw [Multiset.filterMap_cons_some _ _ _ hx, Multiset.filterMap_cons_some _ _ _ (htoken.trans hx)]
  refine ⟨fun z hz id hid => ?_, htokens ▸ h.once, htokens ▸ h.unsent, h.ready⟩
  rcases Multiset.mem_cons.mp hz with rfl | hz
  · obtain ⟨i, call, hcall, hcid, hin, hlive⟩ := h.ok x (Multiset.mem_cons_self x items) id (htoken ▸ hid)
    exact ⟨i, call, hcall, hcid, hof call id (htoken ▸ hid) hin, hlive⟩
  · obtain ⟨i, call, hcall, hcid, hin, hlive⟩ := h.ok z (Multiset.mem_cons_of_mem hz) id hid
    refine ⟨i, call, hcall, hcid, ?_, hlive⟩
    cases z with
    | request f | serving f => exact hin
    | response f => exact hmore hin

theorem mem_tokens {id : UInt64} (hx : x ∈ items) (hid : x.token = some id) : id ∈ items.filterMap Item.token :=
  (Multiset.mem_filterMap _ _).mpr ⟨x, hx, hid⟩

/-- The calls change, but not those that own an item. -/
theorem FlowInv.recall (h : FlowInv calls handled live items)
    (howner : ∀ (j : ℕ) (x : Call ε) (id : UInt64), calls.calls[j]? = some x → x.id = some id →
      id ∈ items.filterMap Item.token → ∃ x' : Call ε, calls'.calls[j]? = some x' ∧ x'.id = x.id ∧
        x'.method = x.method ∧ x'.params = x.params)
    (hpending : live = true → ∀ id j, (id, j) ∈ calls.pending → id ∈ items.filterMap Item.token →
      (id, j) ∈ calls'.pending)
    (hunsent : ∀ (j : ℕ) (x : Call ε) (id : UInt64), calls'.calls[j]? = some x → x.id = some id →
      x.phase.unsent = true → id ∉ items.filterMap Item.token)
    (hready : live = true → ∀ (j : ℕ) (x : Call ε) (id : UInt64), calls'.calls[j]? = some x →
      x.phase = .sending id → (id, j) ∈ calls'.pending) : FlowInv calls' handled live items := by
  refine ⟨fun x hx id hid => ?_, h.once, hunsent, hready⟩
  have hmem := mem_tokens hx hid
  obtain ⟨i, call, hcall, hcid, hof, hlive⟩ := h.ok x hx id hid
  obtain ⟨call', hcall', hid', hmethod, hparams⟩ := howner i call id hcall hcid hmem
  have hframe : call'.frame id = call.frame id := by rw [Call.frame, hmethod, hparams, Call.frame]
  refine ⟨i, call', hcall', hid'.trans hcid, ?_, fun hset => hpending hset id i (hlive hset) hmem⟩
  cases x with
  | request f | serving f => exact hof.trans hframe.symm
  | response f =>
    have hin : (call.frame id, f) ∈ handled := hof
    rw [← hframe] at hin
    exact hin

/-- One call is rewritten. -/
theorem FlowInv.set {i : ℕ} {call call' : Call ε} {pending : List (UInt64 × ℕ)} {nextId : UInt64}
    (h : FlowInv calls handled live items) (hcall : calls.calls[i]? = some call)
    (hown : ∀ id, call.id = some id → id ∈ items.filterMap Item.token → call'.id = some id)
    (hmethod : call'.method = call.method) (hparams : call'.params = call.params)
    (hpending : ∀ id j, (id, j) ∈ calls.pending → (id ∈ items.filterMap Item.token ∨ j ≠ i) →
      (id, j) ∈ pending)
    (hunsent : ∀ id, call'.id = some id → call'.phase.unsent = true → id ∉ items.filterMap Item.token)
    (hready : ∀ id, call'.phase = .sending id → live = true → (id, i) ∈ pending) :
    FlowInv { calls.set i call' with pending := pending, nextId := nextId } handled live items := by
  refine h.recall (fun j x id hx hid hmem => ?_) (fun _ id j hin hmem => hpending id j hin (Or.inl hmem))
    (fun j x id hx hid hphase => ?_) fun hlive j x id hx hphase => ?_
  · by_cases hji : j = i
    · subst hji
      obtain rfl := Option.some.inj (hcall.symm.trans hx)
      refine ⟨call', Lists.getElem?_set_self_of_some hcall, ?_, hmethod, hparams⟩
      rw [hown id hid hmem, hid]
    · exact ⟨x, (List.getElem?_set_ne (Ne.symm hji)).trans hx, rfl, rfl, rfl⟩
  · rcases Lists.getElem?_set_cases hx with ⟨rfl, rfl⟩ | ⟨-, hx⟩
    · exact hunsent id hid hphase
    · exact h.unsent j x id hx hid hphase
  · rcases Lists.getElem?_set_cases hx with ⟨rfl, rfl⟩ | ⟨hne, hx⟩
    · exact hready id hphase hlive
    · exact hpending id j (h.ready hlive j x id hx hphase) (Or.inr hne)

theorem FlowInv.token_lt {id : UInt64} (h : FlowInv calls handled live items) (hok : CallsOk calls)
    (hmem : id ∈ items.filterMap Item.token) : id < calls.nextId := by
  obtain ⟨x, hx, hid⟩ := (Multiset.mem_filterMap _ _).mp hmem
  obtain ⟨i, call, hcall, hcid, -⟩ := h.ok x hx id hid
  exact (hok.each i call hcall).below id hcid

/-- What the item of a call that goes on is: nothing before the request is sent, then that. -/
theorem flowInv_move {closedError : ε} {accepts : Bool} {i : ℕ} {call : Call ε} {frame : Option Value}
    (h : FlowInv calls handled live items) (hok : CallsOk calls) (hcall : calls.calls[i]? = some call)
    (hmove : CallMove calls closedError accepts i call calls' frame) :
    FlowInv calls' handled live ((frame.map Item.request).elim items (· ::ₘ items)) := by
  have hnot : ∀ id, call.id = some id → call.phase.unsent = true → id ∉ items.filterMap Item.token :=
    fun id => h.unsent i call id hcall
  have hphaseId := (hok.each i call hcall).phase
  cases hmove with
  | allocates hphase hroom =>
    refine h.set hcall (fun id hid hmem => ?_) rfl rfl (fun id j hin _ => hin) (fun id hid _ hmem => ?_) fun id hset => ?_
    · exact absurd hmem (hnot id hid (by rw [hphase]; rfl))
    · cases hid
      exact UInt64.lt_irrefl _ (h.token_lt hok hmem)
    · cases hset
  | @inserts id hphase =>
    have hid : call.id = some id := hphaseId id (by rw [hphase]; rfl)
    have hfree := hnot id hid (by rw [hphase]; rfl)
    refine h.set hcall (fun id' hid' _ => hid') rfl rfl (fun id' j hin hor => ?_) (fun id' hid' _ => ?_) fun id' hset _ => ?_
    · refine List.mem_cons_of_mem _ (List.mem_filter.mpr ⟨hin, ?_⟩)
      have hne : id' ≠ id := by
        rintro rfl
        rcases hor with hmem | hji
        · exact hfree hmem
        · -- the key belongs to this call alone
          obtain ⟨x, hx, hxid, -⟩ := hok.pending id' j hin
          exact hji (hok.unique j i x call id' hx hcall hxid hid)
      simpa using hne
    · rw [hid] at hid'
      cases hid'
      exact hfree
    · cases hset
      exact List.mem_cons_self
  | @sends id hphase haccepts =>
    have hid : call.id = some id := hphaseId id (by rw [hphase]; rfl)
    have hfree := hnot id hid (by rw [hphase]; rfl)
    have hset : FlowInv (calls.set i { call with phase := .waiting id }) handled live items :=
      h.set hcall (fun id' hid' _ => hid') rfl rfl (fun id' j hin _ => hin) (fun id' _ hset => by cases hset)
        fun id' hset => by cases hset
    have htoken : (Item.request (call.frame id)).token = some id := by
      have hmethod : hasMethod (call.frame id) = true := hasMethod_request id _ _
      rw [Item.token, if_pos hmethod]
      exact frameId_request id _ _
    refine ⟨fun x hx id' hid' => ?_, ?_, fun j x id' hx hxid hunsent => ?_, hset.ready⟩
    · rcases Multiset.mem_cons.mp hx with rfl | hx
      · obtain rfl := Option.some.inj (htoken.symm.trans hid')
        exact ⟨i, _, Lists.getElem?_set_self_of_some hcall, hid, rfl, fun hlive => h.ready hlive i call id hcall hphase⟩
      · exact hset.ok x hx id' hid'
    · change (Multiset.filterMap Item.token (Item.request (call.frame id) ::ₘ items)).Nodup
      rw [Multiset.filterMap_cons_some _ _ _ htoken, Multiset.nodup_cons]
      exact ⟨hfree, h.once⟩
    · change id' ∉ Multiset.filterMap Item.token (Item.request (call.frame id) ::ₘ items)
      rw [Multiset.filterMap_cons_some _ _ _ htoken, Multiset.mem_cons, not_or]
      refine ⟨?_, hset.unsent j x id' hx hxid hunsent⟩
      rintro rfl
      rcases Lists.getElem?_set_cases hx with ⟨rfl, rfl⟩ | ⟨hne, hx⟩
      · cases hunsent
      · exact hne (hok.unique j i x call id' hx hcall hxid hid)
  | @refused id phase hphase hnext =>
    refine h.set hcall (fun id' hid' _ => hid') rfl rfl (fun id' j hin _ => hin) (fun id' hid' _ => ?_) fun id' hset => ?_
    · exact hnot id' hid' (by rw [hphase]; rfl)
    · rcases hnext with rfl | rfl <;> cases hset
  | wakes hphase hslot =>
    exact h.set hcall (fun id' hid' _ => hid') rfl rfl (fun id' j hin _ => hin) (fun id' _ hset => by cases hset)
      fun id' hset => by cases hset
  | @removes id hphase =>
    have hid : call.id = some id := hphaseId id (by rw [hphase]; rfl)
    have hfree := hnot id hid (by rw [hphase]; rfl)
    refine h.set hcall (fun id' hid' _ => hid') rfl rfl (fun id' j hin hor => ?_) (fun id' _ hset => by cases hset)
      fun id' hset => by cases hset
    refine List.mem_filter.mpr ⟨hin, ?_⟩
    have hne : id' ≠ id := by
      rintro rfl
      rcases hor with hmem | hji
      · exact hfree hmem
      · obtain ⟨x, hx, hxid, -⟩ := hok.pending id' j hin
        exact hji (hok.unique j i x call id' hx hcall hxid hid)
    simpa using hne

theorem flowInv_append {call' : Call ε} (h : FlowInv calls handled live items) (hid : call'.id = none)
    (hphase : call'.phase.id = none) : FlowInv { calls with calls := calls.calls ++ [call'] } handled live items := by
  have hback : ∀ (j : ℕ) (x : Call ε), (calls.calls ++ [call'])[j]? = some x →
    calls.calls[j]? = some x ∨ x = call' :=
    fun j x hx => Lists.getElem?_concat_cases hx
  refine h.recall (fun j x id hx _ _ => ⟨x, ?_, rfl, rfl, rfl⟩) (fun _ id j hin _ => hin)
    (fun j x id hx hxid hunsent => ?_)
    fun hlive j x id hx hsending => ?_
  · exact Lists.getElem?_append_of_some hx _
  · rcases hback j x hx with hx | rfl
    · exact h.unsent j x id hx hxid hunsent
    · rw [hid] at hxid
      cases hxid
  · rcases hback j x hx with hx | rfl
    · exact h.ready hlive j x id hx hsending
    · rw [hsending] at hphase
      cases hphase

/-- The calls keep all but the slot of their senders. -/
theorem flowInv_resolve {l : List ℕ} {result : Except ε Value} {pending : List (UInt64 × ℕ)}
    (h : FlowInv calls handled live items)
    (hpending : live = true → ∀ id j, (id, j) ∈ calls.pending →
      (id ∈ items.filterMap Item.token ∨ ∃ x : Call ε, calls.calls[j]? = some x ∧ x.phase = .sending id) →
      (id, j) ∈ pending) :
    FlowInv { l.foldl (Calls.resolve · result) calls with pending := pending } handled live items := by
  obtain ⟨-, -, hcalls⟩ := foldl_resolve result l calls
  have hback : ∀ (j : ℕ) (x : Call ε), (l.foldl (Calls.resolve · result) calls).calls[j]? = some x →
      ∃ y : Call ε, calls.calls[j]? = some y ∧ y.id = x.id ∧ y.phase = x.phase := by
    intro j x hx
    rw [hcalls] at hx
    obtain ⟨y, hy, rfl⟩ := Option.map_eq_some_iff.mp hx
    split_ifs
    · exact ⟨y, hy, rfl, rfl⟩
    · exact ⟨y, hy, rfl, rfl⟩
  refine h.recall (fun j x id hx _ _ => ?_) (fun hlive id j hin hmem => hpending hlive id j hin (Or.inl hmem))
    (fun j x id hx hxid hunsent => ?_) fun hlive j x id hx hsending => ?_
  · refine ⟨if j ∈ l then { x with slot := some result } else x, ?_, ?_⟩
    · rw [hcalls, hx, Option.map_some]
    · split_ifs
      · exact ⟨rfl, rfl, rfl⟩
      · exact ⟨rfl, rfl, rfl⟩
  · obtain ⟨y, hy, hid, hphase⟩ := hback j x hx
    exact h.unsent j y id hy (hid.trans hxid) (hphase ▸ hunsent)
  · obtain ⟨y, hy, -, hphase⟩ := hback j x hx
    exact hpending hlive id j (h.ready hlive j y id hy (hphase.trans hsending)) (Or.inr ⟨y, hy, hphase.trans hsending⟩)

/-- A response is read: it finds the sender of its call. -/
theorem FlowInv.respond {f : Value} {id : UInt64} (h : FlowInv calls handled true (.response f ::ₘ items))
    (result : Except ε Value) (hok : CallsOk calls) (hid : responseId f = some id) :
    ∃ (i : ℕ) (call : Call ε), calls.pending.lookup id = some i ∧ calls.calls[i]? = some call ∧
    call.id = some id ∧
      (call.frame id, f) ∈ handled ∧ FlowInv (calls.respond id i result) handled true items := by
  obtain ⟨i, call, hcall, hcid, hof, hlive⟩ := h.ok _ (Multiset.mem_cons_self _ _) id hid
  have hmem := hlive rfl
  have htokens : (Item.response f ::ₘ items).filterMap Item.token = id ::ₘ items.filterMap Item.token :=
    Multiset.filterMap_cons_some _ _ _ hid
  have hother : id ∉ items.filterMap Item.token := by
    have honce := h.once
    rw [htokens] at honce
    exact (Multiset.nodup_cons.mp honce).1
  refine ⟨i, call, Lists.lookup_eq_some_of_mem hok.keys hmem, hcall, hcid, hof, ?_⟩
  have hless := h.lose (Multiset.le_cons_self items (Item.response f))
  refine flowInv_resolve (l := [i]) hless fun _ id' j hin hor => List.mem_filter.mpr ⟨hin, ?_⟩
  have hne : id' ≠ id := by
    rintro rfl
    rcases hor with hmem' | ⟨x, hx, hsending⟩
    · exact hother hmem'
    · -- a call that is sending has no response
      have hxid := (hok.each j x hx).phase id' (by rw [hsending]; rfl)
      refine h.unsent j x id' hx hxid (by rw [hsending]; rfl) ?_
      rw [htokens]
      exact Multiset.mem_cons_self _ _
  simpa using hne

/-- The side stops reading. -/
theorem FlowInv.stop (h : FlowInv calls handled live items) : FlowInv calls handled false items where
  ok := fun x hx id hid => by
    obtain ⟨i, call, hcall, hcid, hof, -⟩ := h.ok x hx id hid
    exact ⟨i, call, hcall, hcid, hof, fun hset => by cases hset⟩
  once := h.once
  unsent := h.unsent
  ready := fun hset => by cases hset

theorem FlowInv.drain {err : ε} (h : FlowInv calls handled false items) : FlowInv (calls.drain err) handled false items :=
  flowInv_resolve h fun hset => by cases hset

/-! What the senders were used for -/

/-- Every result given is the reading of a response to that very request, or one of `others`. -/
def AnswersOk (calls : Calls ε) (handled : List (Value × Value)) (read : Value → Except ε Value)
    (others : Except ε Value → Prop) : Prop :=
  ∀ i r, (i, r) ∈ calls.resolved → others r ∨ ∃ (call : Call ε) (id : UInt64) (f : Value),
    calls.calls[i]? = some call ∧ call.id = some id ∧ (call.frame id, f) ∈ handled ∧ r = read f

variable {read : Value → Except ε Value} {others : Except ε Value → Prop}

theorem AnswersOk.recall (h : AnswersOk calls handled read others) (hok : CallsOk calls)
    (hcalls : ∀ (j : ℕ) (x : Call ε), calls.calls[j]? = some x → x.slot.isSome → ∃ x' : Call ε,
      calls'.calls[j]? = some x' ∧ x'.id = x.id ∧ x'.method = x.method ∧ x'.params = x.params)
    (hnew : ∀ i r, (i, r) ∈ calls'.resolved → (i, r) ∈ calls.resolved ∨ others r ∨
      ∃ (call : Call ε) (id : UInt64) (f : Value), calls'.calls[i]? = some call ∧ call.id = some id ∧
        (call.frame id, f) ∈ handled ∧ r = read f) : AnswersOk calls' handled read others := by
  intro i r hmem
  rcases hnew i r hmem with hold | hnew
  · rcases h i r hold with hother | ⟨call, id, f, hcall, hid, hin, hr⟩
    · exact Or.inl hother
    · obtain ⟨x, hx, hslot⟩ := hok.resolved i r hold
      obtain rfl := Option.some.inj (hcall.symm.trans hx)
      obtain ⟨x', hx', hid', hmethod, hparams⟩ := hcalls i call hcall (by rw [hslot]; rfl)
      refine Or.inr ⟨x', id, f, hx', hid'.trans hid, ?_, hr⟩
      rw [Call.frame, hmethod, hparams]
      exact hin
  · exact hnew

theorem answersOk_set {i : ℕ} {call call' : Call ε} {pending : List (UInt64 × ℕ)} {nextId : UInt64}
    (h : AnswersOk calls handled read others) (hok : CallsOk calls) (hcall : calls.calls[i]? = some call)
    (hid : call.slot.isSome → call'.id = call.id) (hmethod : call'.method = call.method)
    (hparams : call'.params = call.params) :
    AnswersOk { calls.set i call' with pending := pending, nextId := nextId } handled read others := by
  refine h.recall hok (fun j x hx hslot => ?_) fun j r hmem => Or.inl hmem
  by_cases hji : j = i
  · subst hji
    obtain rfl := Option.some.inj (hcall.symm.trans hx)
    exact ⟨call', Lists.getElem?_set_self_of_some hcall, hid hslot, hmethod, hparams⟩
  · exact ⟨x, (List.getElem?_set_ne (Ne.symm hji)).trans hx, rfl, rfl, rfl⟩

theorem answersOk_move {closedError : ε} {accepts : Bool} {i : ℕ} {call : Call ε} {frame : Option Value}
    (h : AnswersOk calls handled read others) (hok : CallsOk calls) (hcall : calls.calls[i]? = some call)
    (hmove : CallMove calls closedError accepts i call calls' frame) : AnswersOk calls' handled read others := by
  cases hmove with
  | allocates hphase =>
    refine answersOk_set h hok hcall (fun hslot => ?_) rfl rfl
    rw [(hok.each i call hcall).fresh (by rw [hphase]; rfl)] at hslot
    cases hslot
  | inserts => exact answersOk_set h hok hcall (fun _ => rfl) rfl rfl
  | sends => exact answersOk_set h hok hcall (fun _ => rfl) rfl rfl
  | refused => exact answersOk_set h hok hcall (fun _ => rfl) rfl rfl
  | wakes => exact answersOk_set h hok hcall (fun _ => rfl) rfl rfl
  | removes => exact answersOk_set h hok hcall (fun _ => rfl) rfl rfl

theorem answersOk_append {call' : Call ε} (h : AnswersOk calls handled read others) (hok : CallsOk calls) :
    AnswersOk { calls with calls := calls.calls ++ [call'] } handled read others := by
  refine h.recall hok (fun j x hx _ => ⟨x, ?_, rfl, rfl, rfl⟩) fun j r hmem => Or.inl hmem
  exact Lists.getElem?_append_of_some hx _

/-- Senders are used for one result. -/
theorem answersOk_resolve {l : List ℕ} {result : Except ε Value} {pending : List (UInt64 × ℕ)}
    (h : AnswersOk calls handled read others) (hok : CallsOk calls)
    (hresult : ∀ i ∈ l, others result ∨ ∃ (call : Call ε) (id : UInt64) (f : Value), calls.calls[i]? = some call ∧
      call.id = some id ∧ (call.frame id, f) ∈ handled ∧ result = read f) :
    AnswersOk { l.foldl (Calls.resolve · result) calls with pending := pending } handled read others := by
  obtain ⟨-, hresolved, hcalls⟩ := foldl_resolve result l calls
  have hforth : ∀ (j : ℕ) (x : Call ε), calls.calls[j]? = some x → ∃ x' : Call ε,
      (l.foldl (Calls.resolve · result) calls).calls[j]? = some x' ∧ x'.id = x.id ∧ x'.method = x.method ∧
        x'.params = x.params := by
    intro j x hx
    refine ⟨if j ∈ l then { x with slot := some result } else x, ?_, ?_⟩
    · rw [hcalls, hx, Option.map_some]
    · split_ifs
      · exact ⟨rfl, rfl, rfl⟩
      · exact ⟨rfl, rfl, rfl⟩
  refine h.recall hok (fun j x hx _ => hforth j x hx) fun i r hmem => ?_
  dsimp only at hmem
  rw [hresolved] at hmem
  rcases List.mem_append.mp hmem with hmem | hmem
  · exact Or.inl hmem
  · obtain ⟨j, hj, heq⟩ := List.mem_map.mp hmem
    cases heq
    rcases hresult i hj with hother | ⟨call, id, f, hcall, hid, hin, hr⟩
    · exact Or.inr (Or.inl hother)
    · obtain ⟨x', hx', hid', hmethod, hparams⟩ := hforth i call hcall
      refine Or.inr (Or.inr ⟨x', id, f, hx', hid'.trans hid, ?_, hr⟩)
      rw [Call.frame, hmethod, hparams]
      exact hin

end Nexal.Link
