import Nexal.Lib.Lists
import Nexal.Proofs.HelloReplay
import Nexal.Spec.Session

/-! The gate of a session. The loop and the forwarder each look at the flag before they go on; the
flag is set after `verify_hello` has returned without an error, and nowhere else. -/

namespace Nexal.Gateway

open Runs

/-- A `verify_hello` that has succeeded. -/
def Entry.Verified : Entry → Prop
  | .hello _ _ _ (.ok (.ok ())) => True
  | _ => False

def Entry.Guarded : Entry → Prop
  | .hello _ _ _ _ => False
  | .executed _ | .forwarded _ => True

section Invariant
variable (credentials : List (String × String)) (hmacVerify : String → String → List UInt8 → Bool)

/-- The result of a hello is that of `verify_hello`. -/
def Entry.Judged : Entry → Prop
  | .hello p now nonceCache result => (verifyHello credentials hmacVerify now nonceCache p).2 = result
  | .executed _ | .forwarded _ => True

def LoopInv (authenticated : Bool) : Loop → Prop
  | .helloLocking _ p now => checkHello credentials now p = .ok ()
  | .helloVerifying _ p now found =>
    (verifyHello credentials hmacVerify now found p).2 = checkSignature credentials hmacVerify p
  | .authenticating _ p now found => (verifyHello credentials hmacVerify now found p).2 = .ok (.ok ())
  | .running _ d => authenticated = true ∨ ∃ result, d = .ret result
  | .awaiting _ _ _ => authenticated = true
  | .receiving | .gate _ _ | .helloStarted _ _ | .ended | .panicked => True

structure GateInv (s : SessionState) : Prop where
  judged : ∀ e ∈ s.log, e.Judged credentials hmacVerify
  flag : s.authenticated = true ↔ ∃ e ∈ s.log, e.Verified
  gated : Lists.Preceded Entry.Guarded Entry.Verified s.log
  loop : LoopInv credentials hmacVerify s.authenticated s.loop
  sending : ∀ n, s.forwarder = .sending n → s.authenticated = true

end Invariant

variable {codec : Codec} {proxyExternalBase : String} {credentials : List (String × String)}
  {hmacVerify : String → String → List UInt8 → Bool} {s s' : SessionState}

/-- A step that records nothing. -/
theorem GateInv.move (h : GateInv credentials hmacVerify s) (hlog : s'.log = s.log)
    (hflag : s'.authenticated = s.authenticated) (hloop : LoopInv credentials hmacVerify s.authenticated s'.loop)
    (hsending : ∀ n, s'.forwarder = .sending n → s.authenticated = true) : GateInv credentials hmacVerify s' := by
  refine ⟨?_, ?_, ?_, ?_, ?_⟩
  · rw [hlog]
    exact h.judged
  · rw [hflag, hlog]
    exact h.flag
  · rw [hlog]
    exact h.gated
  · rw [hflag]
    exact hloop
  · rw [hflag]
    exact hsending

theorem GateInv.record {e : Entry} (h : GateInv credentials hmacVerify s) (hlog : s'.log = s.log ++ [e])
    (hjudged : e.Judged credentials hmacVerify) (hguarded : e.Guarded → s.authenticated = true)
    (hflag : s'.authenticated = true ↔ s.authenticated = true ∨ e.Verified)
    (hloop : LoopInv credentials hmacVerify s'.authenticated s'.loop)
    (hsending : ∀ n, s'.forwarder = .sending n → s.authenticated = true) : GateInv credentials hmacVerify s' := by
  refine ⟨?_, ?_, ?_, hloop, fun n hn => hflag.mpr (Or.inl (hsending n hn))⟩
  · intro x hx
    rw [hlog] at hx
    rcases List.mem_append.mp hx with hx | hx
    · exact h.judged x hx
    · exact List.mem_singleton.mp hx ▸ hjudged
  · rw [hflag, h.flag, hlog]
    simp only [List.mem_append, List.mem_singleton, or_and_right, exists_or, exists_eq_left]
  · rw [hlog]
    exact h.gated.concat fun hx => h.flag.mp (hguarded hx)

/-! `verify_hello` in the steps the loop takes -/

section VerifyHello
variable {now : Int64} {nonceCache kept : List (String × Int64)} {p : HelloParams}

theorem verifyHello_of_checkHello_error {err : JsonRpcError} (h : checkHello credentials now p = .error err) :
    (verifyHello credentials hmacVerify now nonceCache p).2 = .ok (.error err) := by
  rw [verifyHello, h]

theorem verifyHello_of_replayed (h : checkHello credentials now p = .ok ())
    (hguard : guardNonce now nonceCache p.nonce = (kept, false)) :
    (verifyHello credentials hmacVerify now nonceCache p).2 = .ok (.error (reject "replayed nonce")) := by
  rw [verifyHello, h, hguard]

theorem verifyHello_of_new (h : checkHello credentials now p = .ok ())
    (hguard : guardNonce now nonceCache p.nonce = (kept, true)) :
    (verifyHello credentials hmacVerify now nonceCache p).2 = checkSignature credentials hmacVerify p := by
  rw [verifyHello, h, hguard]

end VerifyHello

/-- The one method that passes the gate without the flag asks for no operation. -/
theorem dispatch_hello {req : JsonRpcRequest} (h : GatewayMethod.parse req.method = some .hello) :
    (∃ p, dispatch codec proxyExternalBase req = .hello p) ∨
      ∃ result, dispatch codec proxyExternalBase req = .program (.ret result) := by
  rw [dispatch, h]
  cases codec.hello (req.params.getD .nil) with
  | ok p => exact Or.inl ⟨p, rfl⟩
  | error err => exact Or.inr ⟨.error (invalidParams err), rfl⟩

theorem gateInv_receive {ev : SessionEvent} (h : GateInv credentials hmacVerify s) :
    GateInv credentials hmacVerify (receiveStep codec s ev) := by
  cases ev with
  | message value =>
    rw [receiveStep]
    split
    · exact h.move rfl rfl trivial h.sending
    · split
      · exact h
      · exact h.move rfl rfl trivial h.sending
  | malformedMessage reason => exact h.move rfl rfl trivial h.sending
  | disconnected => exact h.move rfl rfl trivial h.sending

theorem gateInv_gate {id : Wire.Value} {req : JsonRpcRequest} (h : GateInv credentials hmacVerify s)
    (hloop : s.loop = .gate id req) (hs : goStep codec proxyExternalBase credentials hmacVerify s = some s') :
    GateInv credentials hmacVerify s' := by
  rw [goStep, hloop] at hs
  dsimp only at hs
  split_ifs at hs with hgate
  · cases hs
    exact h.move rfl rfl trivial h.sending
  · cases hd : dispatch codec proxyExternalBase req with
    | hello p =>
      rw [hd] at hs
      cases hs
      exact h.move rfl rfl trivial h.sending
    | program d =>
      rw [hd] at hs
      cases hs
      refine h.move rfl rfl ?_ h.sending
      by_cases hflag : s.authenticated = true
      · exact Or.inl hflag
      · have hmethod : GatewayMethod.parse req.method = some .hello := by
          by_contra hother
          exact hgate ⟨by simpa using hflag, hother⟩
        rcases dispatch_hello hmethod with ⟨p, hp⟩ | ⟨result, hresult⟩
        · rw [hp] at hd
          cases hd
        · rw [hresult] at hd
          cases hd
          exact Or.inr ⟨result, rfl⟩

/-- A hello that fails. -/
theorem GateInv.refused {id : Wire.Value} {p : HelloParams} {now : Int64} {found cache : List (String × Int64)}
    {err : JsonRpcError} (h : GateInv credentials hmacVerify s)
    (herr : (verifyHello credentials hmacVerify now found p).2 = .ok (.error err)) :
    GateInv credentials hmacVerify
      { (respond s id (.error err)).record (.hello p now found (.ok (.error err))) with nonceCache := cache } := by
  refine h.record rfl herr (fun hguarded => hguarded.elim) ?_ trivial h.sending
  exact ⟨Or.inl, fun hor => hor.elim (fun hflag => hflag) False.elim⟩

theorem gateInv_hello {id : Wire.Value} {p : HelloParams} (h : GateInv credentials hmacVerify s)
    (hloop : s.loop = .helloStarted id p) (hs : goStep codec proxyExternalBase credentials hmacVerify s = some s') :
    GateInv credentials hmacVerify s' := by
  rw [goStep, hloop] at hs
  cases hcheck : checkHello credentials s.clock p with
  | error err =>
    simp only [hcheck] at hs
    cases hs
    exact h.refused (verifyHello_of_checkHello_error hcheck)
  | ok u =>
    simp only [hcheck] at hs
    cases hs
    exact h.move rfl rfl hcheck h.sending

theorem gateInv_lock {id : Wire.Value} {p : HelloParams} {now : Int64} (h : GateInv credentials hmacVerify s)
    (hloop : s.loop = .helloLocking id p now) (hs : goStep codec proxyExternalBase credentials hmacVerify s = some s') :
    GateInv credentials hmacVerify s' := by
  have hcheck : LoopInv credentials hmacVerify s.authenticated (.helloLocking id p now) := hloop ▸ h.loop
  rw [goStep, hloop] at hs
  cases hguard : guardNonce now s.nonceCache p.nonce with
  | mk cache fresh =>
    simp only [hguard] at hs
    cases fresh with
    | false =>
      cases hs
      exact h.refused (verifyHello_of_replayed hcheck hguard)
    | true =>
      cases hs
      exact h.move rfl rfl (verifyHello_of_new hcheck hguard) h.sending

theorem gateInv_verify {id : Wire.Value} {p : HelloParams} {now : Int64} {found : List (String × Int64)}
    (h : GateInv credentials hmacVerify s) (hloop : s.loop = .helloVerifying id p now found)
    (hs : goStep codec proxyExternalBase credentials hmacVerify s = some s') : GateInv credentials hmacVerify s' := by
  have hresult : LoopInv credentials hmacVerify s.authenticated (.helloVerifying id p now found) := hloop ▸ h.loop
  rw [LoopInv] at hresult
  rw [goStep, hloop] at hs
  cases hsig : checkSignature credentials hmacVerify p with
  | panic =>
    simp only [hsig] at hs
    cases hs
    refine h.record rfl (hresult.trans hsig) (fun hguarded => hguarded.elim) ?_ trivial h.sending
    exact ⟨Or.inl, fun hor => hor.elim (fun hflag => hflag) False.elim⟩
  | ok r =>
    cases r with
    | error err =>
      simp only [hsig] at hs
      cases hs
      exact h.refused (hresult.trans hsig)
    | ok u =>
      simp only [hsig] at hs
      cases hs
      exact h.move rfl rfl (hresult.trans hsig) h.sending

theorem gateInv_authenticate {id : Wire.Value} {p : HelloParams} {now : Int64} {found : List (String × Int64)}
    (h : GateInv credentials hmacVerify s) (hloop : s.loop = .authenticating id p now found)
    (hs : goStep codec proxyExternalBase credentials hmacVerify s = some s') : GateInv credentials hmacVerify s' := by
  have hok : LoopInv credentials hmacVerify s.authenticated (.authenticating id p now found) := hloop ▸ h.loop
  rw [goStep, hloop] at hs
  cases hs
  refine h.record rfl hok (fun hguarded => hguarded.elim) ?_ trivial h.sending
  exact ⟨fun _ => Or.inr trivial, fun _ => rfl⟩

theorem gateInv_go (h : GateInv credentials hmacVerify s)
    (hs : goStep codec proxyExternalBase credentials hmacVerify s = some s') : GateInv credentials hmacVerify s' := by
  cases hloop : s.loop with
  | gate id req => exact gateInv_gate h hloop hs
  | helloStarted id p => exact gateInv_hello h hloop hs
  | helloLocking id p now => exact gateInv_lock h hloop hs
  | helloVerifying id p now found => exact gateInv_verify h hloop hs
  | authenticating id p now found => exact gateInv_authenticate h hloop hs
  | running id d =>
    rw [goStep, hloop] at hs
    cases d with
    | ret result =>
      cases hs
      exact h.move rfl rfl trivial h.sending
    | op o next => cases hs
  | receiving | awaiting | ended | panicked =>
    rw [goStep, hloop] at hs
    cases hs

theorem gateInv_perform (h : GateInv credentials hmacVerify s)
    (hs : sessionStep codec proxyExternalBase credentials hmacVerify s .perform = some s') :
    GateInv credentials hmacVerify s' := by
  rw [sessionStep] at hs
  split at hs
  · rename_i id o next hloop
    cases hs
    have hrunning : LoopInv credentials hmacVerify s.authenticated (.running id (.op o next)) := hloop ▸ h.loop
    have hflag : s.authenticated = true := by
      rcases hrunning with hflag | ⟨result, hret⟩
      · exact hflag
      · cases hret
    refine h.record rfl trivial (fun _ => hflag) ?_ hflag h.sending
    exact ⟨Or.inl, fun _ => hflag⟩
  · cases hs

theorem gateInv_answer {a : (o : Op) → o.Answer} (h : GateInv credentials hmacVerify s)
    (hs : sessionStep codec proxyExternalBase credentials hmacVerify s (.answer a) = some s') :
    GateInv credentials hmacVerify s' := by
  rw [sessionStep] at hs
  split at hs
  · rename_i id o next hloop
    cases hs
    have hflag : LoopInv credentials hmacVerify s.authenticated (.awaiting id o next) := hloop ▸ h.loop
    exact h.move rfl rfl (Or.inl hflag) h.sending
  · cases hs

theorem gateInv_checkFlag (h : GateInv credentials hmacVerify s)
    (hs : sessionStep codec proxyExternalBase credentials hmacVerify s .checkFlag = some s') :
    GateInv credentials hmacVerify s' := by
  rw [sessionStep] at hs
  split at hs
  · cases hs
    refine h.move rfl rfl h.loop fun n hn => ?_
    by_contra hflag
    dsimp only at hn
    rw [if_neg hflag] at hn
    cases hn
  · cases hs

theorem gateInv_forward (h : GateInv credentials hmacVerify s)
    (hs : sessionStep codec proxyExternalBase credentials hmacVerify s .forward = some s') :
    GateInv credentials hmacVerify s' := by
  rw [sessionStep] at hs
  split at hs
  · rename_i n hforwarder
    have hflag := h.sending n hforwarder
    split_ifs at hs with hwriter
    · cases hs
      refine h.record rfl trivial (fun _ => hflag) ?_ h.loop fun m hm => hflag
      exact ⟨Or.inl, fun _ => hflag⟩
    · cases hs
      exact h.move rfl rfl h.loop fun m hm => hflag
  · cases hs

theorem gateInv_step {a : SessionAct} (h : GateInv credentials hmacVerify s)
    (hs : sessionStep codec proxyExternalBase credentials hmacVerify s a = some s') :
    GateInv credentials hmacVerify s' := by
  cases a with
  | receive ev =>
    rw [sessionStep] at hs
    split at hs
    · cases hs
      exact gateInv_receive h
    · cases hs
  | go => exact gateInv_go h hs
  | perform => exact gateInv_perform h hs
  | answer a => exact gateInv_answer h hs
  | notified n =>
    rw [sessionStep] at hs
    split at hs
    · cases hs
      exact h.move rfl rfl h.loop fun m hm => by cases hm
    · cases hs
  | notifyError =>
    rw [sessionStep] at hs
    split at hs
    · cases hs
      exact h.move rfl rfl h.loop fun m hm => by cases hm
    · cases hs
  | checkFlag => exact gateInv_checkFlag h hs
  | forward => exact gateInv_forward h hs
  | abort =>
    rw [sessionStep] at hs
    split at hs
    · cases hs
      exact h.move rfl rfl h.loop fun m hm => by cases hm
    · cases hs
  | writerGone =>
    cases hs
    exact h.move rfl rfl h.loop h.sending
  | others nonceCache =>
    cases hs
    exact h.move rfl rfl h.loop h.sending
  | tick now =>
    rw [sessionStep] at hs
    split_ifs at hs
    cases hs
    exact h.move rfl rfl h.loop h.sending

theorem gateInv_init {nonceCache : List (String × Int64)} {clock : Int64} :
    GateInv credentials hmacVerify (.init nonceCache clock) where
  judged := fun e he => by cases he
  flag := by simp [SessionState.init]
  gated := Lists.preceded_nil
  loop := trivial
  sending := fun n hn => by cases hn

/-! The log only grows. -/

theorem log_receiveStep {ev : SessionEvent} : (receiveStep codec s ev).log = s.log := by
  cases ev with
  | message value =>
    rw [receiveStep]
    split
    · rfl
    · split <;> rfl
  | malformedMessage reason => rfl
  | disconnected => rfl

theorem log_goStep (hs : goStep codec proxyExternalBase credentials hmacVerify s = some s') : s.log <+: s'.log := by
  unfold goStep at hs
  split at hs
  · split_ifs at hs with hgate
    · cases hs
      exact List.prefix_refl _
    · split at hs <;> cases hs <;> exact List.prefix_refl _
  · split at hs <;> cases hs
    · exact List.prefix_append _ _
    · exact List.prefix_refl _
  · split at hs <;> cases hs
    · exact List.prefix_append _ _
    · exact List.prefix_refl _
  · split at hs <;> cases hs
    · exact List.prefix_append _ _
    · exact List.prefix_append _ _
    · exact List.prefix_refl _
  · cases hs
    exact List.prefix_append _ _
  · cases hs
    exact List.prefix_refl _
  · cases hs

theorem log_step {a : SessionAct} (hs : sessionStep codec proxyExternalBase credentials hmacVerify s a = some s') :
    s.log <+: s'.log := by
  cases a with
  | go => exact log_goStep hs
  | receive ev =>
    rw [sessionStep] at hs
    split at hs
    · cases hs
      exact log_receiveStep ▸ List.prefix_refl _
    · cases hs
  | perform =>
    rw [sessionStep] at hs
    split at hs
    · cases hs
      exact List.prefix_append _ _
    · cases hs
  | forward =>
    rw [sessionStep] at hs
    split at hs
    · split_ifs at hs with hwriter
      · cases hs
        exact List.prefix_append _ _
      · cases hs
        exact List.prefix_refl _
    · cases hs
  | answer | notified | notifyError | checkFlag | abort =>
    rw [sessionStep] at hs
    split at hs
    · cases hs
      exact List.prefix_refl _
    · cases hs
  | writerGone | others =>
    cases hs
    exact List.prefix_refl _
  | tick now =>
    rw [sessionStep] at hs
    split_ifs at hs
    cases hs
    exact List.prefix_refl _

theorem log_run {acts : List SessionAct}
    (hrun : run (sessionStep codec proxyExternalBase credentials hmacVerify) s acts = some s') : s.log <+: s'.log :=
  run_inv_all (fun m => s.log <+: m.log) (fun _ _ _ h hs => h.trans (log_step hs)) (List.prefix_refl _) hrun

/-- Without a new successful hello the flag stays as it is. -/
theorem GateInv.authenticated_eq {added : List Entry} (h : GateInv credentials hmacVerify s)
    (h' : GateInv credentials hmacVerify s') (hlog : s'.log = s.log ++ added) (hnone : ∀ e ∈ added, ¬ e.Verified) :
    s'.authenticated = s.authenticated := by
  rw [Bool.eq_iff_iff, h.flag, h'.flag, hlog]
  constructor
  · rintro ⟨e, he, hverified⟩
    rcases List.mem_append.mp he with he | he
    · exact ⟨e, he, hverified⟩
    · exact absurd hverified (hnone e he)
  · rintro ⟨e, he, hverified⟩
    exact ⟨e, List.mem_append_left added he, hverified⟩

theorem session_gated (codec : Codec) (proxyExternalBase : String) (credentials : List (String × String))
    (hmacVerify : String → String → List UInt8 → Bool) (nonceCache : List (String × Int64)) (clock : Int64)
    (acts : List SessionAct) (s : SessionState)
    (hrun : run (sessionStep codec proxyExternalBase credentials hmacVerify) (.init nonceCache clock) acts = some s) :
    Lists.Preceded Entry.Guarded Entry.Verified s.log ∧ (∀ e ∈ s.log, e.Judged credentials hmacVerify) ∧
      ∀ later s', run (sessionStep codec proxyExternalBase credentials hmacVerify) s later = some s' →
        ∃ added, s'.log = s.log ++ added ∧
          ((∀ e ∈ added, ¬ e.Verified) → s'.authenticated = s.authenticated) := by
  have hstep : ∀ m a m', GateInv credentials hmacVerify m →
      sessionStep codec proxyExternalBase credentials hmacVerify m a = some m' → GateInv credentials hmacVerify m' :=
    fun m a m' hm hs => gateInv_step hm hs
  have h := run_inv_all (GateInv credentials hmacVerify) hstep gateInv_init hrun
  refine ⟨h.gated, h.judged, fun later s' hlater => ?_⟩
  have h' := run_inv_all (GateInv credentials hmacVerify) hstep h hlater
  obtain ⟨added, hadded⟩ := log_run hlater
  exact ⟨added, hadded.symm, h.authenticated_eq h' hadded.symm⟩

/-! A session: a request and a notification too early, a hello that fails, one that succeeds, and the
same once more. -/

def exampleRequest (id : ℕ) (method : String) (params : Wire.Value) : Wire.Value :=
  Link.buildRpcRequest (.ofNat id) method params

def exampleHelloValue (p : HelloParams) : Wire.Value :=
  Link.mpMap [("access_key", .string p.accessKey), ("client_name", .string p.clientName),
    ("ts", Link.ofU64 p.ts.toUInt64), ("nonce", .string p.nonce), ("signature", .string p.signature)]

/-- The library on maps with every field that is asked for. -/
def exampleCodec : Codec where
  request v :=
    match Link.mapStr v "method" with
    | some method => .ok ⟨Wire.mapGet v "id", method, Wire.mapGet v "params"⟩
    | none => .error "missing field method"
  hello v :=
    match Link.mapStr v "access_key", Link.mapStr v "client_name", (Wire.mapGet v "ts").bind Link.asI64,
      Link.mapStr v "nonce", Link.mapStr v "signature" with
    | some accessKey, some clientName, some ts, some nonce, some signature =>
      .ok ⟨accessKey, clientName, Int64.ofInt ts, nonce, signature⟩
    | _, _, _, _, _ => .error "missing field"
  spawnAgent _ := .error "missing field name"
  agentId _ := .error "missing field agent_id"
  containerName _ := .error "missing field container_name"
  agentInvoke _ := .error "missing field agent_id"
  registerProxy _ := .error "missing field agent_id"
  unregister _ := .error "missing field agent_id"
  registerStreamProxy _ := .error "missing field agent_id"

def exampleBase : String := "http://host.containers.internal:5501"

def badHello : HelloParams := ⟨"key", "client", 1000, "first", "no signature"⟩

def exampleNotify : AgentNotify := ⟨"agent", "process/output", none⟩

def sessionRun : List SessionAct :=
  [.receive (.message (exampleRequest 1 "gateway/list_agents" .nil)), .go, .notified exampleNotify, .checkFlag,
    .receive (.message (exampleRequest 2 "gateway/hello" (exampleHelloValue badHello))), .go, .go, .go, .go,
    .receive (.message (exampleRequest 3 "gateway/hello" (exampleHelloValue exampleHello))), .go, .go, .go, .go, .go,
    .receive (.message (exampleRequest 4 "gateway/list_agents" .nil)), .go, .perform,
    .notified exampleNotify, .checkFlag, .forward]

theorem session_gated_run :
    ∃ s, run (sessionStep exampleCodec exampleBase [("key", "secret")] exampleVerify) (.init [] 1000) sessionRun =
        some s ∧
      s.log = [.hello badHello 1000 [] (.ok (.error (reject "malformed signature"))),
        .hello exampleHello 1000 [("first", 1000)] (.ok (.ok ())), .executed .list, .forwarded exampleNotify] ∧
      Lists.Preceded Entry.Guarded Entry.Verified s.log := by
  have hrun : ∃ s, run (sessionStep exampleCodec exampleBase [("key", "secret")] exampleVerify) (.init [] 1000)
        sessionRun = some s ∧
      s.log = [.hello badHello 1000 [] (.ok (.error (reject "malformed signature"))),
        .hello exampleHello 1000 [("first", 1000)] (.ok (.ok ())), .executed .list, .forwarded exampleNotify] := by
    refine ⟨_, rfl, ?_⟩
    rfl
  obtain ⟨s, hs, hlog⟩ := hrun
  exact ⟨s, hs, hlog, (session_gated _ _ _ _ _ _ _ s hs).1⟩

end Nexal.Gateway
