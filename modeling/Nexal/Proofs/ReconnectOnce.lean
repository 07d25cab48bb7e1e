import Nexal.Proofs.Reconnect

/-! One socket at a time. Each socket that fails hands over once, but for one that times out before the first
connection: its timeout schedules the next attempt, and so does the error event of its closing. -/

namespace Nexal.Reconnect

open Runs

def Socket.up (k : Socket) : Bool :=
  match k.ready with
  | .connecting | .connected => true
  | .closing | .closed => false

def State.count (p : Socket → Bool) (s : State) : ℕ := s.sockets.countP p + s.timers.length

def AtMostOne (s : State) : Prop := s.count Socket.up ≤ 1

/-- No error event of a socket that has timed out finds the transport without its first connection, not closed and
with attempts left. -/
def TimeoutAlone (reconnect : ReconnectOptions) (s : State) : Act → Prop
  | .error i => ∀ k, s.sockets[i]? = some k → k.errorListener = true → k.failedBeforeOpen = true →
    s.settled = false →
      s.closed = false → attemptsLeft reconnect s = false
  | _ => True

/-! The sockets -/

structure SocketOk (s : State) (k : Socket) : Prop extends SocketInv k where
  timeout : k.connectTimeout = true → k.opened = false ∧ k.failedBeforeOpen = false ∧ k.ready ≠ .closed
  unopened : s.settled = false → k.opened = false
  failed : k.errorListener = false → k.opened = true ∨ k.failedBeforeOpen = true
  closing : s.closed = false → k.ready = .closing → k.opened = true ∨ k.failedBeforeOpen = true

variable {reconnect : ReconnectOptions} {s s' : State} {a : Act} {acts : List Act} {i : ℕ} {k k' : Socket}
  {p : Socket → Bool}

theorem up_carries (h : k.up = true) : k.carries = true := by
  unfold Socket.up at h
  unfold Socket.carries
  cases hready : k.ready with
  | connecting => rfl
  | connected => rfl
  | closing =>
    rw [hready] at h
    cases h
  | closed =>
    rw [hready] at h
    cases h

/-- A socket that has neither failed nor had its close event. -/
theorem carries_of_unfailed (hfailed : k.failedBeforeOpen = false) (hready : k.ready ≠ .closed) : k.carries = true := by
  unfold Socket.carries
  cases h : k.ready with
  | connecting | connected => rfl
  | closing => rw [hfailed, Bool.not_false, Bool.or_true]
  | closed => exact absurd h hready

theorem carries_of_opened (hopened : k.opened = true) (hready : k.ready ≠ .closed) : k.carries = true := by
  unfold Socket.carries
  cases h : k.ready with
  | connecting | connected => rfl
  | closing => rw [hopened, Bool.true_or]
  | closed => exact absurd h hready

theorem count_le_carries (s : State) : s.count Socket.up ≤ s.count Socket.carries :=
  Nat.add_le_add_right (List.countP_mono_left fun _ _ h => up_carries h) _

theorem count_setSocket (p : Socket → Bool) (k' : Socket) (hi : s.sockets[i]? = some k) :
    (s.setSocket i k').count p + (p k).toNat = s.count p + (p k').toNat := by
  obtain ⟨hlt, rfl⟩ := List.getElem?_eq_some_iff.mp hi
  have htoNat : ∀ b : Bool, (if b = true then 1 else 0) = b.toNat := by
    intro b
    cases b with
    | _ => rfl
  have hold : (p s.sockets[i]).toNat ≤ s.sockets.countP p := by
    cases hp : p s.sockets[i] with
    | false => exact Nat.zero_le _
    | true => exact List.countP_pos_iff.mpr ⟨_, List.getElem_mem hlt, hp⟩
  unfold State.count State.setSocket
  rw [List.countP_set hlt, htoNat, htoNat]
  dsimp only
  omega

/-! What runs keep -/

structure Base (reconnect : ReconnectOptions) (s : State) : Prop where
  sockets : ∀ k ∈ s.sockets, SocketOk s k
  waiting : s.settled = false → s.closed = false → attemptsLeft reconnect s = true →
    s.timers ≠ [] ∨ ∃ k ∈ s.sockets, k.ready = .connecting

theorem socketOk_new (s : State) : SocketOk s .new :=
  ⟨socketInv_new, fun _ => ⟨rfl, rfl, (fun h => by cases h)⟩, fun _ => rfl, (fun h => by cases h),
    (fun _ h => by cases h)⟩

theorem base_init : Base reconnect init := by
  refine ⟨fun k hk => ?_, fun _ _ _ => Or.inr ⟨.new, List.mem_singleton.mpr rfl, rfl⟩⟩
  rw [List.mem_singleton.mp hk]
  exact socketOk_new init

/-- A socket is looked at with the flags of another state. -/
theorem SocketOk.of_flags (h : SocketOk s k) (hsettled : s'.settled = false → s.settled = false)
    (hclosed : s'.closed = false → s.closed = false) : SocketOk s' k :=
  ⟨h.toSocketInv, h.timeout, fun hs => h.unopened (hsettled hs), h.failed, fun hs => h.closing (hclosed hs)⟩

theorem sockets_setSocket (h : ∀ k ∈ s.sockets, SocketOk s k) (hk : SocketOk s k') :
    ∀ k ∈ (s.setSocket i k').sockets, SocketOk (s.setSocket i k') k := by
  intro k hk'
  rcases List.mem_or_eq_of_mem_set hk' with hold | rfl
  · exact (h k hold).of_flags (fun hs => hs) fun hs => hs
  · exact hk.of_flags (fun hs => hs) fun hs => hs

theorem base_schedule (h : ∀ k ∈ s.sockets, SocketOk s k) : Base reconnect (scheduleReconnect reconnect s) := by
  rcases schedule_eq reconnect s with ⟨callbacks, heq, hnone⟩ | ⟨-, -, callbacks, heq⟩
  · rw [heq]
    refine ⟨fun k hk => (h k hk).of_flags (fun hs => hs) fun hs => hs, fun _ hclosed hleft => ?_⟩
    rcases hnone with hnone | hnone
    · cases hnone.symm.trans hclosed
    · cases hnone.symm.trans hleft
  · rw [heq]
    exact ⟨fun k hk => (h k hk).of_flags (fun hs => hs) fun hs => hs, fun _ _ _ => Or.inl (by simp)⟩

theorem count_schedule (reconnect : ReconnectOptions) (s : State) (p : Socket → Bool) :
    (scheduleReconnect reconnect s).count p ≤ s.count p + 1 := by
  rcases schedule_eq reconnect s with ⟨callbacks, heq, -⟩ | ⟨-, -, callbacks, heq⟩
  · rw [heq]
    exact Nat.le_succ _
  · rw [heq, State.count, State.count, List.length_append, List.length_singleton, Nat.add_assoc]

/-- A socket that carried the attempt hands over. -/
theorem count_handover (hi : s.sockets[i]? = some k) (hk : k.carries = true) (hk' : k'.carries = false)
    (h : s.count Socket.carries ≤ 1) {v : State} (hv : v.count Socket.carries = (s.setSocket i k').count Socket.carries) :
    (scheduleReconnect reconnect v).count Socket.carries ≤ 1 := by
  have hset := count_setSocket Socket.carries k' hi
  have hle := count_schedule reconnect v Socket.carries
  rw [hk, hk', Bool.toNat_true, Bool.toNat_false] at hset
  omega

/-- A socket carries no more than it did. -/
theorem count_le_setSocket (k' : Socket) (hi : s.sockets[i]? = some k) (hk : k'.carries = true → k.carries = true) :
    (s.setSocket i k').count Socket.carries ≤ s.count Socket.carries := by
  have hset := count_setSocket Socket.carries k' hi
  cases hcarries : k'.carries with
  | false =>
    rw [hcarries, Bool.toNat_false] at hset
    omega
  | true =>
    rw [hcarries, hk hcarries] at hset
    omega

/-! The handlers -/

theorem onOpen_once (h : Base reconnect s) (hi : s.sockets[i]? = some k) (hready : k.ready = .connecting) :
    Base reconnect (onOpen s i { k with ready := .connected }) ∧
      (s.count Socket.carries ≤ 1 → (onOpen s i { k with ready := .connected }).count Socket.carries ≤ 1) := by
  have hafter : SocketInv k.afterOpen := ⟨(fun hready => by cases hready), fun _ => rfl, (fun hl => by cases hl)⟩
  obtain ⟨callbacks, heq⟩ := onOpen_eq s i k
  rw [heq]
  refine ⟨⟨fun c hc => ?_, (fun hs => by cases hs)⟩, fun hcount => ?_⟩
  · rcases List.mem_or_eq_of_mem_set hc with hold | rfl
    · exact (h.sockets c hold).of_flags (fun hs => by cases hs) fun hs => hs
    · exact ⟨hafter, (fun ht => by cases ht), (fun hs => by cases hs), fun _ => Or.inl rfl,
        (fun _ hready => by cases hready)⟩
  · refine Nat.le_trans (count_le_setSocket k.afterOpen hi fun _ => ?_) hcount
    rw [Socket.carries, hready]

theorem socketOk_errored (h : SocketOk s k) : SocketOk s k.errored :=
  ⟨socketInv_errored k, (fun ht => by cases ht), h.unopened, fun _ => Or.inr rfl, fun _ _ => Or.inr rfl⟩

/-- A socket that stays away from `connecting` leaves the first attempt where it is. -/
theorem waiting_setSocket (k' : Socket) (h : Base reconnect s) (hi : s.sockets[i]? = some k) (hk : k.ready ≠ .connecting)
    (hsettled : s.settled = false) (hclosed : s.closed = false) (hleft : attemptsLeft reconnect s = true) :
    s.timers ≠ [] ∨ ∃ c ∈ (s.setSocket i k').sockets, c.ready = .connecting := by
  rcases h.waiting hsettled hclosed hleft with htimers | ⟨c, hc, hready⟩
  · exact Or.inl htimers
  · exact Or.inr (Lists.exists_mem_set hi ⟨c, hc, hready, fun heq => absurd (heq ▸ hready) hk⟩)

theorem base_setSocket (h : Base reconnect s) (hi : s.sockets[i]? = some k) (hk : k.ready ≠ .connecting)
    (hk' : SocketOk s k') : Base reconnect (s.setSocket i k') :=
  ⟨sockets_setSocket h.sockets hk', waiting_setSocket _ h hi hk⟩

theorem onError_once (h : Base reconnect s) (hi : s.sockets[i]? = some k) (hl : k.errorListener = true)
    (hready : k.ready ≠ .closed) :
    Base reconnect (onError reconnect s i { k with ready := .closing }) ∧
      (s.count Socket.carries ≤ 1 → TimeoutAlone reconnect s (.error i) →
        (onError reconnect s i { k with ready := .closing }).count Socket.carries ≤ 1) ∧
      (¬ TimeoutAlone reconnect s (.error i) → ¬ AtMostOne (onError reconnect s i { k with ready := .closing })) := by
  have hk := h.sockets k (List.mem_of_getElem? hi)
  have hopened := hk.listening hl
  have herrored : k.errored.carries = false := by
    rw [Socket.carries, Socket.errored, hopened]
    rfl
  have hsockets := sockets_setSocket (i := i) h.sockets (socketOk_errored hk)
  rw [onError_eq]
  split_ifs with hsettled
  · refine ⟨⟨hsockets, fun hs => ?_⟩, fun hcount _ => ?_, fun hnot => absurd (fun k' _ _ _ hs => ?_) hnot⟩
    · cases hsettled.symm.trans hs
    · refine Nat.le_trans (count_le_setSocket _ hi fun hcarries => ?_) hcount
      cases herrored.symm.trans hcarries
    · cases hsettled.symm.trans hs
  · refine ⟨base_schedule hsockets, fun hcount halone => ?_, fun hnot hone => hnot fun k' hk' _ hfailed _ hclosed => ?_⟩
    · cases hfailed : k.failedBeforeOpen with
      | false => exact count_handover hi (carries_of_unfailed hfailed hready) herrored hcount rfl
      | true =>
        rcases schedule_eq reconnect (s.setSocket i k.errored) with ⟨callbacks, heq, -⟩ | ⟨hclosed, hleft, -⟩
        · rw [heq]
          refine Nat.le_trans (count_le_setSocket _ hi fun hcarries => ?_) hcount
          cases herrored.symm.trans hcarries
        · cases (halone k hi hl hfailed (Bool.not_eq_true _ ▸ hsettled) hclosed).symm.trans hleft
    · cases hi.symm.trans hk'
      refine Bool.eq_false_iff.mpr fun hleft => ?_
      have hconnecting : k.ready ≠ .connecting := fun hc => by cases hfailed.symm.trans (hk.connecting hc).1
      rcases schedule_eq reconnect (s.setSocket i k.errored) with ⟨callbacks, -, hnone⟩ | ⟨-, -, callbacks, heq⟩
      · rcases hnone with hnone | hnone
        · cases hnone.symm.trans hclosed
        · cases hnone.symm.trans hleft
      rw [AtMostOne, heq, State.count, List.length_append, List.length_singleton] at hone
      rcases waiting_setSocket k.errored h hi hconnecting (Bool.not_eq_true _ ▸ hsettled) hclosed hleft with
        htimers | ⟨c, hc, hcready⟩
      · have hlength := List.length_pos_iff.mpr htimers
        dsimp only [State.setSocket] at hone
        omega
      · have hup : c.up = true := by rw [Socket.up, hcready]
        have hpos : 0 < (s.setSocket i k.errored).sockets.countP Socket.up := List.countP_pos_iff.mpr ⟨c, hc, hup⟩
        dsimp only at hone
        omega

theorem onClose_once (h : Base reconnect s) (hi : s.sockets[i]? = some k) (hready : k.ready ≠ .closed) :
    Base reconnect (onClose reconnect s i { k with ready := .closed }) ∧
      (s.count Socket.carries ≤ 1 → (onClose reconnect s i { k with ready := .closed }).count Socket.carries ≤ 1) := by
  have hk := h.sockets k (List.mem_of_getElem? hi)
  have hok : SocketOk s { k with ready := .closed, connectTimeout := false } :=
    ⟨⟨(fun hready => by cases hready), (fun hready => by cases hready), hk.listening⟩, (fun ht => by cases ht),
      hk.unopened, hk.failed, (fun _ hready => by cases hready)⟩
  have hsockets := sockets_setSocket (i := i) h.sockets hok
  have hgone : Socket.carries { k with ready := .closed, connectTimeout := false } = false := rfl
  rw [onClose]
  dsimp only
  split_ifs with hfailed hclosed hsettled
  · rw [Bool.and_eq_true, Bool.not_eq_true'] at hfailed
    have hconnecting : k.ready ≠ .connecting := fun hc => by cases hfailed.2.symm.trans (hk.connecting hc).1
    refine ⟨base_setSocket h hi hconnecting hok, fun hcount => ?_⟩
    exact Nat.le_trans (count_le_setSocket _ hi fun hcarries => by cases hgone.symm.trans hcarries) hcount
  · refine ⟨⟨hsockets, fun _ hopen => by cases hclosed.symm.trans hopen⟩, fun hcount => ?_⟩
    exact Nat.le_trans (count_le_setSocket _ hi fun hcarries => by cases hgone.symm.trans hcarries) hcount
  all_goals
    have hcarries : k.carries = true := by
      cases hopened : k.opened with
      | true => exact carries_of_opened hopened hready
      | false => exact carries_of_unfailed (by simpa [hopened] using hfailed) hready
  · refine ⟨base_schedule fun c hc => ?_, fun hcount => count_handover hi hcarries hgone hcount rfl⟩
    exact (hsockets c hc).of_flags (fun hs => hs) fun hs => hs
  · exact ⟨base_schedule hsockets, fun hcount => count_handover hi hcarries hgone hcount rfl⟩

theorem onConnectTimeout_once (h : Base reconnect s) (hi : s.sockets[i]? = some k) (htimeout : k.connectTimeout = true) :
    Base reconnect (onConnectTimeout reconnect s i k) ∧
      (s.count Socket.carries ≤ 1 → (onConnectTimeout reconnect s i k).count Socket.carries ≤ 1) := by
  have hk := h.sockets k (List.mem_of_getElem? hi)
  obtain ⟨hopened, hfailed, hready⟩ := hk.timeout htimeout
  have hflags (c : Socket) : c.close = { c with ready := c.close.ready } := by
    rw [Socket.close]
    cases c.ready <;> rfl
  have hgone : Socket.carries { k with connectTimeout := false, failedBeforeOpen := true : Socket }.close = false :=
    not_carries (socketInv_close hk.listening) (by rw [hflags]; exact hopened) (by rw [hflags])
  refine ⟨base_schedule (sockets_setSocket h.sockets ⟨socketInv_close hk.listening, ?_, ?_, ?_, ?_⟩),
    fun hcount => count_handover hi (carries_of_unfailed hfailed hready) hgone hcount rfl⟩
  all_goals rw [hflags]
  · exact fun ht => by cases ht
  · exact hk.unopened
  · exact fun _ => Or.inr rfl
  · exact fun _ _ => Or.inr rfl

/-! Runs -/

/-- What a step of a transport with `Base` does: it keeps `Base` and, where it meets `TimeoutAlone`, the count;
elsewhere there are two afterwards. -/
structure StepOnce (reconnect : ReconnectOptions) (s : State) (a : Act) (s' : State) : Prop where
  base : Base reconnect s'
  alone : s.count Socket.carries ≤ 1 → TimeoutAlone reconnect s a → s'.count Socket.carries ≤ 1
  twice : ¬ TimeoutAlone reconnect s a → ¬ AtMostOne s'

theorem socketStep_once (h : Base reconnect s) (hi : s.sockets[i]? = some k)
    (ha : a = .open i ∨ a = .error i ∨ a = .closed i ∨ a = .message i ∨ a = .connectTimeout i)
    (hs : socketStep reconnect s i k a = some s') : StepOnce reconnect s a s' := by
  have hk := h.sockets k (List.mem_of_getElem? hi)
  rcases ha with rfl | rfl | rfl | rfl | rfl
  · simp only [socketStep] at hs
    split at hs
    · rename_i hready
      rw [if_pos (hk.connecting hready).2.1] at hs
      cases hs
      obtain ⟨hbase, hcount⟩ := onOpen_once h hi hready
      exact ⟨hbase, fun hone _ => hcount hone, fun hnot => absurd trivial hnot⟩
    · cases hs
  · simp only [socketStep] at hs
    split at hs
    · cases hs
    · rename_i hready
      cases hs
      split
      · rename_i hl
        obtain ⟨hbase, hcount, htwice⟩ := onError_once h hi hl hready
        exact ⟨hbase, hcount, htwice⟩
      · rename_i hl
        have hfailed := hk.failed (Bool.not_eq_true _ ▸ hl)
        have hconnecting : k.ready ≠ .connecting := fun hc => hl (hk.connecting hc).2.2
        have hok : SocketOk s { k with ready := .closing } :=
          ⟨⟨(fun hready => by cases hready), (fun hready => by cases hready), hk.listening⟩,
            fun ht => ⟨(hk.timeout ht).1, (hk.timeout ht).2.1, (fun hready => by cases hready)⟩, hk.unopened, hk.failed,
            fun _ _ => hfailed⟩
        refine ⟨base_setSocket h hi hconnecting hok, fun hone _ => ?_, fun hnot => absurd (fun c hc hlc => ?_) hnot⟩
        · refine Nat.le_trans (count_le_setSocket _ hi fun hcarries => ?_) hone
          rw [Socket.carries, Bool.or_eq_true, Bool.not_eq_true'] at hcarries
          rcases hcarries with hopened | hunfailed
          · exact carries_of_opened hopened hready
          · exact carries_of_unfailed hunfailed hready
        · cases hi.symm.trans hc
          exact absurd hlc hl
  · simp only [socketStep] at hs
    split at hs
    · cases hs
    · rename_i hready
      cases hs
      obtain ⟨hbase, hcount⟩ := onClose_once h hi hready
      exact ⟨hbase, fun hone _ => hcount hone, fun hnot => absurd trivial hnot⟩
  · simp only [socketStep] at hs
    split at hs
    · cases hs
      exact ⟨h, fun hone _ => hone, fun hnot => absurd trivial hnot⟩
    · cases hs
  · simp only [socketStep] at hs
    split at hs
    · rename_i htimeout
      cases hs
      obtain ⟨hbase, hcount⟩ := onConnectTimeout_once h hi htimeout
      exact ⟨hbase, fun hone _ => hcount hone, fun hnot => absurd trivial hnot⟩
    · cases hs

theorem socketOk_close (h : SocketOk s k) : SocketOk (close s) k.close := by
  have hok := socketInv_close h.listening
  rw [Socket.close] at hok ⊢
  cases hready : k.ready with
  | connecting | connected =>
    rw [hready] at hok
    refine ⟨hok, fun ht => ⟨(h.timeout ht).1, (h.timeout ht).2.1, (fun hclosed => by cases hclosed)⟩, h.unopened,
      h.failed,
      (fun hclosed => by cases hclosed)⟩
  | closing | closed => exact h.of_flags (fun hs => hs) (fun hclosed => by cases hclosed)

theorem carries_close (h : k.close.carries = true) : k.carries = true := by
  rw [Socket.close] at h
  cases hready : k.ready with
  | connecting | connected => rw [Socket.carries, hready]
  | closing | closed =>
    rw [hready] at h
    exact h

theorem close_once (h : Base reconnect s) :
    Base reconnect (close s) ∧ (close s).count Socket.carries ≤ s.count Socket.carries := by
  refine ⟨⟨fun c hc => ?_, fun _ hclosed => by cases hclosed⟩, Nat.add_le_add ?_ (List.length_filter_le _ _)⟩
  · obtain ⟨j, hj⟩ := Lists.exists_getElem?_of_mem hc
    rw [close, List.getElem?_modify] at hj
    obtain ⟨old, hold, rfl⟩ := Option.map_eq_some_iff.mp hj
    have hok := h.sockets old (List.mem_of_getElem? hold)
    split_ifs
    · exact socketOk_close hok
    · exact hok.of_flags (fun hs => hs) (fun hclosed => by cases hclosed)
  · exact Lists.countP_modify_le (fun _ => carries_close) _ _

theorem step_once (h : Base reconnect s) (hs : step reconnect s a = some s') : StepOnce reconnect s a s' := by
  cases a with
  | reconnectTimer timer =>
    simp only [step] at hs
    split at hs
    · rename_i hmem
      cases hs
      refine ⟨⟨fun c hc => ?_, fun _ _ _ => Or.inr ⟨.new, ?_, rfl⟩⟩, fun hone _ => ?_,
        fun hnot => absurd trivial hnot⟩
      · rcases List.mem_append.mp hc with hold | hnew
        · exact (h.sockets c hold).of_flags (fun hs => hs) fun hs => hs
        · rw [List.mem_singleton.mp hnew]
          exact socketOk_new _
      · exact List.mem_append_right _ (List.mem_singleton.mpr rfl)
      · have hlength := List.length_erase_of_mem hmem
        have hpos := List.length_pos_of_mem hmem
        have hcountP : (s.sockets ++ [Socket.new]).countP Socket.carries = s.sockets.countP Socket.carries + 1 := by
          rw [List.countP_append]
          rfl
        dsimp only [State.count, connect] at hone ⊢
        omega
    · cases hs
  | close =>
    cases hs
    obtain ⟨hbase, hcount⟩ := close_once h
    exact ⟨hbase, fun hone _ => Nat.le_trans hcount hone, fun hnot => absurd trivial hnot⟩
  | _ =>
    obtain ⟨k, hi, hs⟩ := Option.bind_eq_some_iff.mp hs
    exact socketStep_once h hi (by simp) hs

/-- At every point of a run at most one of a socket that is open or connecting and a pending reconnect timer exists,
exactly if no error event of a socket that has timed out comes before the first connection while the transport is not
closed and has attempts left. -/
theorem atMostOne_iff_timeoutAlone (h : run (step reconnect) init acts = some s) :
    (∀ acts' s', acts' <+: acts → run (step reconnect) init acts' = some s' → AtMostOne s') ↔
      RunOk (step reconnect) (TimeoutAlone reconnect) init acts := by
  refine (runOk_iff_prefixes (H := fun _ _ => True) (fun s => Base reconnect s ∧
    (AtMostOne s → s.count Socket.carries ≤ 1))
    AtMostOne ?_ ⟨base_init, fun _ => Nat.le_refl 1⟩ (Nat.le_refl 1) (runOk_of_forall (fun _ _ => trivial) _ _) h).symm
  rintro s a s' ⟨hbase, hcarries⟩ hone _ hs
  have hstep := step_once hbase hs
  by_cases halone : TimeoutAlone reconnect s a
  · have hcount := hstep.alone (hcarries hone) halone
    exact ⟨⟨hstep.base, fun _ => hcount⟩, iff_of_true (Nat.le_trans (count_le_carries s') hcount) halone⟩
  · have htwo := hstep.twice halone
    exact ⟨⟨hstep.base, fun hone' => absurd hone' htwo⟩, iff_of_false htwo halone⟩

/-- The first attempt fails, the second connects, is lost and comes back after a connect timeout. -/
theorem atMostOne_iff_timeoutAlone_comesBack : ∃ s, run (step (some none)) init comesBackRun = some s ∧
    ∀ acts' s', acts' <+: comesBackRun → run (step (some none)) init acts' = some s' → AtMostOne s' := by
  refine ⟨_, rfl, (@atMostOne_iff_timeoutAlone (some none) _ comesBackRun rfl).mpr ?_⟩
  -- the first error comes without a timeout, the second after the connection
  refine runOk_cons rfl (fun k hk hl hfailed => ?_) (runOk_cons rfl trivial (runOk_cons rfl trivial
    (runOk_cons rfl trivial (runOk_cons rfl trivial (runOk_cons rfl trivial (runOk_cons rfl trivial
      (runOk_cons rfl trivial (runOk_cons rfl (fun k hk hl hfailed hsettled => by cases hsettled) (runOk_cons rfl trivial
        (runOk_cons rfl trivial (runOk_cons rfl trivial trivial)))))))))))
  cases hk
  cases hfailed

/-- The first attempt times out; both its timeout and the error of its closing schedule the next one. -/
def slowFirstRun : List Act :=
    [.connectTimeout 0, .error 0, .closed 0, .reconnectTimer 0, .reconnectTimer 1, .open 1, .open 2]

theorem slow_first_connection_doubles : ¬ ∀ (reconnect : ReconnectOptions) (acts : List Act) (s : State),
    run (step reconnect) init acts = some s → AtMostOne s := by
  intro hall
  have htwo : 2 ≤ 1 := hall (some none) slowFirstRun _ rfl
  cases htwo
  contradiction

end Nexal.Reconnect
