import Nexal.Proofs.SessionGate
import Nexal.Spec.Session

/-! Notifications after a lag. The forwarder takes the notifications in the order in which they were sent and loses
none that it receives; but it takes the report of a lag for the end of the channel. -/

namespace Nexal.Gateway

open Runs
open Broadcast (recv oldest)

/-- In the forwarder's hands, or still to be received. -/
def ToCome (s : NotifyState) (j : ℕ) : Prop :=
  match s.session.forwarder with
  | .receiving => s.next ≤ j
  | .checking _ | .sending _ => s.next ≤ j + 1
  | .ended => False

/-- While the session runs, all that is sent for its authenticated client after the receiver has missed some is
forwarded or still comes, unless it is lost to another lag. -/
def NotifyKept (s : NotifyState) : Prop :=
  s.session.on = true → ∀ m, s.missed = some m → ∀ j ∈ s.owed, m ≤ j →
    (j ∈ s.received ∨ s.sent.length ≤ j + notifyCapacity) → j ∈ s.forwarded ∨ ToCome s j

/-- No lag is reported while some of this is retained, and no more of it is sent after the report of a lag has ended
the forwarder. -/
def LagCovered (s : NotifyState) : NotifyAct → Prop
  | .recv => s.next < oldest notifyCapacity s.sent → s.session.on = true → ∀ m, s.missed = some m →
      ∀ j ∈ s.owed, m ≤ j → j + notifyCapacity < s.sent.length
  | .broadcast _ => s.session.forwarder = .ended → s.session.on = true → s.session.authenticated = false
  | .session _ => True

variable {codec : Codec} {proxyExternalBase : String} {credentials : List (String × String)}
  {hmacVerify : String → String → List UInt8 → Bool} {t t' : SessionState} {s s' : NotifyState} {j : ℕ}

/-! The session -/

theorem on_iff : t.on = true ↔ t.loop ≠ .ended ∧ t.loop ≠ .panicked ∧ t.writer = true := by
  unfold SessionState.on
  split
  · rename_i heq
    simp [heq]
  · rename_i heq
    simp [heq]
  · rename_i hended hpanicked
    exact ⟨fun hw => ⟨fun h => hended h, fun h => hpanicked h, hw⟩, fun h => h.2.2⟩

structure SessionMove (t t' : SessionState) : Prop where
  authenticated : t.authenticated = true → t'.authenticated = true
  on : t'.on = true → t.on = true

/-- A step that starts in a running loop. -/
theorem sessionMove_of_loop (hended : t.loop ≠ .ended) (hpanicked : t.loop ≠ .panicked) (hwriter : t'.writer = t.writer)
    (hauth : t.authenticated = true → t'.authenticated = true) : SessionMove t t' :=
  ⟨hauth, fun hon => on_iff.mpr ⟨hended, hpanicked, hwriter ▸ (on_iff.mp hon).2.2⟩⟩

/-- A step of the forwarder. -/
theorem sessionMove_of_eq (hloop : t'.loop = t.loop) (hwriter : t'.writer = true → t.writer = true)
    (hauth : t'.authenticated = t.authenticated) : SessionMove t t' := by
  refine ⟨fun h => hauth.trans h, fun hon => on_iff.mpr ?_⟩
  obtain ⟨hended, hpanicked, hw⟩ := on_iff.mp hon
  exact ⟨hloop ▸ hended, hloop ▸ hpanicked, hwriter hw⟩

/-- The forwarder is left alone. -/
theorem receiveStep_spec (codec : Codec) (t : SessionState) (ev : SessionEvent) :
    (receiveStep codec t ev).writer = t.writer ∧
    (receiveStep codec t ev).authenticated = t.authenticated ∧ (receiveStep codec t ev).forwarder = t.forwarder := by
  cases ev with
  | message value =>
    rw [receiveStep]
    split
    · exact ⟨rfl, rfl, rfl⟩
    · split <;> exact ⟨rfl, rfl, rfl⟩
  | malformedMessage reason => exact ⟨rfl, rfl, rfl⟩
  | disconnected => exact ⟨rfl, rfl, rfl⟩

theorem goStep_spec (hs : goStep codec proxyExternalBase credentials hmacVerify t = some t') :
    SessionMove t t' ∧ t'.forwarder = t.forwarder := by
  have hspec : (t.loop ≠ .ended ∧ t.loop ≠ .panicked) ∧ t'.writer = t.writer ∧
      (t.authenticated = true → t'.authenticated = true) ∧ t'.forwarder = t.forwarder := by
    unfold goStep at hs
    split at hs
    · rename_i heq
      refine ⟨by simp [heq], ?_⟩
      split_ifs at hs
      · cases hs
        exact ⟨rfl, fun h => h, rfl⟩
      · split at hs <;> cases hs <;> exact ⟨rfl, fun h => h, rfl⟩
    · rename_i heq
      refine ⟨by simp [heq], ?_⟩
      split at hs <;> cases hs <;> exact ⟨rfl, fun h => h, rfl⟩
    · rename_i heq
      refine ⟨by simp [heq], ?_⟩
      split at hs <;> cases hs <;> exact ⟨rfl, fun h => h, rfl⟩
    · rename_i heq
      refine ⟨by simp [heq], ?_⟩
      split at hs <;> cases hs <;> exact ⟨rfl, fun h => h, rfl⟩
    · rename_i heq
      cases hs
      exact ⟨by simp [heq], rfl, fun _ => rfl, rfl⟩
    · rename_i heq
      cases hs
      exact ⟨by simp [heq], rfl, fun h => h, rfl⟩
    · cases hs
  exact ⟨sessionMove_of_loop hspec.1.1 hspec.1.2 hspec.2.1 hspec.2.2.1, hspec.2.2.2⟩

def ForwarderStep (t t' : SessionState) : SessionAct → Prop
  | .notified n => t.forwarder = .receiving ∧ t' = { t with forwarder := .checking n }
  | .notifyError => t.forwarder = .receiving ∧ t' = { t with forwarder := .ended }
  | .checkFlag => ∃ n, t.forwarder = .checking n ∧ t'.forwarder = if t.authenticated then .sending n else .receiving
  | .forward => ∃ n, t.forwarder = .sending n ∧ t'.forwarder = if t.writer then .receiving else .ended
  | .abort => t'.loop = .ended ∧ t'.forwarder = .ended
  | _ => t'.forwarder = t.forwarder

structure ForwarderMove (t t' : SessionState) (a : SessionAct) : Prop extends SessionMove t t' where
  forwarder : ForwarderStep t t' a

theorem forwarderMove {a : SessionAct} (hs : sessionStep codec proxyExternalBase credentials hmacVerify t a = some t') :
    ForwarderMove t t' a := by
  cases a with
  | receive ev =>
    rw [sessionStep] at hs
    split at hs
    · rename_i heq
      cases hs
      obtain ⟨hwriter, hauth, hforwarder⟩ := receiveStep_spec codec t ev
      exact ⟨sessionMove_of_loop (by simp [heq]) (by simp [heq]) hwriter fun h => hauth.trans h, hforwarder⟩
    · cases hs
  | go =>
    obtain ⟨hmove, hforwarder⟩ := goStep_spec hs
    exact ⟨hmove, hforwarder⟩
  | perform =>
    rw [sessionStep] at hs
    split at hs
    · rename_i heq
      cases hs
      exact ⟨sessionMove_of_loop (by simp [heq]) (by simp [heq]) rfl fun h => h, rfl⟩
    · cases hs
  | answer f =>
    rw [sessionStep] at hs
    split at hs
    · rename_i heq
      cases hs
      exact ⟨sessionMove_of_loop (by simp [heq]) (by simp [heq]) rfl fun h => h, rfl⟩
    · cases hs
  | notified n =>
    rw [sessionStep] at hs
    split at hs
    · rename_i heq
      cases hs
      exact ⟨sessionMove_of_eq rfl (fun h => h) rfl, heq, rfl⟩
    · cases hs
  | notifyError =>
    rw [sessionStep] at hs
    split at hs
    · rename_i heq
      cases hs
      exact ⟨sessionMove_of_eq rfl (fun h => h) rfl, heq, rfl⟩
    · cases hs
  | checkFlag =>
    rw [sessionStep] at hs
    split at hs
    · rename_i n heq
      cases hs
      exact ⟨sessionMove_of_eq rfl (fun h => h) rfl, n, heq, rfl⟩
    · cases hs
  | forward =>
    rw [sessionStep] at hs
    split at hs
    · rename_i n heq
      split_ifs at hs with hwriter
      · cases hs
        exact ⟨sessionMove_of_eq rfl (fun h => h) rfl, n, heq, (if_pos hwriter).symm⟩
      · cases hs
        exact ⟨sessionMove_of_eq rfl (fun h => h) rfl, n, heq, (if_neg hwriter).symm⟩
    · cases hs
  | abort =>
    rw [sessionStep] at hs
    split at hs
    · rename_i heq
      cases hs
      exact ⟨sessionMove_of_eq rfl (fun h => h) rfl, heq, rfl⟩
    · cases hs
  | writerGone =>
    cases hs
    exact ⟨sessionMove_of_eq rfl (fun h => by cases h) rfl, rfl⟩
  | others cache =>
    cases hs
    exact ⟨sessionMove_of_eq rfl (fun h => h) rfl, rfl⟩
  | tick now =>
    rw [sessionStep] at hs
    split_ifs at hs
    cases hs
    exact ⟨sessionMove_of_eq rfl (fun h => h) rfl, rfl⟩

/-! Receiving -/

structure NotifyInv (s : NotifyState) : Prop where
  place : s.next ≤ s.sent.length
  owed : ∀ j ∈ s.owed, j < s.sent.length
  received : ∀ j ∈ s.received, j < s.next
  forwarded : ∀ j ∈ s.forwarded, j < s.next
  held : ∀ n, s.session.forwarder = .checking n ∨ s.session.forwarder = .sending n → 0 < s.next
  authenticated : s.owed ≠ [] → s.session.authenticated = true
  missed : ∀ m, s.missed = some m → m ≤ s.sent.length
  behind : s.missed = none → s.sent.length ≤ s.next + notifyCapacity
  ended : s.session.on = true → s.session.forwarder = .ended → s.missed ≠ none
  /-- what is received is forwarded -/
  through : s.session.on = true → ∀ j ∈ s.owed, j ∈ s.received → j ∈ s.forwarded ∨ ToCome s j

theorem notifyInv_init (nonceCache : List (String × Int64)) (clock : Int64) : NotifyInv (.init nonceCache clock) where
  place := Nat.le_refl 0
  owed := fun j hj => by cases hj
  received := fun j hj => by cases hj
  forwarded := fun j hj => by cases hj
  held := fun n hn => by rcases hn with hn | hn <;> cases hn
  authenticated := fun h => absurd rfl h
  missed := fun m hm => by cases hm
  behind := fun _ => Nat.zero_le _
  ended := fun _ hf => by cases hf
  through := fun _ j hj => by cases hj

theorem toCome_congr (s s' : NotifyState) (hf : s'.session.forwarder = s.session.forwarder) (hnext : s'.next = s.next) :
    ToCome s' j ↔ ToCome s j := by rw [ToCome, hf, hnext, ToCome]

/-- Nothing that is on its way is lost by a step of the session. -/
theorem through_session {a : SessionAct} (h : NotifyInv s) (hmove : ForwarderMove s.session t a)
    (ha : (∀ n, a ≠ .notified n) ∧ a ≠ .notifyError) (hon : t.on = true) (hj : j ∈ s.owed)
    (hthrough : j ∈ s.forwarded ∨ ToCome s j) : j ∈ (s.after a t).forwarded ∨ ToCome (s.after a t) j := by
  have hf := hmove.forwarder
  cases a with
  | notified n => exact absurd rfl (ha.1 n)
  | notifyError => exact absurd rfl ha.2
  | abort => exact absurd hf.1 (on_iff.mp hon).1
  | checkFlag =>
    obtain ⟨n, hbefore, hafter⟩ := hf
    rw [h.authenticated (List.ne_nil_of_mem hj), if_pos rfl] at hafter
    refine hthrough.imp (fun hfor => hfor) fun hcome => ?_
    rw [ToCome, hbefore] at hcome
    have hsending : ToCome { s with session := t } j := by
      rw [ToCome, hafter]
      exact hcome
    exact hsending
  | forward =>
    obtain ⟨n, hbefore, hafter⟩ := hf
    have hwriter := (on_iff.mp (hmove.on hon)).2.2
    have hpos := h.held n (Or.inr hbefore)
    rw [hwriter, if_pos rfl] at hafter
    rw [ToCome, NotifyState.after, hafter, hwriter, if_pos rfl, List.mem_append, List.mem_singleton]
    rcases hthrough with hfor | hcome
    · exact Or.inl (Or.inl hfor)
    · rw [ToCome, hbefore] at hcome
      by_cases hlast : j = s.next - 1
      · exact Or.inl (Or.inr hlast)
      · refine Or.inr ?_
        dsimp only at hcome ⊢
        omega
  | receive | go | perform | answer | writerGone | others | tick =>
    exact hthrough.imp (fun hfor => hfor) (toCome_congr s { s with session := t } hf rfl).mpr

theorem after_eq (s : NotifyState) (a : SessionAct) (t : SessionState) :
    (s.after a t).session = t ∧ (s.after a t).next = s.next ∧ (s.after a t).sent = s.sent ∧
      (s.after a t).missed = s.missed ∧ (s.after a t).owed = s.owed ∧ (s.after a t).received = s.received := by
  unfold NotifyState.after
  split <;> exact ⟨rfl, rfl, rfl, rfl, rfl, rfl⟩

theorem notifyInv_session {a : SessionAct} (h : NotifyInv s) (hmove : ForwarderMove s.session t a)
    (ha : (∀ n, a ≠ .notified n) ∧ a ≠ .notifyError) : NotifyInv (s.after a t) := by
  obtain ⟨hsession, hnext, hsent, hmissed, howed, hreceived⟩ := after_eq s a t
  have hf := hmove.forwarder
  refine ⟨?_, ?_, ?_, ?_, ?_, ?_, ?_, ?_, ?_, ?_⟩
  · rw [hnext, hsent]
    exact h.place
  · rw [howed, hsent]
    exact h.owed
  · rw [hreceived, hnext]
    exact h.received
  · rw [hnext]
    intro j hj
    unfold NotifyState.after at hj
    split at hj
    · obtain ⟨n, hbefore, -⟩ := hf
      have hpos := h.held n (Or.inr hbefore)
      dsimp only at hj
      split_ifs at hj
      · rcases List.mem_append.mp hj with hold | hnew
        · exact h.forwarded j hold
        · rw [List.mem_singleton.mp hnew]
          omega
      · exact h.forwarded j hj
    · exact h.forwarded j hj
  · rw [hnext, hsession]
    intro n hn
    cases a with
    | notified n => exact absurd rfl (ha.1 n)
    | notifyError => exact absurd rfl ha.2
    | abort => rcases hn with hn | hn <;> cases hf.2.symm.trans hn
    | checkFlag =>
      obtain ⟨m, hbefore, -⟩ := hf
      exact h.held m (Or.inl hbefore)
    | forward =>
      obtain ⟨m, hbefore, -⟩ := hf
      exact h.held m (Or.inr hbefore)
    | receive | go | perform | answer | writerGone | others | tick =>
      have hplain : t.forwarder = s.session.forwarder := hf
      exact h.held n (hplain ▸ hn)
  · rw [howed, hsession]
    exact fun hne => hmove.authenticated (h.authenticated hne)
  · rw [hmissed, hsent]
    exact h.missed
  · rw [hmissed, hsent, hnext]
    exact h.behind
  · rw [hsession, hmissed]
    intro hon hended
    cases a with
    | notified n => exact absurd rfl (ha.1 n)
    | notifyError => exact absurd rfl ha.2
    | abort => exact absurd hf.1 (on_iff.mp hon).1
    | checkFlag =>
      obtain ⟨m, -, hafter⟩ := hf
      rw [hended] at hafter
      split_ifs at hafter
    | forward =>
      obtain ⟨m, -, hafter⟩ := hf
      rw [hended, (on_iff.mp (hmove.on hon)).2.2, if_pos rfl] at hafter
      cases hafter
    | receive | go | perform | answer | writerGone | others | tick =>
      have hplain : t.forwarder = s.session.forwarder := hf
      exact h.ended (hmove.on hon) (hplain.symm.trans hended)
  · rw [hsession, howed, hreceived]
    exact fun hon j hj hrec => through_session h hmove ha hon hj (h.through (hmove.on hon) j hj hrec)

theorem kept_session {a : SessionAct} (h : NotifyInv s) (hq : NotifyKept s) (hmove : ForwarderMove s.session t a)
    (ha : (∀ n, a ≠ .notified n) ∧ a ≠ .notifyError) : NotifyKept (s.after a t) := by
  obtain ⟨hsession, -, hsent, hmissed, howed, hreceived⟩ := after_eq s a t
  rw [NotifyKept, hsession, hmissed, howed, hsent, hreceived]
  intro hon m hm j hj hmj hwhere
  exact through_session h hmove ha hon hj (hq (hmove.on hon) m hm j hj hmj hwhere)

theorem notifyCapacity_pos : 0 < notifyCapacity := by
  rw [notifyCapacity]
  decide

theorem mem_owed_broadcast {n : AgentNotify} : j ∈ (broadcast s n).owed ↔
    j ∈ s.owed ∨ (j = s.sent.length ∧ s.session.authenticated = true ∧ s.session.on = true) := by
  dsimp only [broadcast]
  split_ifs with howed
  · rw [List.mem_append, List.mem_singleton]
    rw [Bool.and_eq_true] at howed
    exact or_congr Iff.rfl (and_iff_left howed).symm
  · rw [Bool.and_eq_true] at howed
    exact (or_iff_left fun hnew => howed hnew.2).symm

theorem length_broadcast (s : NotifyState) (n : AgentNotify) : (broadcast s n).sent.length = s.sent.length + 1 :=
  List.length_append

/-- The receiver first misses a notification with this one. -/
theorem missed_broadcast {n : AgentNotify} {m : ℕ} (h : (broadcast s n).missed = some m) :
    s.missed = some m ∨ m = s.sent.length + 1 := by
  dsimp only [broadcast] at h
  cases hmissed : s.missed with
  | some m' =>
    rw [hmissed, Option.some_or] at h
    exact Or.inl h
  | none =>
    rw [hmissed, Option.none_or] at h
    split_ifs at h
    exact Or.inr (Option.some.inj h).symm

theorem behind_broadcast {n : AgentNotify} (h : (broadcast s n).missed = none) :
    s.sent.length + 1 ≤ s.next + notifyCapacity := by
  dsimp only [broadcast] at h
  rw [Option.or_eq_none_iff] at h
  by_contra hlt
  rw [if_pos (Nat.lt_of_not_le hlt)] at h
  cases h.2

theorem notifyInv_broadcast (h : NotifyInv s) (n : AgentNotify) : NotifyInv (broadcast s n) where
  place := by
    rw [length_broadcast]
    exact Nat.le_succ_of_le h.place
  owed := by
    intro j hj
    rw [length_broadcast]
    rcases mem_owed_broadcast.mp hj with hold | ⟨rfl, -, -⟩
    · exact Nat.lt_succ_of_lt (h.owed j hold)
    · exact Nat.lt_succ_self _
  received := h.received
  forwarded := h.forwarded
  held := h.held
  authenticated := by
    intro hne
    obtain ⟨j, hj⟩ := List.exists_mem_of_ne_nil _ hne
    rcases mem_owed_broadcast.mp hj with hold | ⟨-, hauth, -⟩
    · exact h.authenticated (List.ne_nil_of_mem hold)
    · exact hauth
  missed := by
    intro m hm
    rw [length_broadcast]
    rcases missed_broadcast hm with hold | rfl
    · exact Nat.le_succ_of_le (h.missed m hold)
    · exact Nat.le_refl _
  behind := by
    rw [length_broadcast]
    exact behind_broadcast
  ended := by
    intro hon hended
    obtain ⟨m, hm⟩ := Option.ne_none_iff_exists'.mp (h.ended hon hended)
    dsimp only [broadcast]
    rw [hm, Option.some_or]
    exact Option.some_ne_none m
  through := by
    intro hon j hj hreceived
    have hlt := Nat.lt_of_lt_of_le (h.received j hreceived) h.place
    rcases mem_owed_broadcast.mp hj with hold | ⟨rfl, -, -⟩
    · exact h.through hon j hold hreceived
    · exact absurd hlt (Nat.lt_irrefl _)

theorem kept_broadcast (h : NotifyInv s) (hq : NotifyKept s) (n : AgentNotify) :
    NotifyKept (broadcast s n) ↔ LagCovered s (.broadcast n) := by
  constructor
  · intro hafter hended hon
    by_contra hauth
    rw [Bool.not_eq_false] at hauth
    obtain ⟨m, hm⟩ := Option.ne_none_iff_exists'.mp (h.ended hon hended)
    have hmissed : (broadcast s n).missed = some m := by
      dsimp only [broadcast]
      rw [hm, Option.some_or]
    have hnew := mem_owed_broadcast (n := n).mpr (Or.inr ⟨rfl, hauth, hon⟩)
    have hretained : (broadcast s n).sent.length ≤ s.sent.length + notifyCapacity := by
      rw [length_broadcast]
      exact Nat.add_le_add_left notifyCapacity_pos _
    rcases hafter hon m hmissed _ hnew (h.missed m hm) (Or.inr hretained) with hfor | hcome
    · exact absurd (Nat.lt_of_lt_of_le (h.forwarded _ hfor) h.place) (Nat.lt_irrefl _)
    · rw [ToCome] at hcome
      dsimp only [broadcast] at hcome
      rw [hended] at hcome
      exact hcome
  · intro hcovered hon m hm j hj hmj hwhere
    rcases mem_owed_broadcast.mp hj with hold | ⟨rfl, hauth, -⟩
    · rcases missed_broadcast hm with hm | rfl
      · refine hq hon m hm j hold hmj (hwhere.imp (fun hreceived => hreceived) fun hretained => ?_)
        rw [length_broadcast] at hretained
        omega
      · have hlt := h.owed j hold
        omega
    · refine Or.inr ?_
      have hplace := h.place
      rw [ToCome]
      dsimp only [broadcast]
      cases hf : s.session.forwarder with
      | receiving => exact hplace
      | checking n => exact Nat.le_succ_of_le hplace
      | sending n => exact Nat.le_succ_of_le hplace
      | ended => cases (hcovered hf hon).symm.trans hauth

/-- `recv` returns a lag, or the next notification. -/
theorem recvStep_cases (hs : recvStep codec proxyExternalBase credentials hmacVerify s = some s') :
    s.session.forwarder = .receiving ∧
      ((s.next < oldest notifyCapacity s.sent ∧
          s' = { s with session := { s.session with forwarder := .ended }, next := oldest notifyCapacity s.sent }) ∨
        ∃ n, oldest notifyCapacity s.sent ≤ s.next ∧ s.next < s.sent.length ∧ s' = { s with
          session := { s.session with forwarder := .checking n }
          next := s.next + 1
          received := s.received ++ [s.next] }) := by
  unfold recvStep at hs
  dsimp only at hs
  split at hs
  · cases hs
  · rename_i missed next hrecv
    obtain ⟨hat, hpos, hnext⟩ := Broadcast.recv_lagged hrecv
    rw [hnext] at hs
    obtain ⟨t, ht, rfl⟩ := Option.map_eq_some_iff.mp hs
    obtain ⟨hreceiving, rfl⟩ := (forwarderMove ht).forwarder
    exact ⟨hreceiving, Or.inl ⟨hat ▸ Nat.lt_add_of_pos_right hpos, rfl⟩⟩
  · rename_i n next hrecv
    obtain ⟨hle, hn, rfl⟩ := Broadcast.recv_value hrecv
    obtain ⟨t, ht, rfl⟩ := Option.map_eq_some_iff.mp hs
    obtain ⟨hreceiving, rfl⟩ := (forwarderMove ht).forwarder
    exact ⟨hreceiving, Or.inr ⟨n, hle, (List.getElem?_eq_some_iff.mp hn).1, rfl⟩⟩

/-- A forwarder that receives has forwarded all it has received. -/
theorem forwarded_of_receiving (h : NotifyInv s) (hreceiving : s.session.forwarder = .receiving) (hon : s.session.on = true)
    (hj : j ∈ s.owed) (hreceived : j ∈ s.received) : j ∈ s.forwarded := by
  rcases h.through hon j hj hreceived with hfor | hcome
  · exact hfor
  · rw [ToCome, hreceiving] at hcome
    exact absurd (h.received j hreceived) (Nat.not_lt_of_le hcome)

theorem recv_lagged_spec (h : NotifyInv s) (hreceiving : s.session.forwarder = .receiving)
    (hbehind : s.next < oldest notifyCapacity s.sent) :
    NotifyInv { s with session := { s.session with forwarder := .ended }, next := oldest notifyCapacity s.sent } ∧
      (NotifyKept { s with session := { s.session with forwarder := .ended }, next := oldest notifyCapacity s.sent } ↔
        LagCovered s .recv) := by
  have hplace : oldest notifyCapacity s.sent ≤ s.sent.length := Nat.sub_le _ _
  have hmissed : s.missed ≠ none := by
    intro hnone
    have hle := h.behind hnone
    unfold oldest at hbehind
    omega
  refine ⟨⟨hplace, h.owed, fun j hj => Nat.lt_trans (h.received j hj) hbehind,
    fun j hj => Nat.lt_trans (h.forwarded j hj) hbehind, fun n hn => ?_, h.authenticated, h.missed,
    fun hnone => absurd hnone hmissed, fun _ _ => hmissed,
    fun hon j hj hreceived => Or.inl (forwarded_of_receiving (s := s) h hreceiving hon hj hreceived)⟩, ?_, ?_⟩
  · rcases hn with hn | hn <;> cases hn
  · intro hafter _ hon m hm j hj hmj
    by_contra hretained
    rcases hafter hon m hm j hj hmj (Or.inr (Nat.le_of_not_lt hretained)) with hfor | hcome
    · have hlt := h.forwarded j hfor
      unfold oldest at hbehind
      omega
    · exact hcome
  · intro hcovered hon m hm j hj hmj hwhere
    rcases hwhere with hreceived | hretained
    · exact Or.inl (forwarded_of_receiving (s := s) h hreceiving hon hj hreceived)
    · exact absurd (hcovered hbehind hon m hm j hj hmj) (Nat.not_lt_of_le hretained)

theorem recv_value_spec (h : NotifyInv s) (hreceiving : s.session.forwarder = .receiving)
    (hlt : s.next < s.sent.length) {n : AgentNotify} {next : NotifyState} (hnext : next = { s with
      session := { s.session with forwarder := .checking n }
      next := s.next + 1
      received := s.received ++ [s.next] }) : NotifyInv next ∧ (NotifyKept s → NotifyKept next) := by
  -- what was still to be received is, or is in the forwarder's hands
  have hcome : ∀ j, ToCome s j → ToCome next j := by
    intro j hj
    rw [ToCome, hreceiving] at hj
    rw [hnext, ToCome]
    exact Nat.succ_le_succ hj
  have hreceived : ∀ j ∈ next.received, j ∈ s.received ∨ j = s.next := by
    intro j hj
    rw [hnext] at hj
    exact (List.mem_append.mp hj).imp (fun hold => hold) List.mem_singleton.mp
  have hnew : ToCome next s.next := by
    rw [hnext, ToCome]
  have hthrough : s.session.on = true → ∀ j ∈ s.owed, j ∈ next.received → j ∈ s.forwarded ∨ ToCome next j := by
    intro hon j hj hrec
    rcases hreceived j hrec with hold | rfl
    · exact Or.inl (forwarded_of_receiving h hreceiving hon hj hold)
    · exact Or.inr hnew
  constructor
  · rw [hnext] at hthrough hreceived ⊢
    refine ⟨hlt, h.owed, fun j hj => ?_, fun j hj => Nat.lt_succ_of_lt (h.forwarded j hj), fun _ _ => Nat.succ_pos _,
      h.authenticated, h.missed, fun hnone => ?_, (fun _ hended => by cases hended), hthrough⟩
    · rcases hreceived j hj with hold | rfl
      · exact Nat.lt_succ_of_lt (h.received j hold)
      · exact Nat.lt_succ_self _
    · have hle := h.behind hnone
      dsimp only
      omega
  · intro hq hon m hm j hj hmj hwhere
    rcases hwhere with hrec | hretained
    · rw [hnext] at hon hj hthrough hrec ⊢
      exact hthrough hon j hj hrec
    · have hold : j ∈ s.forwarded ∨ ToCome s j := by
        rw [hnext] at hon hm hj hretained
        exact hq hon m hm j hj hmj (Or.inr hretained)
      rcases hold with hfor | hc
      · rw [hnext]
        exact Or.inl hfor
      · exact Or.inr (hcome j hc)

/-! Runs -/

theorem notifyStep_spec {a : NotifyAct} (h : NotifyInv s)
    (hs : notifyStep codec proxyExternalBase credentials hmacVerify s a = some s') :
    NotifyInv s' ∧ (NotifyKept s → (NotifyKept s' ↔ LagCovered s a)) := by
  cases a with
  | session a =>
    by_cases ha : (∀ n, a ≠ .notified n) ∧ a ≠ .notifyError
    · have hmap : (sessionStep codec proxyExternalBase credentials hmacVerify s.session a).map (s.after a) = some s' := by
        cases a with
        | notified n => exact absurd rfl (ha.1 n)
        | notifyError => exact absurd rfl ha.2
        | _ => exact hs
      obtain ⟨t, ht, rfl⟩ := Option.map_eq_some_iff.mp hmap
      have hmove := forwarderMove ht
      exact ⟨notifyInv_session h hmove ha, fun hq => iff_of_true (kept_session h hq hmove ha) trivial⟩
    · cases a with
      | notified n => cases hs
      | notifyError => cases hs
      | _ => exact absurd ⟨(fun n hn => by cases hn), (fun hn => by cases hn)⟩ ha
  | broadcast n =>
    cases hs
    exact ⟨notifyInv_broadcast h n, fun hq => kept_broadcast h hq n⟩
  | recv =>
    rw [notifyStep] at hs
    obtain ⟨hreceiving, ⟨hbehind, heq⟩ | ⟨n, hle, hlt, heq⟩⟩ := recvStep_cases hs
    · rw [heq]
      obtain ⟨hinv, hkept⟩ := recv_lagged_spec h hreceiving hbehind
      exact ⟨hinv, fun _ => hkept⟩
    · obtain ⟨hinv, hkept⟩ := recv_value_spec h hreceiving hlt heq
      exact ⟨hinv, fun hq => iff_of_true (hkept hq) fun hbehind => absurd hle (Nat.not_le_of_lt hbehind)⟩

/-- While the session runs, all that is sent for its authenticated client after the receiver has missed some is forwarded
or still comes, exactly if no lag is reported while some of it is retained, and none is sent after such a report. -/
theorem notifyKept_iff_lagCovered (nonceCache : List (String × Int64)) (clock : Int64) {acts : List NotifyAct}
    (h : run (notifyStep codec proxyExternalBase credentials hmacVerify) (.init nonceCache clock) acts = some s) :
    (∀ acts' s', acts' <+: acts →
      run (notifyStep codec proxyExternalBase credentials hmacVerify) (.init nonceCache clock) acts' =
        some s' → NotifyKept s') ↔
      RunOk (notifyStep codec proxyExternalBase credentials hmacVerify) LagCovered (.init nonceCache clock) acts :=
  (runOk_iff_prefixes (H := fun _ _ => True) NotifyInv NotifyKept
    (fun _ _ _ hI hq _ hs => ⟨(notifyStep_spec hI hs).1, (notifyStep_spec hI hs).2 hq⟩)
    (notifyInv_init nonceCache clock) (fun _ m hm => by cases hm) (runOk_of_forall (fun _ _ => trivial) _ _) h).symm

/-- Where the forwarder has nothing left to do, what still comes is nothing. -/
theorem not_toCome_of_rest (hrest : s.session.forwarder = .receiving ∧ s.sent.length ≤ s.next ∨
      s.session.forwarder = .ended)
    (hj : j < s.sent.length) : ¬ ToCome s j := by
  rw [ToCome]
  rcases hrest with ⟨hreceiving, hle⟩ | hended
  · rw [hreceiving]
    exact Nat.not_le_of_lt (Nat.lt_of_lt_of_le hj hle)
  · rw [hended]
    exact fun h => h

/-! Sessions -/

def authenticateRun : List NotifyAct :=
  [.session (.receive (.message (exampleRequest 1 "gateway/hello" (exampleHelloValue exampleHello)))), .session .go,
    .session .go,
    .session .go, .session .go, .session .go]

def exampleStep : NotifyState → NotifyAct → Option NotifyState :=
  notifyStep exampleCodec exampleBase [("key", "secret")] exampleVerify

def authenticatedExample : NotifyState := (run exampleStep (.init [] 1000) authenticateRun).getD (.init [] 1000)

theorem run_authenticate : run exampleStep (.init [] 1000) authenticateRun = some authenticatedExample := rfl

def notifyRun : List NotifyAct :=
  authenticateRun ++ [.broadcast exampleNotify, .recv, .session .checkFlag, .session .forward]

theorem recvStep_of_retained (codec : Codec) (proxyExternalBase : String) (credentials : List (String × String))
    (hmacVerify : String → String → List UInt8 → Bool) {n : AgentNotify}
    (hreceiving : s.session.forwarder = .receiving)
    (hretained : ¬ s.next < oldest notifyCapacity s.sent) (hn : s.sent[s.next]? = some n) :
    recvStep codec proxyExternalBase credentials hmacVerify s = some { s with
      session := { s.session with forwarder := .checking n }
      next := s.next + 1
      received := s.received ++ [s.next] } := by
  rw [recvStep, recv, if_neg hretained, hn]
  dsimp only
  rw [sessionStep, hreceiving]
  dsimp only
  rw [Option.map_some]

theorem notifyKept_iff_lagCovered_run : ∃ s, run exampleStep (.init [] 1000) notifyRun = some s ∧
    ∀ acts' s', acts' <+: notifyRun → run exampleStep (.init [] 1000) acts' = some s' → NotifyKept s' := by
  have hretained : ¬ 0 < oldest notifyCapacity [exampleNotify] := by
    have hpos := notifyCapacity_pos
    rw [oldest, List.length_singleton]
    omega
  have hrecv := recvStep_of_retained (s := broadcast authenticatedExample exampleNotify) exampleCodec exampleBase
    [("key", "secret")] exampleVerify rfl hretained rfl
  have hrun := run_append run_authenticate (run_of_step (e := NotifyAct.broadcast exampleNotify) rfl
    (run_of_step (e := NotifyAct.recv) hrecv (run_of_step (e := NotifyAct.session .checkFlag) rfl
      (run_of_step (e := NotifyAct.session .forward) rfl (run_nil _)))))
  refine ⟨_, hrun, (notifyKept_iff_lagCovered [] 1000 hrun).mpr (runOk_append run_authenticate ?_ ?_)⟩
  · exact runOk_cons rfl trivial (runOk_cons rfl trivial (runOk_cons rfl trivial (runOk_cons rfl trivial
      (runOk_cons rfl trivial (runOk_cons rfl trivial trivial)))))
  · exact runOk_cons rfl (fun hended => by cases hended) (runOk_cons hrecv (fun hbehind => absurd hbehind hretained)
      (runOk_cons rfl trivial (runOk_cons rfl trivial trivial)))

theorem run_broadcasts (codec : Codec) (proxyExternalBase : String) (credentials : List (String × String))
    (hmacVerify : String → String → List UInt8 → Bool) (s : NotifyState) (n : AgentNotify) (k : ℕ) : ∃ s',
    run (notifyStep codec proxyExternalBase credentials hmacVerify) s (List.replicate k (.broadcast n)) = some s' ∧
      s'.session = s.session ∧ s'.next = s.next ∧ s'.sent.length = s.sent.length + k := by
  induction k generalizing s with
  | zero => exact ⟨s, rfl, rfl, rfl, rfl⟩
  | succ k ih =>
    obtain ⟨s', hrun, hsession, hnext, hlength⟩ := ih (broadcast s n)
    refine ⟨s', run_of_step rfl hrun, hsession, hnext, ?_⟩
    rw [hlength, length_broadcast]
    omega

theorem recvStep_of_behind (codec : Codec) (proxyExternalBase : String) (credentials : List (String × String))
    (hmacVerify : String → String → List UInt8 → Bool) (hreceiving : s.session.forwarder = .receiving)
    (hbehind : s.next < oldest notifyCapacity s.sent) : recvStep codec proxyExternalBase credentials hmacVerify s =
      some { s with session := { s.session with forwarder := .ended }, next := oldest notifyCapacity s.sent } := by
  rw [recvStep, recv, if_pos hbehind]
  dsimp only
  rw [sessionStep, hreceiving]
  dsimp only
  rw [Option.map_some]

/-- One notification more than the channel retains, the report of the lag, and another notification. -/
theorem lag_ends_forwarding : ¬ ∀ (codec : Codec) (proxyExternalBase : String) (credentials : List (String × String))
    (hmacVerify : String → String → List UInt8 → Bool) (nonceCache : List (String × Int64)) (clock : Int64)
    (acts : List NotifyAct) (s : NotifyState),
    run (notifyStep codec proxyExternalBase credentials hmacVerify) (.init nonceCache clock) acts = some s →
      NotifyKept s := by
  intro hall
  have hkept : ∀ acts s, run exampleStep (.init [] 1000) acts = some s → NotifyKept s :=
    hall exampleCodec exampleBase [("key", "secret")] exampleVerify [] 1000
  obtain ⟨slow, hslow, hsession, hnext, hlength⟩ := run_broadcasts exampleCodec exampleBase [("key", "secret")]
    exampleVerify authenticatedExample exampleNotify (notifyCapacity + 1)
  have hbehind : slow.next < oldest notifyCapacity slow.sent := by
    rw [hnext, oldest, hlength]
    have hnew : authenticatedExample.next = 0 := rfl
    omega
  have hrecv := recvStep_of_behind exampleCodec exampleBase [("key", "secret")] exampleVerify (hsession ▸ rfl) hbehind
  have hlagged := run_append (run_append run_authenticate hslow) (run_of_step (e := NotifyAct.recv) hrecv (run_nil _))
  have hinv := run_inv_all NotifyInv (fun _ _ _ hI hs => (notifyStep_spec hI hs).1) (notifyInv_init [] 1000) hlagged
  have hafter := run_append hlagged (run_of_step (e := NotifyAct.broadcast exampleNotify) rfl (run_nil _))
  have hcovered := (kept_broadcast hinv (hkept _ _ hlagged) exampleNotify).mp (hkept _ _ hafter) rfl
  dsimp only at hcovered
  rw [hsession] at hcovered
  cases hcovered rfl

end Nexal.Gateway
