import Nexal.Spec.Hello

/-! The replay guard. A nonce is kept for 600 seconds after the clock reading of its hello, and a
hello is let through up to 300 seconds after its timestamp; but a call takes the lock of the cache
some time after it has read the clock. -/

namespace Nexal.Gateway

open Runs

def SameHello (p q : HelloParams) : Prop := p.accessKey = q.accessKey ∧ p.ts = q.ts ∧ p.nonce = q.nonce

def HelloCall.Accepted (c : HelloCall) : Prop := c.phase = .done (.ok (.ok ()))

def NoReplay (s : GuardState) : Prop :=
  ∀ (i j : ℕ) (c d : HelloCall), s.calls[i]? = some c → s.calls[j]? = some d → c.Accepted → d.Accepted →
    SameHello c.params d.params → i = j

/-- When a hello whose like is in the cache takes the lock, neither its own clock reading nor one
that the cache was pruned with is past the end of its window. -/
def EntersInTime (s : GuardState) : GuardAct → Prop
  | .enter i => ∀ (c : HelloCall) (now : Int64), s.calls[i]? = some c → c.phase = .locking now →
    (∃ (j : ℕ) (d : HelloCall), j ≠ i ∧ s.calls[j]? = some d ∧ d.inserted = true ∧
      SameHello d.params c.params) →
    ∀ r ∈ now :: s.prunes, r.toInt ≤ c.params.ts.toInt + 300
  | _ => True

/-- The nonce is in the cache with a reading from its window, or the cache was pruned after the window. -/
def Kept (s : GuardState) (p : HelloParams) : Prop :=
  (∃ seen, (p.nonce, seen) ∈ s.nonceCache ∧ p.ts.toInt - 300 ≤ seen.toInt) ∨
    ∃ r ∈ s.prunes, p.ts.toInt + 300 < r.toInt

def CallInv (c : HelloCall) : Prop :=
  match c.phase with
  | .started => c.inserted = false
  | .locking now => 0 ≤ now.toInt ∧ stale now c.params.ts = false ∧ c.inserted = false
  | .verifying => c.inserted = true
  | .done (.ok (.ok ())) => c.inserted = true
  | .done _ => True

structure GuardInv (s : GuardState) : Prop where
  clock : 0 ≤ s.clock.toInt
  seen : ∀ nonce seen, (nonce, seen) ∈ s.nonceCache → 0 ≤ seen.toInt
  calls : ∀ c ∈ s.calls, CallInv c
  kept : ∀ c ∈ s.calls, c.inserted = true → Kept s c.params
  once : ∀ (i j : ℕ) (c d : HelloCall), s.calls[i]? = some c → s.calls[j]? = some d → c.inserted = true →
    d.inserted = true → SameHello c.params d.params → i = j

variable {credentials : List (String × String)} {hmacVerify : String → String → List UInt8 → Bool}
  {s s' : GuardState} {i : ℕ} {c : HelloCall}

theorem GuardInv.noReplay (h : GuardInv s) : NoReplay s := by
  have hinserted : ∀ (j : ℕ) (d : HelloCall), s.calls[j]? = some d → d.Accepted → d.inserted = true := by
    intro j d hd haccepted
    have hcall := h.calls d (List.mem_of_getElem? hd)
    rw [CallInv, haccepted] at hcall
    exact hcall
  intro i j c d hc hd haccepted haccepted' hsame
  exact h.once i j c d hc hd (hinserted i c hc haccepted) (hinserted j d hd haccepted') hsame

/-- A call goes on outside the critical section. -/
theorem GuardInv.set {phase : HelloPhase} (h : GuardInv s) (hc : s.calls[i]? = some c)
    (hnew : CallInv { c with phase := phase }) : GuardInv (s.set i { c with phase := phase }) := by
  have hold : ∀ d ∈ (s.set i { c with phase := phase }).calls,
      ∃ d' ∈ s.calls, d.params = d'.params ∧ d.inserted = d'.inserted := by
    intro d hd
    rcases List.mem_or_eq_of_mem_set hd with hd | rfl
    · exact ⟨d, hd, rfl, rfl⟩
    · exact ⟨c, List.mem_of_getElem? hc, rfl, rfl⟩
  have hback : ∀ (j : ℕ) (d : HelloCall), (s.set i { c with phase := phase }).calls[j]? = some d →
      ∃ d', s.calls[j]? = some d' ∧ d.params = d'.params ∧ d.inserted = d'.inserted := by
    intro j d hd
    rcases Lists.getElem?_set_cases hd with ⟨rfl, rfl⟩ | ⟨-, hd⟩
    · exact ⟨c, hc, rfl, rfl⟩
    · exact ⟨d, hd, rfl, rfl⟩
  refine ⟨h.clock, h.seen, fun d hd => ?_, fun d hd hinserted => ?_, fun j k d e hd he hdi hei hsame => ?_⟩
  · rcases List.mem_or_eq_of_mem_set hd with hd | rfl
    · exact h.calls d hd
    · exact hnew
  · obtain ⟨d', hd', hparams, hins⟩ := hold d hd
    rw [hparams]
    exact h.kept d' hd' (hins ▸ hinserted)
  · obtain ⟨d', hd', hdp, hdins⟩ := hback j d hd
    obtain ⟨e', he', hep, heins⟩ := hback k e he
    rw [hdp, hep] at hsame
    exact h.once j k d' e' hd' he' (hdins ▸ hdi) (heins ▸ hei) hsame

theorem guardInv_call {p : HelloParams} (h : GuardInv s) (hs : guardStep credentials hmacVerify s (.call p) = some s') :
    GuardInv s' := by
  cases hs
  have hnew : ∀ d ∈ s.calls ++ [⟨p, .started, false⟩], d ∈ s.calls ∨ d = ⟨p, .started, false⟩ := by
    intro d hd
    rcases List.mem_append.mp hd with hd | hd
    · exact Or.inl hd
    · exact Or.inr (List.mem_singleton.mp hd)
  have hback : ∀ (j : ℕ) (d : HelloCall), (s.calls ++ [⟨p, .started, false⟩])[j]? = some d → d.inserted = true →
      s.calls[j]? = some d := by
    intro j d hd hinserted
    rcases Lists.getElem?_concat_cases hd with hd | rfl
    · exact hd
    · cases hinserted
  refine ⟨h.clock, h.seen, fun d hd => ?_, fun d hd hinserted => ?_, fun j k d e hd he hdi hei hsame => ?_⟩
  · rcases hnew d hd with hd | rfl
    · exact h.calls d hd
    · rfl
  · rcases hnew d hd with hd | rfl
    · exact h.kept d hd hinserted
    · cases hinserted
  · exact h.once j k d e (hback j d hd hdi) (hback k e he hei) hdi hei hsame

theorem checkHello_ok {now : Int64} {p : HelloParams} (h : checkHello credentials now p = .ok ()) :
    stale now p.ts = false := by
  unfold checkHello at h
  split at h
  · cases h
  · split_ifs at h with hstale
    simpa using hstale

theorem guardInv_check (h : GuardInv s) (hs : guardStep credentials hmacVerify s (.check i) = some s') :
    GuardInv s' := by
  obtain ⟨c, hc, hs⟩ := Option.bind_eq_some_iff.mp hs
  split at hs
  · rename_i hphase
    have hinserted := h.calls c (List.mem_of_getElem? hc)
    rw [CallInv, hphase] at hinserted
    split at hs
    · cases hs
      exact h.set hc trivial
    · rename_i hok
      cases hs
      exact h.set hc ⟨h.clock, checkHello_ok hok, hinserted⟩
  · cases hs

theorem guardInv_verify (h : GuardInv s) (hs : guardStep credentials hmacVerify s (.verify i) = some s') :
    GuardInv s' := by
  obtain ⟨c, hc, hs⟩ := Option.bind_eq_some_iff.mp hs
  split at hs
  · rename_i hphase
    cases hs
    have hinserted := h.calls c (List.mem_of_getElem? hc)
    rw [CallInv, hphase] at hinserted
    refine h.set hc ?_
    unfold CallInv
    split
    · rename_i hset
      cases hset
    · rename_i hset
      cases hset
    · exact hinserted
    · exact hinserted
    · trivial
  · cases hs

/-! The critical section -/

theorem retained_iff {now seen : Int64} (hnow : 0 ≤ now.toInt) (hseen : 0 ≤ seen.toInt) :
    now - seen ≤ helloMaxSkewSecs * 2 ↔ now.toInt - seen.toInt ≤ 600 := by
  have hskew : (helloMaxSkewSecs * 2).toInt = 600 := rfl
  have hbound := now.toInt_lt
  have hbound' := seen.toInt_lt
  have hlow := (now - seen).le_toInt
  have hhigh := (now - seen).toInt_lt
  have hsub := toInt_sub now seen
  rw [Int64.le_iff_toInt_le, hskew]
  omega

theorem mem_retainNonces {now seen : Int64} {nonce : String} {cache : List (String × Int64)} (hnow : 0 ≤ now.toInt)
    (hseen : 0 ≤ seen.toInt) (hmem : (nonce, seen) ∈ cache) (hrecent : now.toInt - seen.toInt ≤ 600) :
    (nonce, seen) ∈ retainNonces now cache :=
  List.mem_filter.mpr ⟨hmem, decide_eq_true ((retained_iff hnow hseen).mpr hrecent)⟩

/-- The cache is pruned. -/
theorem GuardInv.prune {now : Int64} (h : GuardInv s) (hnow : 0 ≤ now.toInt) :
    GuardInv { s with nonceCache := retainNonces now s.nonceCache, prunes := now :: s.prunes } := by
  refine ⟨h.clock, fun nonce seen hmem => h.seen nonce seen (List.mem_filter.mp hmem).1, h.calls, fun c hc hinserted => ?_,
    h.once⟩
  rcases h.kept c hc hinserted with ⟨seen, hmem, hwindow⟩ | ⟨r, hr, hlate⟩
  · have hseen := h.seen _ _ hmem
    by_cases hrecent : now.toInt - seen.toInt ≤ 600
    · exact Or.inl ⟨seen, mem_retainNonces hnow hseen hmem hrecent, hwindow⟩
    · exact Or.inr ⟨now, List.mem_cons_self, by omega⟩
  · exact Or.inr ⟨r, List.mem_cons_of_mem now hr, hlate⟩

/-- In time, the nonce of a hello that was let in before is still there. -/
theorem nonce_found {now : Int64} {j : ℕ} {d : HelloCall} (h : GuardInv s) (htime : EntersInTime s (.enter i))
    (hc : s.calls[i]? = some c) (hphase : c.phase = .locking now) (hnow : 0 ≤ now.toInt) (hji : j ≠ i)
    (hd : s.calls[j]? = some d) (hinserted : d.inserted = true) (hsame : SameHello d.params c.params) :
    ∃ seen, (c.params.nonce, seen) ∈ retainNonces now s.nonceCache := by
  have hreadings := htime c now hc hphase ⟨j, d, hji, hd, hinserted, hsame⟩
  obtain ⟨-, hts, hnonce⟩ := hsame
  rcases h.kept d (List.mem_of_getElem? hd) hinserted with ⟨seen, hmem, hwindow⟩ | ⟨r, hr, hlate⟩
  · rw [hnonce] at hmem
    rw [hts] at hwindow
    have hown := hreadings now List.mem_cons_self
    exact ⟨seen, mem_retainNonces hnow (h.seen _ _ hmem) hmem (by omega)⟩
  · rw [hts] at hlate
    have hpruned := hreadings r (List.mem_cons_of_mem now hr)
    omega

theorem guardInv_insert {now : Int64} (h : GuardInv s) (hc : s.calls[i]? = some c) (hnow : 0 ≤ now.toInt)
    (hstale : stale now c.params.ts = false)
    (hfresh : ∀ (j : ℕ) (d : HelloCall), j ≠ i → s.calls[j]? = some d → d.inserted = true →
      ¬ SameHello d.params c.params) :
    GuardInv { s.set i { c with phase := .verifying, inserted := true } with
      nonceCache := (c.params.nonce, now) :: s.nonceCache } := by
  refine ⟨h.clock, fun nonce seen hmem => ?_, fun d hd => ?_, fun d hd hinserted => ?_,
    fun j k d e hd he hdi hei hsame => ?_⟩
  · rcases List.mem_cons.mp hmem with heq | hmem
    · cases heq
      exact hnow
    · exact h.seen nonce seen hmem
  · rcases List.mem_or_eq_of_mem_set hd with hd | rfl
    · exact h.calls d hd
    · rfl
  · rcases List.mem_or_eq_of_mem_set hd with hd | rfl
    · rcases h.kept d hd hinserted with ⟨seen, hmem, hwindow⟩ | hlate
      · exact Or.inl ⟨seen, List.mem_cons_of_mem _ hmem, hwindow⟩
      · exact Or.inr hlate
    · have hwindow := (stale_eq_false_iff hnow).mp hstale
      exact Or.inl ⟨now, List.mem_cons_self, by dsimp only; omega⟩
  · rcases Lists.getElem?_set_cases hd with ⟨rfl, rfl⟩ | ⟨hji, hold⟩
    · rcases Lists.getElem?_set_cases he with ⟨rfl, -⟩ | ⟨hki, hother⟩
      · rfl
      · obtain ⟨hkey, hts, hnonce⟩ := hsame
        exact absurd ⟨hkey.symm, hts.symm, hnonce.symm⟩ (hfresh k e hki hother hei)
    · rcases Lists.getElem?_set_cases he with ⟨rfl, rfl⟩ | ⟨-, hother⟩
      · exact absurd hsame (hfresh j d hji hold hdi)
      · exact h.once j k d e hold hother hdi hei hsame

theorem guardInv_enter (h : GuardInv s) (htime : EntersInTime s (.enter i))
    (hs : guardStep credentials hmacVerify s (.enter i) = some s') : GuardInv s' := by
  obtain ⟨c, hc, hs⟩ := Option.bind_eq_some_iff.mp hs
  split at hs
  · rename_i now hphase
    have hcall := h.calls c (List.mem_of_getElem? hc)
    rw [CallInv, hphase] at hcall
    obtain ⟨hnow, hstale, -⟩ := hcall
    have hpruned := h.prune hnow
    cases hlookup : (retainNonces now s.nonceCache).lookup c.params.nonce with
    | some seen =>
      simp only [guardNonce, hlookup] at hs
      cases hs
      exact hpruned.set hc trivial
    | none =>
      simp only [guardNonce, hlookup] at hs
      cases hs
      refine guardInv_insert hpruned hc hnow hstale fun j d hji hd hinserted hsame => ?_
      obtain ⟨seen, hmem⟩ := nonce_found h htime hc hphase hnow hji hd hinserted hsame
      have hne := List.lookup_eq_none_iff.mp hlookup _ hmem
      simp at hne
  · cases hs

theorem guardInv_step {a : GuardAct} (h : GuardInv s) (htime : EntersInTime s a)
    (hs : guardStep credentials hmacVerify s a = some s') : GuardInv s' := by
  cases a with
  | call p => exact guardInv_call h hs
  | check i => exact guardInv_check h hs
  | enter i => exact guardInv_enter h htime hs
  | verify i => exact guardInv_verify h hs
  | tick now =>
    rw [guardStep] at hs
    split_ifs at hs with hle
    cases hs
    exact { h with clock := Int.le_trans h.clock (Int64.le_iff_toInt_le.mp hle) }

theorem guardInv_init : GuardInv .init where
  clock := Int.le_refl 0
  seen := fun nonce seen hmem => by cases hmem
  calls := fun c hc => by cases hc
  kept := fun c hc => by cases hc
  once := fun i j c d hc => by cases hc

theorem no_replay_when_entered_in_time (credentials : List (String × String))
    (hmacVerify : String → String → List UInt8 → Bool) (acts : List GuardAct) (s : GuardState)
    (hrun : run (guardStep credentials hmacVerify) .init acts = some s)
    (htime : RunOk (guardStep credentials hmacVerify) EntersInTime .init acts) : NoReplay s :=
  (run_inv GuardInv (fun _ _ _ h hp hs => guardInv_step h hp hs) guardInv_init htime hrun).noReplay

/-! Two runs, with the signatures that the secret gives -/

def exampleHello : HelloParams :=
  ⟨"key", "client", 1000, "nonce", "9eba82c89c6bcd289eb8dbc757e2057b6c2a0833e52f4f42ce3d499a03008d32"⟩

def otherHello : HelloParams :=
  ⟨"key", "client", 1301, "other", "f511e278d97c490d571e434bc9efe278d508678b96c2aad1ff7ad55ab12bfa77"⟩

def exampleSignature : String → Option (List UInt8)
  | "key\n1000\nnonce\nclient" =>
    some [0x9e, 0xba, 0x82, 0xc8, 0x9c, 0x6b, 0xcd, 0x28, 0x9e, 0xb8, 0xdb, 0xc7, 0x57, 0xe2, 0x05, 0x7b,
      0x6c, 0x2a, 0x08, 0x33, 0xe5, 0x2f, 0x4f, 0x42, 0xce, 0x3d, 0x49, 0x9a, 0x03, 0x00, 0x8d, 0x32]
  | "key\n1301\nother\nclient" =>
    some [0xf5, 0x11, 0xe2, 0x78, 0xd9, 0x7c, 0x49, 0x0d, 0x57, 0x1e, 0x43, 0x4b, 0xc9, 0xef, 0xe2, 0x78,
      0xd5, 0x08, 0x67, 0x8b, 0x96, 0xc2, 0xaa, 0xd1, 0xff, 0x7a, 0xd5, 0x5a, 0xb1, 0x2b, 0xfa, 0x77]
  | _ => none

/-- HMAC-SHA256 on the texts of the two hellos -/
def exampleVerify (secret text : String) (sig : List UInt8) : Bool :=
  secret = "secret" && some sig = exampleSignature text

/-- A hello is accepted, and sent once more in the last second of its window. -/
def replayRun : List GuardAct :=
  [.tick 700, .call exampleHello, .check 0, .enter 0, .verify 0, .call exampleHello, .tick 1300, .check 1]

theorem replay_refused_in_time :
    ∃ s, run (guardStep [("key", "secret")] exampleVerify) .init (replayRun ++ [.enter 1]) = some s ∧
      s.calls.map (·.phase) = [.done (.ok (.ok ())), .done (.ok (.error (reject "replayed nonce")))] ∧ NoReplay s := by
  have hrun : ∃ s, run (guardStep [("key", "secret")] exampleVerify) .init (replayRun ++ [.enter 1]) = some s ∧
      s.calls.map (·.phase) = [.done (.ok (.ok ())), .done (.ok (.error (reject "replayed nonce")))] := by
    refine ⟨_, rfl, ?_⟩
    rfl
  obtain ⟨s, hs, hphases⟩ := hrun
  refine ⟨s, hs, hphases, no_replay_when_entered_in_time _ _ _ s hs ?_⟩
  refine runOk_cons rfl trivial (runOk_cons rfl trivial (runOk_cons rfl trivial (runOk_cons rfl ?_ (runOk_cons rfl trivial
    (runOk_cons rfl trivial (runOk_cons rfl trivial (runOk_cons rfl trivial (runOk_cons rfl ?_ trivial))))))))
  · -- there is no other hello yet
    rintro c now hc hphase ⟨j, d, hj, hd, -⟩
    cases j with
    | zero => exact absurd rfl hj
    | succ j => cases hd
  · intro c now hc hphase _ r hr
    cases hc
    cases hphase
    rcases List.mem_cons.mp hr with rfl | hr
    · decide
    · rw [List.mem_singleton.mp hr]
      decide

/-- Between its clock reading and its turn at the lock another hello prunes the cache. -/
theorem late_replay_accepted :
    ∃ s, run (guardStep [("key", "secret")] exampleVerify) .init
        (replayRun ++ [.call otherHello, .tick 1301, .check 2, .enter 2, .enter 1, .verify 1]) = some s ∧
      s.calls[0]? = some ⟨exampleHello, .done (.ok (.ok ())), true⟩ ∧
      s.calls[1]? = some ⟨exampleHello, .done (.ok (.ok ())), true⟩ ∧ ¬ NoReplay s := by
  have hrun : ∃ s, run (guardStep [("key", "secret")] exampleVerify) .init
        (replayRun ++ [.call otherHello, .tick 1301, .check 2, .enter 2, .enter 1, .verify 1]) = some s ∧
      s.calls[0]? = some ⟨exampleHello, .done (.ok (.ok ())), true⟩ ∧
      s.calls[1]? = some ⟨exampleHello, .done (.ok (.ok ())), true⟩ := by
    refine ⟨_, rfl, ?_, ?_⟩
    · rfl
    · rfl
  obtain ⟨s, hs, hfirst, hsecond⟩ := hrun
  refine ⟨s, hs, hfirst, hsecond, fun hnone => ?_⟩
  have heq := hnone 0 1 _ _ hfirst hsecond rfl rfl ⟨rfl, rfl, rfl⟩
  cases heq

end Nexal.Gateway

/-! The window of a hello's timestamp. The difference to a clock reading is taken in 64 bits, and a
timestamp may be any number of 64 bits. -/

namespace Nexal.Gateway

/-- The check computes with the numbers as they are, and lets through what is at most the allowed skew
away from the clock. -/
structure ExactWindow (now ts : Int64) : Prop where
  sub : (now - ts).toInt = now.toInt - ts.toInt
  abs : (now - ts).abs.toInt = ((now.toInt - ts.toInt).natAbs : ℤ)
  accepted : stale now ts = false ↔ ((now.toInt - ts.toInt).natAbs : ℤ) ≤ helloMaxSkewSecs.toInt

variable {now ts : Int64}

/-- A difference that fits is the difference. -/
theorem sub_eq_of_fits (hnow : 0 ≤ now.toInt) (hfits : now.toInt - ts.toInt < 2 ^ 63) :
    (now - ts).toInt = now.toInt - ts.toInt := by
  have hts := ts.toInt_lt
  have hlow := (now - ts).le_toInt
  have hhigh := (now - ts).toInt_lt
  rcases toInt_sub now ts with h | h | h <;> omega

theorem abs_eq_of_fits (hnow : 0 ≤ now.toInt) (hfits : now.toInt - ts.toInt < 2 ^ 63) :
    (now - ts).abs.toInt = ((now.toInt - ts.toInt).natAbs : ℤ) := by
  have hts := ts.toInt_lt
  have hsub := sub_eq_of_fits hnow hfits
  rw [toInt_abs, hsub, if_neg (by omega)]

theorem accepted_iff_of_fits (hnow : 0 ≤ now.toInt) (hfits : now.toInt - ts.toInt < 2 ^ 63) :
    stale now ts = false ↔ ((now.toInt - ts.toInt).natAbs : ℤ) ≤ helloMaxSkewSecs.toInt := by
  have hskew : helloMaxSkewSecs.toInt = 300 := rfl
  rw [stale_eq_false_iff hnow, hskew]
  omega

/-- The check is exact for the timestamps that are less than `2 ^ 63` seconds before the clock. -/
theorem exactWindow_iff_fits (hnow : 0 ≤ now.toInt) : ExactWindow now ts ↔ now.toInt - ts.toInt < 2 ^ 63 := by
  constructor
  · intro h
    have hhigh := (now - ts).toInt_lt
    rw [h.sub] at hhigh
    exact hhigh
  · intro hfits
    exact ⟨sub_eq_of_fits hnow hfits, abs_eq_of_fits hnow hfits, accepted_iff_of_fits hnow hfits⟩

theorem exactWindow_iff_fits_recent : 0 ≤ (1000 : Int64).toInt ∧
    (ExactWindow 1000 900 ↔ (1000 : Int64).toInt - (900 : Int64).toInt < 2 ^ 63) :=
  ⟨by decide, exactWindow_iff_fits (by decide)⟩

/-- A timestamp that is `2 ^ 63` seconds old is let through: the difference has no absolute value. -/
theorem ancient_timestamp_accepted : stale 1000 (Int64.minValue + 1000) = false ∧
    ¬ ExactWindow 1000 (Int64.minValue + 1000) := by
  refine ⟨by decide, fun h => ?_⟩
  have haccepted := h.accepted.mp (by decide)
  revert haccepted
  decide

end Nexal.Gateway
