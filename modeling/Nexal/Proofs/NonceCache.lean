import Nexal.Proofs.HelloReplay

/-! The nonces of the cache. A nonce goes in before the signature is looked at: the cache is of the nonces
that were seen, not of those that were accepted. -/

namespace Nexal.Gateway

open Runs

def HelloRecord.Accepted (r : HelloRecord) : Prop := r.result = .ok (.ok ())

def CachesAccepted (s : HelloLog) : Prop :=
  ∀ nonce seen, (nonce, seen) ∈ s.nonceCache → ∃ r ∈ s.calls, r.params.nonce = nonce ∧ r.Accepted

section Account
variable (credentials : List (String × String)) (hmacVerify : String → String → List UInt8 → Bool)

/-- The hello has come as far as its signature: its access key is known, its timestamp in the window, and
its nonce was new. -/
def HelloRecord.Guarded (r : HelloRecord) : Prop :=
  checkHello credentials r.now r.params = .ok () ∧ r.result ≠ .ok (.error (reject "replayed nonce"))

def PrunedOnly (now : Int64) (before after : List (String × Int64)) : Prop :=
  after = before ∨ after = retainNonces now before

/-- What the cache owes to which hellos. -/
structure CacheAccount (s : HelloLog) : Prop where
  used : ∀ nonce seen, (nonce, seen) ∈ s.nonceCache →
    ∃ r ∈ s.calls, r.params.nonce = nonce ∧ r.now = seen ∧ r.Guarded credentials
  pruned : ∀ now p s', helloStep credentials hmacVerify s (now, p) = some s' →
    ¬ (⟨now, p, (verifyHello credentials hmacVerify now s.nonceCache p).2⟩ : HelloRecord).Guarded credentials →
    PrunedOnly now s.nonceCache s'.nonceCache
  replayed : ∀ now p s', helloStep credentials hmacVerify s (now, p) = some s' →
    (verifyHello credentials hmacVerify now s.nonceCache p).2 = .ok (.error (reject "replayed nonce")) →
    ∃ r ∈ s.calls, r.params.nonce = p.nonce ∧ r.Guarded credentials ∧ now.toInt - r.now.toInt ≤ 600

variable {credentials hmacVerify} {s s' : HelloLog} {now : Int64} {p : HelloParams}

theorem refused_inj {a b : String}
    (h : (.ok (.error (reject a)) : Outcome (Except JsonRpcError Unit)) = .ok (.error (reject b))) : a = b := by
  injection h with h
  injection h with h
  exact congrArg JsonRpcError.message h

theorem checkHello_error {err : JsonRpcError} (h : checkHello credentials now p = .error err) :
    ∃ msg, err = reject msg ∧ msg ≠ "replayed nonce" := by
  unfold checkHello at h
  split at h
  · cases h
    exact ⟨_, rfl, by decide⟩
  · split_ifs at h
    cases h
    exact ⟨_, rfl, by decide⟩

theorem checkSignature_ne_replayed : checkSignature credentials hmacVerify p ≠ .ok (.error (reject "replayed nonce")) := by
  unfold checkSignature
  intro h
  split at h
  · cases h
  · exact absurd (refused_inj h) (by decide)
  · split_ifs at h
    · cases h
    · exact absurd (refused_inj h) (by decide)

/-- How a call ends, and with which cache. -/
theorem verifyHello_cases (credentials : List (String × String)) (hmacVerify : String → String → List UInt8 → Bool)
    (now : Int64) (cache : List (String × Int64)) (p : HelloParams) :
    (∃ err, checkHello credentials now p = .error err ∧
      verifyHello credentials hmacVerify now cache p = (cache, .ok (.error err))) ∨
    (checkHello credentials now p = .ok () ∧ (∃ seen, (p.nonce, seen) ∈ retainNonces now cache) ∧
      verifyHello credentials hmacVerify now cache p =
        (retainNonces now cache, .ok (.error (reject "replayed nonce")))) ∨
    (checkHello credentials now p = .ok () ∧ verifyHello credentials hmacVerify now cache p =
      ((p.nonce, now) :: retainNonces now cache, checkSignature credentials hmacVerify p)) := by
  cases hcheck : checkHello credentials now p with
  | error err => exact Or.inl ⟨err, rfl, by rw [verifyHello, hcheck]⟩
  | ok _ =>
    cases hlookup : (retainNonces now cache).lookup p.nonce with
    | some seen =>
      refine Or.inr (Or.inl ⟨rfl, ⟨seen, Lists.mem_of_lookup_eq_some hlookup⟩, ?_⟩)
      simp only [verifyHello, hcheck, guardNonce, hlookup]
    | none =>
      refine Or.inr (Or.inr ⟨rfl, ?_⟩)
      simp only [verifyHello, hcheck, guardNonce, hlookup]

theorem helloStep_eq (hs : helloStep credentials hmacVerify s (now, p) = some s') :
    s.clock ≤ now ∧ s' = ⟨(verifyHello credentials hmacVerify now s.nonceCache p).1, now,
      s.calls ++ [⟨now, p, (verifyHello credentials hmacVerify now s.nonceCache p).2⟩],
      (verifyHello credentials hmacVerify now s.nonceCache p).2 matches .panic⟩ := by
  unfold helloStep at hs
  split_ifs at hs with hok
  exact ⟨hok.2, (Option.some.inj hs).symm⟩

structure LogInv (credentials : List (String × String)) (s : HelloLog) : Prop where
  clock : 0 ≤ s.clock.toInt
  seen : ∀ nonce seen, (nonce, seen) ∈ s.nonceCache → 0 ≤ seen.toInt
  used : ∀ nonce seen, (nonce, seen) ∈ s.nonceCache →
    ∃ r ∈ s.calls, r.params.nonce = nonce ∧ r.now = seen ∧ r.Guarded credentials

theorem logInv_init : LogInv credentials .init where
  clock := Int.le_refl 0
  seen := fun nonce seen hmem => by cases hmem
  used := fun nonce seen hmem => by cases hmem

/-- Entries that stay are accounted for by the calls that were there. -/
theorem LogInv.retained (h : LogInv credentials s) {cache : List (String × Int64)} (hsub : cache ⊆ s.nonceCache)
    (hclock : s.clock ≤ now) (r : HelloRecord) (down : Bool) :
    LogInv credentials ⟨cache, now, s.calls ++ [r], down⟩ where
  clock := Int.le_trans h.clock (Int64.le_iff_toInt_le.mp hclock)
  seen nonce seen hmem := h.seen nonce seen (hsub hmem)
  used nonce seen hmem := by
    obtain ⟨r', hr', hused⟩ := h.used nonce seen (hsub hmem)
    exact ⟨r', List.mem_append_left _ hr', hused⟩

theorem logInv_step (h : LogInv credentials s) (hs : helloStep credentials hmacVerify s (now, p) = some s') :
    LogInv credentials s' := by
  obtain ⟨hclock, rfl⟩ := helloStep_eq hs
  have hkept : retainNonces now s.nonceCache ⊆ s.nonceCache := List.filter_subset_self _
  rcases verifyHello_cases credentials hmacVerify now s.nonceCache p
    with ⟨err, -, heq⟩ | ⟨-, -, heq⟩ | ⟨hcheck, heq⟩
  · rw [heq]
    exact h.retained (List.Subset.refl _) hclock _ _
  · rw [heq]
    exact h.retained hkept hclock _ _
  · rw [heq]
    have hold := h.retained hkept hclock ⟨now, p, checkSignature credentials hmacVerify p⟩ false
    refine ⟨hold.clock, fun nonce seen hmem => ?_, fun nonce seen hmem => ?_⟩
    · rcases List.mem_cons.mp hmem with hnew | hmem
      · cases hnew
        exact hold.clock
      · exact hold.seen nonce seen hmem
    · rcases List.mem_cons.mp hmem with hnew | hmem
      · cases hnew
        exact ⟨_, List.mem_append_right _ List.mem_cons_self, rfl, rfl, hcheck, checkSignature_ne_replayed⟩
      · exact hold.used nonce seen hmem

theorem LogInv.account (h : LogInv credentials s) : CacheAccount credentials hmacVerify s where
  used := h.used
  pruned now p s' hs hnot := by
    obtain ⟨-, rfl⟩ := helloStep_eq hs
    rcases verifyHello_cases credentials hmacVerify now s.nonceCache p
      with ⟨err, -, heq⟩ | ⟨-, -, heq⟩ | ⟨hcheck, heq⟩
    · rw [heq]
      exact Or.inl rfl
    · rw [heq]
      exact Or.inr rfl
    · rw [heq] at hnot
      exact absurd ⟨hcheck, checkSignature_ne_replayed⟩ hnot
  replayed now p s' hs hresult := by
    obtain ⟨hclock, -⟩ := helloStep_eq hs
    have hnow := Int.le_trans h.clock (Int64.le_iff_toInt_le.mp hclock)
    rcases verifyHello_cases credentials hmacVerify now s.nonceCache p
      with ⟨err, herr, heq⟩ | ⟨-, hfound, -⟩ | ⟨-, heq⟩
    · rw [heq] at hresult
      obtain ⟨msg, rfl, hmsg⟩ := checkHello_error herr
      exact absurd (refused_inj hresult) hmsg
    · obtain ⟨seen, hmem⟩ := hfound
      obtain ⟨hmem, hrecent⟩ := List.mem_filter.mp hmem
      obtain ⟨r, hr, hnonce, rfl, hguarded⟩ := h.used _ _ hmem
      exact ⟨r, hr, hnonce, hguarded, (retained_iff hnow (h.seen _ _ hmem)).mp (of_decide_eq_true hrecent)⟩
    · rw [heq] at hresult
      exact absurd hresult checkSignature_ne_replayed

end Account

/-- Every nonce in the cache is that of a hello that has come as far as its signature; any other hello only
prunes the cache; and a hello is refused as a replay for a nonce that came that far in the last 600 seconds. -/
theorem cache_of_guarded_hellos (credentials : List (String × String))
    (hmacVerify : String → String → List UInt8 → Bool)
    (calls : List (Int64 × HelloParams)) (s : HelloLog)
    (hrun : run (helloStep credentials hmacVerify) .init calls = some s) : CacheAccount credentials hmacVerify s :=
  (run_inv_all (LogInv credentials) (fun _ _ _ h hs => logInv_step h hs) logInv_init hrun).account

/-- A hello under a nonce of somebody else's, with a signature of nothing. -/
def forgedHello : HelloParams := { exampleHello with signature := "00" }

theorem cache_of_guarded_hellos_forged :
    ∃ s, run (helloStep [("key", "secret")] exampleVerify) .init [(1000, forgedHello)] = some s ∧
      s.nonceCache = [("nonce", 1000)] ∧ CacheAccount [("key", "secret")] exampleVerify s := by
  have hrun : ∃ s, run (helloStep [("key", "secret")] exampleVerify) .init [(1000, forgedHello)] = some s ∧
      s.nonceCache = [("nonce", 1000)] := ⟨_, rfl, rfl⟩
  obtain ⟨s, hs, hcache⟩ := hrun
  exact ⟨s, hs, hcache, cache_of_guarded_hellos _ _ _ s hs⟩

/-- The nonce of a refused hello is in the cache, and the right hello is refused as its replay. -/
theorem forged_hello_burns_nonce :
    ∃ s, run (helloStep [("key", "secret")] exampleVerify) .init [(1000, forgedHello), (1001, exampleHello)] = some s ∧
      s.calls.map (·.result) =
        [.ok (.error (reject "signature mismatch")), .ok (.error (reject "replayed nonce"))] ∧ ¬ CachesAccepted s := by
  have hrun : ∃ s, run (helloStep [("key", "secret")] exampleVerify) .init [(1000, forgedHello), (1001, exampleHello)] =
        some s ∧ s.nonceCache = [("nonce", 1000)] ∧ s.calls.map (·.result) =
          [.ok (.error (reject "signature mismatch")), .ok (.error (reject "replayed nonce"))] := ⟨_, rfl, rfl, rfl⟩
  obtain ⟨s, hs, hcache, hresults⟩ := hrun
  refine ⟨s, hs, hresults, fun haccepted => ?_⟩
  obtain ⟨r, hr, -, hresult⟩ := haccepted "nonce" 1000 (by rw [hcache]; exact List.mem_cons_self)
  have hmem := List.mem_map_of_mem (f := HelloRecord.result) hr
  rw [hresults, hresult] at hmem
  rcases List.mem_cons.mp hmem with h | h
  · cases h
  · cases List.mem_singleton.mp h

end Nexal.Gateway
