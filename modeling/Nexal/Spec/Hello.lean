import Nexal.Lib.Lists
import Nexal.Lib.Runs
import Nexal.Spec.Wire

/-! The `gateway/hello` of a session (`crates/nexal-gateway/src/server/session.rs`). The arithmetic
on seconds is that of `i64` without overflow checks; the HMAC is the library's. -/

namespace Nexal.Gateway

open Wire (Value)

structure JsonRpcError where
  code : Int32
  message : String
  data : Option Value

structure HelloParams where
  accessKey : String
  clientName : String
  ts : Int64
  nonce : String
  signature : String

def authRejected : Int32 := -32001

def reject (msg : String) : JsonRpcError := ⟨authRejected, msg, none⟩

def helloMaxSkewSecs : Int64 := 300

/-- The timestamp is outside the allowed window. -/
def stale (now ts : Int64) : Bool := helloMaxSkewSecs < (now - ts).abs

/-- The text that is signed. -/
def canonical (p : HelloParams) : String :=
  p.accessKey ++ "\n" ++ toString p.ts.toInt ++ "\n" ++ p.nonce ++ "\n" ++ p.clientName

/-! Hexadecimal digits -/

/-- What a function that may panic does. -/
inductive Outcome (α : Type) where
  | ok (a : α)
  | panic

def hexDigit (c : Char) : Option ℕ :=
  if '0' ≤ c ∧ c ≤ '9' then some (c.toNat - '0'.toNat)
  else if 'a' ≤ c ∧ c ≤ 'f' then some (c.toNat - 'a'.toNat + 10)
  else if 'A' ≤ c ∧ c ≤ 'F' then some (c.toNat - 'A'.toNat + 10)
  else none

/-- `u8::from_str_radix` of a string of two characters: a plus sign may stand before the digits. -/
def byteOfHex (c d : Char) : Option UInt8 :=
  if c = '+' then (hexDigit d).map UInt8.ofNat
  else (hexDigit c).bind fun hi => (hexDigit d).map fun lo => UInt8.ofNat (16 * hi + lo)

/-- The two-byte slices of a string. A slice that would cut a character panics, unless a slice before
it was no number. -/
def decodePairs : List Char → Outcome (Option (List UInt8))
  | [] => .ok (some [])
  | [c] => if c.utf8Size = 2 then .ok none else .panic
  | c :: d :: rest =>
    if c.utf8Size = 2 then .ok none
    else if c.utf8Size = 1 ∧ d.utf8Size = 1 then
      match byteOfHex c d with
      | none => .ok none
      | some b =>
        match decodePairs rest with
        | .ok bytes => .ok (bytes.map (b :: ·))
        | .panic => .panic
    else .panic

def hexDecode (s : String) : Outcome (Option (List UInt8)) :=
  if s.utf8ByteSize % 2 ≠ 0 then .ok none else decodePairs s.toList

/-! `verify_hello` -/

section Verify
-- access key to secret, and `hmac::verify` of a secret, a text and a signature
variable (credentials : List (String × String)) (hmacVerify : String → String → List UInt8 → Bool)

/-- The credential and the timestamp, up to the lock of the nonce cache. -/
def checkHello (now : Int64) (p : HelloParams) : Except JsonRpcError Unit :=
  match credentials.lookup p.accessKey with
  | none => .error (reject "unknown access key")
  | some _ => if stale now p.ts then .error (reject "stale request (ts outside allowed window)") else .ok ()

def retainNonces (now : Int64) (cache : List (String × Int64)) : List (String × Int64) :=
  cache.filter fun entry => now - entry.2 ≤ helloMaxSkewSecs * 2

/-- The critical section: the cache afterwards, and whether the nonce was new. -/
def guardNonce (now : Int64) (cache : List (String × Int64)) (nonce : String) : List (String × Int64) × Bool :=
  let kept := retainNonces now cache
  match kept.lookup nonce with
  | some _ => (kept, false)
  | none => ((nonce, now) :: kept, true)

def checkSignature (p : HelloParams) : Outcome (Except JsonRpcError Unit) :=
  match hexDecode p.signature with
  | .panic => .panic
  | .ok none => .ok (.error (reject "malformed signature"))
  | .ok (some sig) =>
    if (credentials.lookup p.accessKey).any fun secret => hmacVerify secret (canonical p) sig then .ok (.ok ())
    else .ok (.error (reject "signature mismatch"))

/-- A call that is not interrupted, with the cache afterwards. -/
def verifyHello (now : Int64) (cache : List (String × Int64)) (p : HelloParams) :
    List (String × Int64) × Outcome (Except JsonRpcError Unit) :=
  match checkHello credentials now p with
  | .error err => (cache, .ok (.error err))
  | .ok () =>
    match guardNonce now cache p.nonce with
    | (cache, false) => (cache, .ok (.error (reject "replayed nonce")))
    | (cache, true) => (cache, checkSignature credentials hmacVerify p)

/-! Concurrent calls: they share the cache and the clock. -/

inductive HelloPhase where
  | started
  /-- about to take the lock, with the clock reading it has made -/
  | locking (now : Int64)
  | verifying
  | done (result : Outcome (Except JsonRpcError Unit))

structure HelloCall where
  params : HelloParams
  phase : HelloPhase
  /-- its nonce went into the cache -/
  inserted : Bool

structure GuardState where
  nonceCache : List (String × Int64)
  clock : Int64
  calls : List HelloCall
  /-- the readings the cache was pruned with -/
  prunes : List Int64

def GuardState.init : GuardState := ⟨[], 0, [], []⟩

inductive GuardAct where
  | call (p : HelloParams)
  | check (i : ℕ)
  | enter (i : ℕ)
  | verify (i : ℕ)
  | tick (now : Int64)

def GuardState.set (s : GuardState) (i : ℕ) (c : HelloCall) : GuardState := { s with calls := s.calls.set i c }

def guardStep (s : GuardState) : GuardAct → Option GuardState
  | .call p => some { s with calls := s.calls ++ [⟨p, .started, false⟩] }
  | .check i =>
    s.calls[i]?.bind fun c =>
      match c.phase with
      | .started =>
        match checkHello credentials s.clock c.params with
        | .error err => some (s.set i { c with phase := .done (.ok (.error err)) })
        | .ok () => some (s.set i { c with phase := .locking s.clock })
      | _ => none
  | .enter i =>
    s.calls[i]?.bind fun c =>
      match c.phase with
      | .locking now =>
        match guardNonce now s.nonceCache c.params.nonce with
        | (cache, false) =>
          some { s.set i { c with phase := .done (.ok (.error (reject "replayed nonce"))) } with
            nonceCache := cache, prunes := now :: s.prunes }
        | (cache, true) =>
          some { s.set i { c with phase := .verifying, inserted := true } with
            nonceCache := cache, prunes := now :: s.prunes }
      | _ => none
  | .verify i =>
    s.calls[i]?.bind fun c =>
      match c.phase with
      | .verifying => some (s.set i { c with phase := .done (checkSignature credentials hmacVerify c.params) })
      | _ => none
  | .tick now => if s.clock ≤ now then some { s with clock := now } else none

/-! Calls one after the other -/

structure HelloRecord where
  now : Int64
  params : HelloParams
  result : Outcome (Except JsonRpcError Unit)

structure HelloLog where
  nonceCache : List (String × Int64)
  clock : Int64
  calls : List HelloRecord
  /-- a call has panicked, which ends the process -/
  down : Bool

def HelloLog.init : HelloLog := ⟨[], 0, [], false⟩

/-- A call with its reading of the clock. -/
def helloStep (s : HelloLog) (call : Int64 × HelloParams) : Option HelloLog :=
  if s.down = false ∧ s.clock ≤ call.1 then
    let out := verifyHello credentials hmacVerify call.1 s.nonceCache call.2
    some ⟨out.1, call.1, s.calls ++ [⟨call.1, call.2, out.2⟩], out.2 matches .panic⟩
  else none

end Verify

end Nexal.Gateway

/-! The seconds of a hello as integers. -/

namespace Nexal.Gateway

/-- The absolute value wraps around at the least number. -/
theorem toInt_abs (n : Int64) : n.abs.toInt = if n.toInt = -2 ^ 63 then -2 ^ 63 else (n.toInt.natAbs : ℤ) := by
  have habs : n.abs.toInt = if n.toBitVec = BitVec.intMin 64 then (BitVec.intMin 64).toInt
      else (n.toBitVec.toInt.natAbs : ℤ) := BitVec.toInt_abs_eq_natAbs
  have hmin : n.toBitVec = BitVec.intMin 64 ↔ n.toInt = -2 ^ 63 := by
    rw [← BitVec.toInt_inj]
    exact Iff.rfl
  rw [habs]
  simp only [hmin]
  rfl

theorem toInt_sub (a b : Int64) :
    (a - b).toInt = a.toInt - b.toInt ∨ (a - b).toInt = a.toInt - b.toInt - 2 ^ 64 ∨
      (a - b).toInt = a.toInt - b.toInt + 2 ^ 64 := by
  have ha := a.le_toInt
  have ha' := a.toInt_lt
  have hb := b.le_toInt
  have hb' := b.toInt_lt
  rw [Int64.toInt_sub, Int.bmod_eq_emod]
  split <;> omega

/-- What the check of the timestamp lets through: the window, and the differences that wrap around
into it or have no absolute value. -/
theorem stale_eq_false_iff {now ts : Int64} (hnow : 0 ≤ now.toInt) :
    stale now ts = false ↔ (-300 ≤ now.toInt - ts.toInt ∧ now.toInt - ts.toInt ≤ 300) ∨
      now.toInt - ts.toInt = 2 ^ 63 ∨ 2 ^ 64 - 300 ≤ now.toInt - ts.toInt := by
  have hskew : helloMaxSkewSecs.toInt = 300 := rfl
  have hbound := now.toInt_lt
  have hlow := ts.le_toInt
  have hhigh := ts.toInt_lt
  have hd := (now - ts).le_toInt
  have hd' := (now - ts).toInt_lt
  have habs := toInt_abs (now - ts)
  unfold stale
  rw [decide_eq_false_iff_not, Int64.not_lt, Int64.le_iff_toInt_le, habs, hskew]
  have hsub := toInt_sub now ts
  split_ifs with hmin
  · omega
  · omega

end Nexal.Gateway
