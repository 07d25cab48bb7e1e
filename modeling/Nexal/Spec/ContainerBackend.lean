import Mathlib.Algebra.Group.Int.Defs
import Mathlib.Algebra.Group.Nat.Defs
import Nexal.Spec.AgentRegistry

/-! The containers on the host and the backend that makes them (`crates/nexal-gateway/src/backend.rs`,
`backend/`). Names are the keys: `ensure` returns an existing container of the name it is given. The commands of
`ensure` are podman's; what a container gets of its specification is there for every backend. -/

namespace Nexal.Containers

open Gateway (HashMap)

structure ContainerSpec where
  name : String
  image : String
  env : HashMap String String
  labels : HashMap String String
  agentBin : String
  memory : Option String
  cpus : Option String
  pidsLimit : Option UInt32
  network : Bool
  workspaceVolume : Option String
  extraPorts : List UInt16
  fuse : Bool

/-- On whose behalf a container was made. -/
inductive Maker where
  /-- not by this gateway -/
  | other
  | pool
  /-- of one of the registry's calls -/
  | call (i : ℕ)
deriving DecidableEq

structure Container where
  spec : ContainerSpec
  /-- the time of its creation -/
  created : String
  maker : Maker
  alive : Bool

def Container.name (c : Container) : String := c.spec.name

/-! What the backends put on the containers they create -/

inductive Backend where
  | podman
  | fly
  | sprites
  | kubernetes

namespace Backend

/-- `create_sprite` only logs how many variables it ignores. -/
def keepsEnv : Backend → Bool
  | podman | fly | kubernetes => true
  | sprites => false

def keepsLabels : Backend → Bool
  | podman | kubernetes => true
  | fly | sprites => false

/-- The labels every container gets; of fly its metadata. -/
def ownLabels (b : Backend) (c : Container) : List (String × String) :=
  match b with
  | podman => [("app", "nexal"), ("nexal.kind", "worker"), ("nexal.session", c.name), ("nexal.created", c.created)]
  | fly => [("nexal", "worker"), ("nexal_name", c.name)]
  | sprites => []
  | kubernetes => [("app", "nexal"), ("nexal.kind", "worker"), ("nexal.session", c.name)]

/-- A variable the container has. -/
def env (b : Backend) (c : Container) (key : String) : Option String :=
  if b.keepsEnv then c.spec.env.lookup key else none

/-- A label; of two with one key the later counts. -/
def label (b : Backend) (c : Container) (key : String) : Option String :=
  (if b.keepsLabels then c.spec.labels.lookup key else none).or ((b.ownLabels c).lookup key)

end Backend

/-- The container of this name, by its place among all that were ever made. -/
def find (made : List Container) (name : String) : Option ℕ := made.findIdx? fun c => c.alive && c.name = name

/-- `destroy` -/
def remove (made : List Container) (name : String) : List Container :=
  made.map fun c => { c with alive := c.alive && c.name ≠ name }

structure ContainerHandle where
  name : String
  /-- where the url leads -/
  container : ℕ
deriving DecidableEq

/-- A call of `ensure`, at one of its commands. -/
inductive Ensure where
  | checking (spec : ContainerSpec)
  /-- at `podman create` -/
  | creating (spec : ContainerSpec)
  /-- it exists: the agent is copied into it, and it is started -/
  | starting (spec : ContainerSpec)

def Ensure.spec : Ensure → ContainerSpec
  | .checking spec | .creating spec | .starting spec => spec

inductive Ensured where
  | going (call : Ensure)
  | returned (handle : ContainerHandle)
  | failed

/-- A call goes on; `ok` says whether its command succeeds, `podman create` does not while the name is
taken. -/
def Ensure.go (maker : Maker) (now : String) (ok : Bool) (made : List Container) :
    Ensure → Option (List Container × Ensured)
  | .checking spec =>
    if ok then some (made, .going (if (find made spec.name).isSome then .starting spec else .creating spec))
    else some (made, .failed)
  | .creating spec =>
    if ok then
      match find made spec.name with
      | none => some (made ++ [⟨spec, now, maker, true⟩], .going (.starting spec))
      | some _ => none
    else some (made, .failed)
  | .starting spec =>
    if ok then (find made spec.name).map fun i => (made, .returned ⟨spec.name, i⟩)
    else some (made, .failed)

/-- What is on the host before the gateway is first started. -/
structure Host where
  containers : List (ContainerSpec × String)
  nodup : (containers.map (·.1.name)).Nodup

def Host.made (h : Host) : List Container := h.containers.map fun p => ⟨p.1, p.2, .other, true⟩

end Nexal.Containers

/-! The date and time in the container's labels (`iso_now` and `days_to_ymd` of the gateway's podman backend). `i64` and
`u64` are `ℤ` and `ℕ`; where an operation overflows its type the result is `none`. -/

namespace Nexal.IsoNow

def i64 (n : ℤ) : Option ℤ := if -2 ^ 63 ≤ n ∧ n < 2 ^ 63 then some n else none

def u64Add (a b : ℕ) : Option ℕ := if a + b < 2 ^ 64 then some (a + b) else none

def u64Sub (a b : ℕ) : Option ℕ := if b ≤ a then some (a - b) else none

def u64Mul (a b : ℕ) : Option ℕ := if a * b < 2 ^ 64 then some (a * b) else none

/-! `as`, which wraps around -/

def asU64 (n : ℤ) : ℕ := (n % 2 ^ 64).toNat

def asI64 (n : ℕ) : ℤ := Int.bmod n (2 ^ 64)

def asI32 (n : ℤ) : ℤ := Int.bmod n (2 ^ 32)

def asU32 (n : ℕ) : ℕ := n % 2 ^ 32

/-- Year, month and day. -/
def daysToYmd (days : ℤ) : Option (ℤ × ℕ × ℕ) := do
  let z ← i64 (days + 719468)
  let floored ← (if 0 ≤ z then some z else i64 (z - 146096))
  -- `/` rounds towards zero
  let era := floored.tdiv 146097
  let doe := asU64 (← i64 (z - (← i64 (era * 146097))))
  let yoe := (← u64Sub (← u64Add (← u64Sub doe (doe / 1460)) (doe / 36524)) (doe / 146096)) / 365
  let y ← i64 (asI64 yoe + (← i64 (era * 400)))
  let doy ← u64Sub doe (← u64Sub (← u64Add (← u64Mul 365 yoe) (yoe / 4)) (yoe / 100))
  let mp := (← u64Add (← u64Mul 5 doy) 2) / 153
  let d ← u64Add (← u64Sub doy ((← u64Add (← u64Mul 153 mp) 2) / 5)) 1
  let m ← (if mp < 10 then u64Add mp 3 else u64Sub mp 9)
  let y ← (if m ≤ 2 then i64 (y + 1) else some y)
  pure (asI32 y, asU32 m, asU32 d)

/-- `{n:0width}` -/
def zeroPad (width : ℕ) (n : ℤ) : String :=
  let sign := if n < 0 then "-" else ""
  let digits := toString n.natAbs
  sign ++ String.ofList (List.replicate (width - sign.length - digits.length) '0') ++ digits

def timestamp (ymd : ℤ × ℕ × ℕ) (h m s : ℕ) : String :=
  zeroPad 4 ymd.1 ++ "-" ++ zeroPad 2 ymd.2.1 ++ "-" ++ zeroPad 2 ymd.2.2 ++ "T" ++
    zeroPad 2 h ++ ":" ++ zeroPad 2 m ++ ":" ++ zeroPad 2 s ++ "Z"

/-- So many seconds after 1970 began. -/
def isoNow (secs : ℕ) : Option String := do
  let days := asI64 (secs / 86400)
  let rem := asU32 (secs % 86400)
  let h := rem / 3600
  let m := rem % 3600 / 60
  let s := rem % 60
  let ymd ← daysToYmd days
  pure (timestamp ymd h m s)

end Nexal.IsoNow
