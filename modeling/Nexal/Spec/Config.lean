import Mathlib.Logic.Function.Basic
import Nexal.Lib.JsText

/-! The environment's share of the configuration (`src/config.ts`): the variables that start with `NEXAL_`, as
`applyEnv` writes them over the defaults and the file. Names and values are lists of characters where the code takes
them apart. -/

namespace Nexal.Config

/-- What the code uses of the runtime; the numbers that `Number` makes are its own. -/
structure JsLib where
  Num : Type
  number : String → Num
  toLowerCase : String → String
  toLowerCase_ascii : ∀ s, (∀ c ∈ s.toList, c.toNat < 128) →
    toLowerCase s = String.ofList (s.toList.map Char.toLower)

/-- What `coerce` makes of a variable's value. -/
inductive Coerced (ν : Type) where
  | bool (b : Bool)
  | number (n : ν)
  | string (s : String)

/-- What a bucket of `channel` or `providers` holds under a key. -/
inductive Value (ν : Type) where
  | leaf (value : Coerced ν)
  | object (fields : List (String × Value ν))
  /-- arrays and dates of the file -/
  | other

abbrev Fields (ν : Type) := List (String × Value ν)

def Fields.set {ν : Type} : Fields ν → String → Value ν → Fields ν
  | [], key, value => [(key, value)]
  | f :: fields, key, value => if f.1 = key then (key, value) :: fields else f :: Fields.set fields key value

abbrev Buckets (ν : Type) := List (String × Fields ν)

structure StorageConfig (ν : Type) where
  s3Endpoint : String
  s3Bucket : String
  s3AccessKey : String
  s3SecretKey : String
  s3Region : String
  maxInlineSize : ν

structure GatewayConfig where
  url : String
  accessKey : String
  secretKey : String
  clientName : String

structure WorkersConfig (ν : Type) where
  url : String
  maxConcurrent : ν

structure NexalConfig (ν : Type) where
  workspace : String
  soulPath : String
  admins : List String
  debounceSecs : ν
  messageDelaySecs : ν
  activeWindowSecs : ν
  channel : Buckets ν
  providers : Buckets ν
  workers : WorkersConfig ν
  gateway : GatewayConfig
  storage : StorageConfig ν

/-! Strings -/

def isDigit (c : Char) : Bool := 0x30 ≤ c.toNat && c.toNat ≤ 0x39

def unsigned : List Char → List Char
  | '-' :: l => l
  | l => l

/-- `/^\d+$/` -/
def isDigits (l : List Char) : Bool := !l.isEmpty && l.all isDigit

/-- `/^-?\d+$/` -/
def isInteger (l : List Char) : Bool := isDigits (unsigned l)

/-- `/^-?\d*\.\d+$/` -/
def isDecimal (l : List Char) : Bool :=
  match (unsigned l).dropWhile isDigit with
  | '.' :: fraction => isDigits fraction
  | _ => false

/-- `split("__")` -/
def splitNesting : List Char → List (List Char)
  | [] => [[]]
  | '_' :: '_' :: l => [] :: splitNesting l
  | c :: l => (splitNesting l).modifyHead (c :: ·)

/-- `replace(/_([a-z])/g, ..)` -/
def camel : List Char → List Char
  | '_' :: c :: l => if 'a' ≤ c && c ≤ 'z' then c.toUpper :: camel l else '_' :: camel (c :: l)
  | c :: l => c :: camel l
  | [] => []

def snakeToCamel (s : String) : String := String.ofList (camel s.toList)

/-- The trimmed non-empty parts between commas. -/
def commaParts (s : String) : List String :=
  (((s.toList.splitOn ',').map JsText.trim).filter (!·.isEmpty)).map String.ofList

section Env
variable (lib : JsLib)

def coerce (v : String) : Coerced lib.Num :=
  if v = "true" then .bool true
  else if v = "false" then .bool false
  else if v = "null" || v = "" then .string v
  else if isInteger v.toList then .number (lib.number v)
  else if isDecimal v.toList then .number (lib.number v)
  else .string v

variable {lib}
variable {ν : Type}

/-- No variable is an array. -/
def csvList : Coerced ν → List String
  | .string s => commaParts s
  | .bool _ | .number _ => []

/-- `if (typeof value === "string") target = value` -/
def Coerced.asString (value : Coerced ν) (target : String) : String :=
  match value with
  | .string s => s
  | .bool _ | .number _ => target

/-- `if (typeof value === "number") target = value` -/
def Coerced.asNumber (value : Coerced ν) (target : ν) : ν :=
  match value with
  | .number n => n
  | .bool _ | .string _ => target

/-! Buckets -/

def writeLeaf (obj : Fields ν) (path : List String) (value : Coerced ν) : Fields ν :=
  match path with
  | [] => obj
  | [key] => obj.set (snakeToCamel key) (.leaf value)
  | key :: path =>
    match obj.lookup (snakeToCamel key) with
    | some (.object fields) => obj.set (snakeToCamel key) (.object (writeLeaf fields path value))
    | _ => obj.set (snakeToCamel key) (.object (writeLeaf [] path value))

def Buckets.set : Buckets ν → String → Fields ν → Buckets ν
  | [], name, bucket => [(name, bucket)]
  | b :: target, name, bucket => if b.1 = name then (name, bucket) :: target else b :: Buckets.set target name bucket

/-- The properties of a function that cannot be assigned to. -/
def fixedKeys : List String := ["name", "length", "prototype", "caller", "arguments"]

variable (lib) in
/-- `none` where an assignment throws. -/
def setNested (target : Buckets ν) (path : List String) (value : Coerced ν) : Option (Buckets ν) :=
  match path with
  | [] | [_] => some target
  | name :: key :: leafPath =>
    let name := lib.toLowerCase name
    match target.lookup name with
    | some bucket => some (target.set name (writeLeaf bucket (key :: leafPath) value))
    | none =>
      -- the one inherited property of such a name is the function `Object`, which is then written to
      if name = "constructor" then
        if fixedKeys.contains (snakeToCamel key) then none else some target
      else some (target.set name (writeLeaf [] (key :: leafPath) value))

/-! Settings -/

/-- The top-level well-known scalar keys. -/
def setScalar (cfg : NexalConfig ν) (key : String) (value : Coerced ν) : NexalConfig ν :=
  match key with
  | "workspace" => { cfg with workspace := value.asString cfg.workspace }
  | "soulPath" => { cfg with soulPath := value.asString cfg.soulPath }
  | "admins" => { cfg with admins := csvList value }
  | "debounceSecs" => { cfg with debounceSecs := value.asNumber cfg.debounceSecs }
  | "messageDelaySecs" => { cfg with messageDelaySecs := value.asNumber cfg.messageDelaySecs }
  | "activeWindowSecs" => { cfg with activeWindowSecs := value.asNumber cfg.activeWindowSecs }
  | _ => cfg

def WorkersConfig.setKey (workers : WorkersConfig ν) (key : String) (value : Coerced ν) : WorkersConfig ν :=
  match key with
  | "url" => { workers with url := value.asString workers.url }
  | "maxConcurrent" => { workers with maxConcurrent := value.asNumber workers.maxConcurrent }
  | _ => workers

def GatewayConfig.setKey (gateway : GatewayConfig) (key : String) (value : Coerced ν) : GatewayConfig :=
  match key with
  | "url" => { gateway with url := value.asString gateway.url }
  | "accessKey" => { gateway with accessKey := value.asString gateway.accessKey }
  | "secretKey" => { gateway with secretKey := value.asString gateway.secretKey }
  | "clientName" => { gateway with clientName := value.asString gateway.clientName }
  | _ => gateway

/-- The provider can only be set to the one there is. -/
def StorageConfig.setKey (storage : StorageConfig ν) (key : String) (value : Coerced ν) : StorageConfig ν :=
  match key with
  | "s3Endpoint" => { storage with s3Endpoint := value.asString storage.s3Endpoint }
  | "s3Bucket" => { storage with s3Bucket := value.asString storage.s3Bucket }
  | "s3AccessKey" => { storage with s3AccessKey := value.asString storage.s3AccessKey }
  | "s3SecretKey" => { storage with s3SecretKey := value.asString storage.s3SecretKey }
  | "s3Region" => { storage with s3Region := value.asString storage.s3Region }
  | "maxInlineSize" => { storage with maxInlineSize := value.asNumber storage.maxInlineSize }
  | _ => storage

/-- `snakeToCamel(path.slice(1).join("_"))` -/
def nestedKey (path : List String) : String := snakeToCamel ("_".intercalate path)

variable (lib) in
def setDeep (cfg : NexalConfig ν) (path : List String) (value : Coerced ν) : Option (NexalConfig ν) :=
  match path with
  | [] => some cfg
  | [key] => some (setScalar cfg (snakeToCamel key) value)
  | group :: path =>
    match group with
    | "channel" => (setNested lib cfg.channel path value).map fun channel => { cfg with channel := channel }
    | "providers" => (setNested lib cfg.providers path value).map fun providers => { cfg with providers := providers }
    | "workers" => some { cfg with workers := cfg.workers.setKey (nestedKey path) value }
    | "gateway" => some { cfg with gateway := cfg.gateway.setKey (nestedKey path) value }
    | "storage" => some { cfg with storage := cfg.storage.setKey (nestedKey path) value }
    | _ => some cfg

variable (lib) in
/-- The path a variable names, if it is one of nexal's. -/
def envPath (rawKey : String) : Option (List String) :=
  ("NEXAL_".toList.isPrefixOf? rawKey.toList).map fun name =>
    (splitNesting name).map fun part => lib.toLowerCase (String.ofList part)

variable (lib) in
/-- One round of the loop; the value `none` is `undefined`. -/
def applyVar (cfg : NexalConfig lib.Num) (var : String × Option String) : Option (NexalConfig lib.Num) :=
  match var.2, envPath lib var.1 with
  | some val, some path => setDeep lib cfg path (coerce lib val)
  | _, _ => some cfg

variable (lib) in
def applyEnv (cfg : NexalConfig lib.Num) (env : List (String × Option String)) : Option (NexalConfig lib.Num) :=
  env.foldlM (applyVar lib) cfg

end Env

end Nexal.Config

/-! The model setting (`saveModelConfig` and `loadModelConfig` in `src/settings.ts`): calls that run at the same time, one
statement after another. A statement takes place as a whole, or it throws and its call with it. -/

namespace Nexal.ModelConfig

/-- The rows of the table; the key is unique. -/
abbrev Settings := List (String × String)

def getSetting (settings : Settings) (key : String) : Option String := settings.lookup key

/-- `INSERT ... ON CONFLICT (key) DO UPDATE SET value` -/
def setSetting (settings : Settings) (key value : String) : Settings :=
  if (getSetting settings key).isSome then settings.map fun row => if row.1 = key then (key, value) else row
  else settings ++ [(key, value)]

inductive Call where
  | saveModelConfig (provider modelId : String)
  | loadModelConfig
deriving DecidableEq

inductive Progress where
  | called
  | wroteProvider
  | saved
  | readProvider (provider : Option String)
  | loaded (result : Option (String × String))
  | threw
deriving DecidableEq

structure State where
  settings : Settings
  progress : ℕ → Progress

def State.init : State := ⟨[], fun _ => .called⟩

/-- `if (!provider || !modelId) return null` -/
def pairOf (provider modelId : Option String) : Option (String × String) :=
  match provider, modelId with
  | some provider, some modelId => if provider = "" ∨ modelId = "" then none else some (provider, modelId)
  | _, _ => none

variable (calls : ℕ → Call)

/-- The next statement of a call; `none` where it has none left. -/
def statement (i : ℕ) (s : State) : Option (Settings × Progress) :=
  match calls i, s.progress i with
  | .saveModelConfig provider _, .called => some (setSetting s.settings "model:provider" provider, .wroteProvider)
  | .saveModelConfig _ modelId, .wroteProvider => some (setSetting s.settings "model:id" modelId, .saved)
  | .loadModelConfig, .called => some (s.settings, .readProvider (getSetting s.settings "model:provider"))
  | .loadModelConfig, .readProvider provider =>
    some (s.settings, .loaded (pairOf provider (getSetting s.settings "model:id")))
  | _, _ => none

inductive Event where
  | runs (i : ℕ)
  | throws (i : ℕ)
deriving DecidableEq

def step (s : State) : Event → Option State
  | .runs i => (statement calls i s).map fun (settings, p) => ⟨settings, Function.update s.progress i p⟩
  | .throws i => (statement calls i s).map fun _ => { s with progress := Function.update s.progress i .threw }

end Nexal.ModelConfig
