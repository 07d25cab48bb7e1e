import Nexal.Spec.Config

/-! Which variables reach a string setting. A value that reads as a number or a boolean is coerced before its
setting is known, and is then dropped (or, for the admins, taken for no list at all). A variable that writes a fixed
property of the function `Object`, which a bucket `constructor` inherits, ends the whole loop. -/

namespace Nexal.Config

open JsText

inductive Setting where
  | workspace
  | soulPath
  | workersUrl
  | gatewayUrl
  | gatewayAccessKey
  | gatewaySecretKey
  | gatewayClientName
  | s3Endpoint
  | s3Bucket
  | s3AccessKey
  | s3SecretKey
  | s3Region
deriving DecidableEq

/-- What a variable may name, of the keys that are strings or lists of strings. -/
inductive Named where
  | setting (k : Setting)
  | admins
deriving DecidableEq

def Setting.get {ν : Type} (cfg : NexalConfig ν) : Setting → String
  | .workspace => cfg.workspace
  | .soulPath => cfg.soulPath
  | .workersUrl => cfg.workers.url
  | .gatewayUrl => cfg.gateway.url
  | .gatewayAccessKey => cfg.gateway.accessKey
  | .gatewaySecretKey => cfg.gateway.secretKey
  | .gatewayClientName => cfg.gateway.clientName
  | .s3Endpoint => cfg.storage.s3Endpoint
  | .s3Bucket => cfg.storage.s3Bucket
  | .s3AccessKey => cfg.storage.s3AccessKey
  | .s3SecretKey => cfg.storage.s3SecretKey
  | .s3Region => cfg.storage.s3Region

def scalarNamed (key : String) : Option Named :=
  match key with
  | "workspace" => some (.setting .workspace)
  | "soulPath" => some (.setting .soulPath)
  | "admins" => some .admins
  | _ => none

def nestedNamed (group key : String) : Option Named :=
  match group, key with
  | "workers", "url" => some (.setting .workersUrl)
  | "gateway", "url" => some (.setting .gatewayUrl)
  | "gateway", "accessKey" => some (.setting .gatewayAccessKey)
  | "gateway", "secretKey" => some (.setting .gatewaySecretKey)
  | "gateway", "clientName" => some (.setting .gatewayClientName)
  | "storage", "s3Endpoint" => some (.setting .s3Endpoint)
  | "storage", "s3Bucket" => some (.setting .s3Bucket)
  | "storage", "s3AccessKey" => some (.setting .s3AccessKey)
  | "storage", "s3SecretKey" => some (.setting .s3SecretKey)
  | "storage", "s3Region" => some (.setting .s3Region)
  | _, _ => none

def pathNamed : List String → Option Named
  | [] => none
  | [key] => scalarNamed (snakeToCamel key)
  | group :: path => nestedNamed group (nestedKey path)

def varNamed (lib : JsLib) (rawKey : String) : Option Named := (envPath lib rawKey).bind pathNamed

def Coercible (v : String) : Prop :=
  v = "true" ∨ v = "false" ∨ isInteger v.toList = true ∨ isDecimal v.toList = true

instance (v : String) : Decidable (Coercible v) := inferInstanceAs (Decidable (_ ∨ _))

/-- The bucket is the inherited function, and the key one of its fixed properties. -/
def Buckets.refuses {ν : Type} (lib : JsLib) (target : Buckets ν) : List String → Bool
  | name :: key :: _ =>
    (target.lookup "constructor").isNone && lib.toLowerCase name == "constructor" && fixedKeys.contains (snakeToCamel key)
  | _ => false

def refuses {ν : Type} (lib : JsLib) (cfg : NexalConfig ν) : List String → Bool
  | "channel" :: path => cfg.channel.refuses lib path
  | "providers" :: path => cfg.providers.refuses lib path
  | _ => false

def varRefused (lib : JsLib) (cfg : NexalConfig lib.Num) (var : String × Option String) : Bool :=
  var.2.isSome && (envPath lib var.1).any (refuses lib cfg)

variable {lib : JsLib} {ν : Type} {cfg cfg' : NexalConfig ν} {value : Coerced ν} {path : List String} {v : String}
  {k : Setting}

/-! What is written -/

def written (named : Option Named) (value : Coerced ν) (k : Setting) (old : String) : String :=
  if named = some (.setting k) then value.asString old else old

def writtenAdmins (named : Option Named) (value : Coerced ν) (old : List String) : List String :=
  if named = some .admins then csvList value else old

theorem setScalar_get (cfg : NexalConfig ν) (key : String) (value : Coerced ν) (k : Setting) :
    k.get (setScalar cfg key value) = written (scalarNamed key) value k (k.get cfg) := by
  unfold setScalar scalarNamed
  split <;> cases k <;> simp_all [written, Setting.get]

theorem setScalar_admins (cfg : NexalConfig ν) (key : String) (value : Coerced ν) :
    (setScalar cfg key value).admins = writtenAdmins (scalarNamed key) value cfg.admins := by
  unfold setScalar scalarNamed
  split <;> simp_all [writtenAdmins]

theorem workers_get (cfg : NexalConfig ν) (key : String) (value : Coerced ν) (k : Setting) :
    k.get { cfg with workers := cfg.workers.setKey key value } =
      written (nestedNamed "workers" key) value k (k.get cfg) := by
  unfold WorkersConfig.setKey nestedNamed
  split <;> cases k <;> simp_all [written, Setting.get]

theorem gateway_get (cfg : NexalConfig ν) (key : String) (value : Coerced ν) (k : Setting) :
    k.get { cfg with gateway := cfg.gateway.setKey key value } =
      written (nestedNamed "gateway" key) value k (k.get cfg) := by
  unfold GatewayConfig.setKey nestedNamed
  split <;> cases k <;> simp_all [written, Setting.get]

theorem storage_get (cfg : NexalConfig ν) (key : String) (value : Coerced ν) (k : Setting) :
    k.get { cfg with storage := cfg.storage.setKey key value } =
      written (nestedNamed "storage" key) value k (k.get cfg) := by
  unfold StorageConfig.setKey nestedNamed
  split <;> cases k <;> simp_all [written, Setting.get]

theorem nestedNamed_ne_admins (group key : String) : nestedNamed group key ≠ some .admins := by
  unfold nestedNamed
  split <;> simp

theorem setDeep_get (h : setDeep lib cfg path value = some cfg') (k : Setting) :
    k.get cfg' = written (pathNamed path) value k (k.get cfg) := by
  match path with
  | [] =>
    cases h
    rfl
  | [key] =>
    cases h
    exact setScalar_get cfg (snakeToCamel key) value k
  | group :: sub :: path =>
    simp only [setDeep] at h
    simp only [pathNamed]
    split at h
    · obtain ⟨channel, -, rfl⟩ := Option.map_eq_some_iff.mp h
      cases k <;> rfl
    · obtain ⟨providers, -, rfl⟩ := Option.map_eq_some_iff.mp h
      cases k <;> rfl
    · cases h
      exact workers_get cfg _ value k
    · cases h
      exact gateway_get cfg _ value k
    · cases h
      exact storage_get cfg _ value k
    · cases h
      unfold nestedNamed
      split <;> simp_all [written]

theorem setDeep_admins (h : setDeep lib cfg path value = some cfg') :
    cfg'.admins = writtenAdmins (pathNamed path) value cfg.admins := by
  match path with
  | [] =>
    cases h
    rfl
  | [key] =>
    cases h
    exact setScalar_admins cfg (snakeToCamel key) value
  | group :: sub :: path =>
    have hnot : writtenAdmins (nestedNamed group (nestedKey (sub :: path))) value cfg.admins = cfg.admins :=
      if_neg (nestedNamed_ne_admins _ _)
    simp only [setDeep] at h
    simp only [pathNamed, hnot]
    split at h
    · obtain ⟨channel, -, rfl⟩ := Option.map_eq_some_iff.mp h
      rfl
    · obtain ⟨providers, -, rfl⟩ := Option.map_eq_some_iff.mp h
      rfl
    · cases h
      rfl
    · cases h
      rfl
    · cases h
      rfl
    · cases h
      rfl

/-! What is refused -/

section Buckets
variable {target target' : Buckets ν}

theorem lookup_set (target : Buckets ν) (name : String) (bucket : Fields ν) (key : String) :
    (target.set name bucket).lookup key = if key = name then some bucket else target.lookup key := by
  induction target with
  | nil =>
    rw [Buckets.set, List.lookup_cons]
    by_cases hkey : key = name
    · rw [if_pos hkey, beq_iff_eq.mpr hkey]
    · rw [if_neg hkey, beq_false_of_ne hkey]
  | cons b target ih =>
    rw [Buckets.set]
    split_ifs with hb hkey hkey
    · rw [List.lookup_cons, beq_iff_eq.mpr hkey]
    · rw [List.lookup_cons, List.lookup_cons, beq_false_of_ne hkey, beq_false_of_ne (hb ▸ hkey)]
    · rw [List.lookup_cons, ih, if_pos hkey, beq_false_of_ne (fun heq => hb (heq.symm.trans hkey))]
    · rw [List.lookup_cons, List.lookup_cons, ih, if_neg hkey]

theorem setNested_eq_none : setNested lib target path value = none ↔ target.refuses lib path = true := by
  match path with
  | [] => simp [setNested, Buckets.refuses]
  | [name] => simp [setNested, Buckets.refuses]
  | name :: key :: leafPath =>
    simp only [setNested, Buckets.refuses]
    by_cases hname : lib.toLowerCase name = "constructor"
    · rw [hname]
      cases target.lookup "constructor" with
      | none => simp
      | some bucket => simp
    · cases target.lookup (lib.toLowerCase name) with
      | none => simp [hname]
      | some bucket => simp [hname]

/-- No bucket `constructor` is added. -/
theorem setNested_lookup (h : setNested lib target path value = some target') :
    (target'.lookup "constructor").isNone = (target.lookup "constructor").isNone := by
  match path with
  | [] | [_] =>
    cases h
    rfl
  | name :: key :: leafPath =>
    simp only [setNested] at h
    split at h
    · rename_i bucket hbucket
      cases h
      rw [lookup_set]
      split_ifs with hname
      · rw [hname, hbucket]
        rfl
      · rfl
    · split_ifs at h with hname hfixed
      · cases h
        rfl
      · cases h
        rw [lookup_set, if_neg (Ne.symm hname)]

theorem Buckets.refuses_congr (h : (target'.lookup "constructor").isNone = (target.lookup "constructor").isNone) :
    target'.refuses lib = target.refuses lib := by
  funext path
  unfold Buckets.refuses
  split
  · rw [h]
  · rfl

end Buckets

theorem refuses_congr (hchannel : (cfg'.channel.lookup "constructor").isNone = (cfg.channel.lookup "constructor").isNone)
    (hproviders : (cfg'.providers.lookup "constructor").isNone = (cfg.providers.lookup "constructor").isNone) :
    refuses lib cfg' = refuses lib cfg := by
  funext path
  unfold refuses
  split
  · rw [Buckets.refuses_congr hchannel]
  · rw [Buckets.refuses_congr hproviders]
  · rfl

theorem setDeep_eq_none : setDeep lib cfg path value = none ↔ refuses lib cfg path = true := by
  match path with
  | [] => simp [setDeep, refuses]
  | [key] =>
    have hnot : refuses lib cfg [key] = false := by
      unfold refuses
      split
      · rename_i heq
        cases heq
        rfl
      · rename_i heq
        cases heq
        rfl
      · rfl
    simp [setDeep, hnot]
  | group :: sub :: path =>
    simp only [setDeep]
    split
    · rw [Option.map_eq_none_iff]
      exact setNested_eq_none
    · rw [Option.map_eq_none_iff]
      exact setNested_eq_none
    all_goals simp_all [refuses]

theorem setScalar_buckets (cfg : NexalConfig ν) (key : String) (value : Coerced ν) :
    (setScalar cfg key value).channel = cfg.channel ∧ (setScalar cfg key value).providers = cfg.providers := by
  unfold setScalar
  split <;> exact ⟨rfl, rfl⟩

/-- What is refused stays the same. -/
theorem setDeep_refuses (h : setDeep lib cfg path value = some cfg') : refuses lib cfg' = refuses lib cfg := by
  match path with
  | [] =>
    cases h
    rfl
  | [key] =>
    cases h
    obtain ⟨hchannel, hproviders⟩ := setScalar_buckets cfg (snakeToCamel key) value
    exact refuses_congr (by rw [hchannel]) (by rw [hproviders])
  | group :: sub :: path =>
    simp only [setDeep] at h
    split at h
    · obtain ⟨channel, hchannel, rfl⟩ := Option.map_eq_some_iff.mp h
      exact refuses_congr (setNested_lookup hchannel) rfl
    · obtain ⟨providers, hproviders, rfl⟩ := Option.map_eq_some_iff.mp h
      exact refuses_congr rfl (setNested_lookup hproviders)
    · cases h
      rfl
    · cases h
      rfl
    · cases h
      rfl
    · cases h
      rfl

/-! Variables -/

section Variables
variable {cfg cfg' : NexalConfig lib.Num} {var : String × Option String} {env before after : List (String × Option String)}

theorem applyVar_eq_none : applyVar lib cfg var = none ↔ varRefused lib cfg var = true := by
  obtain ⟨rawKey, val⟩ := var
  unfold applyVar varRefused
  cases val with
  | none => simp
  | some val =>
    cases envPath lib rawKey with
    | none => simp
    | some path => exact setDeep_eq_none

theorem applyVar_refused (h : applyVar lib cfg var = some cfg') : varRefused lib cfg' = varRefused lib cfg := by
  obtain ⟨rawKey, val⟩ := var
  unfold applyVar at h
  cases val with
  | none =>
    cases h
    rfl
  | some val =>
    cases hpath : envPath lib rawKey with
    | none =>
      simp only [hpath] at h
      cases h
      rfl
    | some path =>
      simp only [hpath] at h
      funext var
      rw [varRefused, varRefused, setDeep_refuses h]

theorem applyVar_get {rawKey val : String} (h : applyVar lib cfg (rawKey, some val) = some cfg') (k : Setting) :
    k.get cfg' = written (varNamed lib rawKey) (coerce lib val) k (k.get cfg) := by
  unfold applyVar at h
  unfold varNamed
  cases hpath : envPath lib rawKey with
  | none =>
    simp only [hpath] at h
    cases h
    rfl
  | some path =>
    simp only [hpath] at h
    exact setDeep_get h k

theorem applyVar_admins {rawKey val : String} (h : applyVar lib cfg (rawKey, some val) = some cfg') :
    cfg'.admins = writtenAdmins (varNamed lib rawKey) (coerce lib val) cfg.admins := by
  unfold applyVar at h
  unfold varNamed
  cases hpath : envPath lib rawKey with
  | none =>
    simp only [hpath] at h
    cases h
    rfl
  | some path =>
    simp only [hpath] at h
    exact setDeep_admins h

theorem applyEnv_cons (h : applyEnv lib cfg (var :: env) = some cfg') :
    ∃ cfg₁, applyVar lib cfg var = some cfg₁ ∧ applyEnv lib cfg₁ env = some cfg' := by
  rw [applyEnv, List.foldlM_cons] at h
  exact Option.bind_eq_some_iff.mp h

/-- The environment is taken as a whole exactly if none of its variables is refused. -/
theorem applyEnv_isSome_iff (cfg : NexalConfig lib.Num) (env : List (String × Option String)) :
    (applyEnv lib cfg env).isSome = true ↔ ∀ var ∈ env, varRefused lib cfg var = false := by
  induction env generalizing cfg with
  | nil => exact iff_of_true rfl fun var hvar => absurd hvar List.not_mem_nil
  | cons var env ih =>
    rw [applyEnv, List.foldlM_cons, List.forall_mem_cons]
    cases hvar : applyVar lib cfg var with
    | none =>
      have hrefused := applyVar_eq_none.mp hvar
      refine iff_of_false Bool.false_ne_true fun hall => ?_
      cases hrefused.symm.trans hall.1
    | some cfg₁ =>
      have hfree : varRefused lib cfg var = false := by
        by_contra hrefused
        rw [Bool.not_eq_false, ← applyVar_eq_none, hvar] at hrefused
        cases hrefused
      rw [← applyVar_refused hvar]
      exact (ih cfg₁).trans (and_iff_right (applyVar_refused hvar ▸ hfree)).symm

theorem applyEnv_split {cfg' : NexalConfig lib.Num} (h : applyEnv lib cfg (before ++ var :: after) = some cfg') :
    ∃ cfg₀ cfg₁, applyEnv lib cfg before = some cfg₀ ∧ applyVar lib cfg₀ var = some cfg₁ ∧
      applyEnv lib cfg₁ after = some cfg' := by
  rw [applyEnv, List.foldlM_append] at h
  obtain ⟨cfg₀, hbefore, hrest⟩ := Option.bind_eq_some_iff.mp h
  obtain ⟨cfg₁, hvar, hafter⟩ := applyEnv_cons hrest
  exact ⟨cfg₀, cfg₁, hbefore, hvar, hafter⟩

/-- Variables that do not name a key leave it as it is. -/
theorem applyEnv_get_of_not_named (h : ∀ var ∈ env, varNamed lib var.1 ≠ some (.setting k))
    (henv : applyEnv lib cfg env = some cfg') : k.get cfg' = k.get cfg := by
  induction env generalizing cfg with
  | nil =>
    cases henv
    rfl
  | cons var env ih =>
    obtain ⟨rawKey, val⟩ := var
    obtain ⟨cfg₁, hvar, hrest⟩ := applyEnv_cons henv
    refine (ih (fun var hvar => h var (List.mem_cons_of_mem _ hvar)) hrest).trans ?_
    cases val with
    | none =>
      cases hvar
      rfl
    | some val => rw [applyVar_get hvar, written, if_neg (h _ List.mem_cons_self)]

theorem applyEnv_admins_of_not_named (h : ∀ var ∈ env, varNamed lib var.1 ≠ some .admins)
    (henv : applyEnv lib cfg env = some cfg') : cfg'.admins = cfg.admins := by
  induction env generalizing cfg with
  | nil =>
    cases henv
    rfl
  | cons var env ih =>
    obtain ⟨rawKey, val⟩ := var
    obtain ⟨cfg₁, hvar, hrest⟩ := applyEnv_cons henv
    refine (ih (fun var hvar => h var (List.mem_cons_of_mem _ hvar)) hrest).trans ?_
    cases val with
    | none =>
      cases hvar
      rfl
    | some val => rw [applyVar_admins hvar, writtenAdmins, if_neg (h _ List.mem_cons_self)]

end Variables

/-! Values -/

theorem coerce_of_not (h : ¬Coercible v) : coerce lib v = .string v := by
  simp only [Coercible, not_or, Bool.not_eq_true] at h
  obtain ⟨htrue, hfalse, hinteger, hdecimal⟩ := h
  unfold coerce
  rw [if_neg htrue, if_neg hfalse]
  simp [hinteger, hdecimal]

theorem coerce_of_coercible (h : Coercible v) : ∀ s, coerce lib v ≠ .string s := by
  intro s
  unfold coerce
  by_cases htrue : v = "true"
  · simp [htrue]
  by_cases hfalse : v = "false"
  · simp [hfalse]
  have hnumeral : isInteger v.toList = true ∨ isDecimal v.toList = true := by
    rcases h with h | h | h
    · exact absurd h htrue
    · exact absurd h hfalse
    · exact h
  have hplain : (decide (v = "null") || decide (v = "")) = false := by
    rw [Bool.or_eq_false_iff, decide_eq_false_iff_not, decide_eq_false_iff_not]
    constructor
    · rintro rfl
      revert hnumeral
      decide
    · rintro rfl
      revert hnumeral
      decide
  rw [if_neg htrue, if_neg hfalse, hplain, if_neg Bool.false_ne_true]
  rcases hnumeral with h | h
  · simp [h]
  · by_cases hinteger : isInteger v.toList = true <;> simp [h, hinteger]

theorem asString_coerce (v old : String) : (coerce lib v).asString old = if Coercible v then old else v := by
  split_ifs with h
  · cases hcoerce : coerce lib v with
    | bool b => rfl
    | number n => rfl
    | string s => exact absurd hcoerce (coerce_of_coercible h s)
  · rw [coerce_of_not h]
    rfl

theorem csvList_coerce (v : String) : csvList (coerce lib v) = if Coercible v then [] else commaParts v := by
  split_ifs with h
  · cases hcoerce : coerce lib v with
    | bool b => rfl
    | number n => rfl
    | string s => exact absurd hcoerce (coerce_of_coercible h s)
  · rw [coerce_of_not h]
    rfl

/-- A word of any text is in one of its parts. -/
theorem commaParts_ne_nil {c : Char} (h : c ∈ v.toList) (hcomma : c ≠ ',') (hspace : isSpace c = false) :
    commaParts v ≠ [] := by
  obtain ⟨part, hpart, hc⟩ := exists_mem_splitOn h hcomma
  have htrim : c ∈ trim part := mem_trim hc hspace
  have hmem : trim part ∈ ((v.toList.splitOn ',').map trim).filter (!·.isEmpty) := by
    refine List.mem_filter.mpr ⟨List.mem_map_of_mem hpart, ?_⟩
    rw [Bool.not_eq_true', List.isEmpty_eq_false_iff]
    exact List.ne_nil_of_mem htrim
  exact List.ne_nil_of_mem (List.mem_map_of_mem hmem)

theorem exists_digit {l : List Char} (h : isDigits l = true) : ∃ c ∈ l, isDigit c = true := by
  simp only [isDigits, Bool.and_eq_true, Bool.not_eq_true', List.isEmpty_eq_false_iff, List.all_eq_true] at h
  obtain ⟨c, hc⟩ := List.exists_mem_of_ne_nil l h.1
  exact ⟨c, hc, h.2 c hc⟩

theorem unsigned_subset (l : List Char) : ∀ c ∈ unsigned l, c ∈ l := by
  unfold unsigned
  split
  · exact fun c hc => List.mem_cons_of_mem _ hc
  · exact fun c hc => hc

theorem digit_ne_comma {c : Char} (h : isDigit c = true) : c ≠ ',' := by
  rintro rfl
  revert h
  decide

theorem digit_not_space {c : Char} (h : isDigit c = true) : isSpace c = false := by
  simp only [isDigit, Bool.and_eq_true, decide_eq_true_eq] at h
  simp only [isSpace, Bool.or_eq_false_iff, Bool.and_eq_false_iff, decide_eq_false_iff_not, List.contains_eq_mem,
    List.mem_cons, List.not_mem_nil, or_false]
  omega

theorem commaParts_of_coercible (h : Coercible v) : commaParts v ≠ [] := by
  have hdigit : ∀ c ∈ v.toList, isDigit c = true → commaParts v ≠ [] := fun c hc hd =>
    commaParts_ne_nil hc (digit_ne_comma hd) (digit_not_space hd)
  rcases h with rfl | rfl | hinteger | hdecimal
  · exact commaParts_ne_nil (c := 't') (by decide) (by decide) (by decide)
  · exact commaParts_ne_nil (c := 'f') (by decide) (by decide) (by decide)
  · obtain ⟨c, hc, hd⟩ := exists_digit hinteger
    exact hdigit c (unsigned_subset _ c hc) hd
  · unfold isDecimal at hdecimal
    split at hdecimal
    · rename_i fraction hfraction
      obtain ⟨c, hc, hd⟩ := exists_digit hdecimal
      have hdrop : c ∈ (unsigned v.toList).dropWhile isDigit := hfraction ▸ List.mem_cons_of_mem _ hc
      exact hdigit c (unsigned_subset _ c ((List.dropWhile_sublist isDigit).subset hdrop)) hd
    · cases hdecimal

/-! Settings -/

def Named.parts : Named → List String
  | .setting .workspace => ["WORKSPACE"]
  | .setting .soulPath => ["SOUL_PATH"]
  | .setting .workersUrl => ["WORKERS", "URL"]
  | .setting .gatewayUrl => ["GATEWAY", "URL"]
  | .setting .gatewayAccessKey => ["GATEWAY", "ACCESS_KEY"]
  | .setting .gatewaySecretKey => ["GATEWAY", "SECRET_KEY"]
  | .setting .gatewayClientName => ["GATEWAY", "CLIENT_NAME"]
  | .setting .s3Endpoint => ["STORAGE", "S3_ENDPOINT"]
  | .setting .s3Bucket => ["STORAGE", "S3_BUCKET"]
  | .setting .s3AccessKey => ["STORAGE", "S3_ACCESS_KEY"]
  | .setting .s3SecretKey => ["STORAGE", "S3_SECRET_KEY"]
  | .setting .s3Region => ["STORAGE", "S3_REGION"]
  | .admins => ["ADMINS"]

def Named.variable (n : Named) : String := "NEXAL_" ++ "__".intercalate n.parts

theorem envPath_of_parts {rawKey : String} {parts : List String}
    (hsplit : ("NEXAL_".toList.isPrefixOf? rawKey.toList).map splitNesting = some (parts.map String.toList))
    (hascii : ∀ part ∈ parts, ∀ c ∈ part.toList, c.toNat < 128) :
    envPath lib rawKey = some (parts.map fun part => String.ofList (part.toList.map Char.toLower)) := by
  obtain ⟨name, hname, hparts⟩ := Option.map_eq_some_iff.mp hsplit
  rw [envPath, hname, Option.map_some, hparts, List.map_map]
  congr 1
  refine List.map_congr_left fun part hpart => ?_
  rw [Function.comp_apply, String.ofList_toList, lib.toLowerCase_ascii part (hascii part hpart)]

/-- Each key is named by its own variable. -/
theorem varNamed_variable (lib : JsLib) (n : Named) : varNamed lib n.variable = some n := by
  have hsplit : ("NEXAL_".toList.isPrefixOf? n.variable.toList).map splitNesting = some (n.parts.map String.toList) := by
    cases n with
    | setting k => cases k <;> decide
    | admins => decide
  have hascii : (n.parts.all fun part => part.toList.all fun c => c.toNat < 128) = true := by
    cases n with
    | setting k => cases k <;> decide
    | admins => decide
  rw [varNamed, envPath_of_parts hsplit (by simpa using hascii)]
  cases n with
  | setting k => cases k <;> decide
  | admins => decide

/-- The last variable that names a setting makes it the variable's value exactly if no variable is refused and the value
does not read as a number or a boolean, or was there before; and the last one that names the admins makes them its parts
exactly in the first case. -/
theorem env_exact_iff (lib : JsLib) (cfg : NexalConfig lib.Num) (before after : List (String × Option String))
    (rawKey v : String) :
    (∀ k : Setting, varNamed lib rawKey = some (.setting k) →
      (∀ var ∈ after, varNamed lib var.1 ≠ some (.setting k)) →
      ((∃ cfg', applyEnv lib cfg (before ++ (rawKey, some v) :: after) = some cfg' ∧ k.get cfg' = v) ↔
        (∀ var ∈ before ++ (rawKey, some v) :: after, varRefused lib cfg var = false) ∧
          (¬Coercible v ∨ ∃ cfg₀, applyEnv lib cfg before = some cfg₀ ∧ k.get cfg₀ = v))) ∧
    (varNamed lib rawKey = some .admins → (∀ var ∈ after, varNamed lib var.1 ≠ some .admins) →
      ((∃ cfg', applyEnv lib cfg (before ++ (rawKey, some v) :: after) = some cfg' ∧ cfg'.admins = commaParts v) ↔
        (∀ var ∈ before ++ (rawKey, some v) :: after, varRefused lib cfg var = false) ∧ ¬Coercible v)) := by
  rw [← applyEnv_isSome_iff]
  cases henv : applyEnv lib cfg (before ++ (rawKey, some v) :: after) with
  | none => exact ⟨fun _ _ _ => by simp, fun _ _ => by simp⟩
  | some cfg' =>
    obtain ⟨cfg₀, cfg₁, hbefore, hvar, hafter⟩ := applyEnv_split henv
    constructor
    · intro k hnamed hlast
      have hget : k.get cfg' = if Coercible v then k.get cfg₀ else v := by
        rw [applyEnv_get_of_not_named hlast hafter, applyVar_get hvar, written, if_pos hnamed, asString_coerce]
      simp only [hbefore, Option.some.injEq, exists_eq_left', Option.isSome_some, true_and, hget]
      split_ifs with h
      · exact ⟨Or.inr, fun hor => hor.resolve_left (not_not_intro h)⟩
      · exact iff_of_true rfl (Or.inl h)
    · intro hnamed hlast
      have hadmins : cfg'.admins = if Coercible v then [] else commaParts v := by
        rw [applyEnv_admins_of_not_named hlast hafter, applyVar_admins hvar, writtenAdmins, if_pos hnamed, csvList_coerce]
      simp only [Option.some.injEq, exists_eq_left', Option.isSome_some, true_and, hadmins]
      split_ifs with h
      · exact iff_of_false (Ne.symm (commaParts_of_coercible h)) (not_not_intro h)
      · exact iff_of_true rfl h

def asciiLib : JsLib where
  Num := ℕ
  number := String.length
  toLowerCase s := String.ofList (s.toList.map Char.toLower)
  toLowerCase_ascii _ _ := rfl

def noConfig : NexalConfig ℕ where
  workspace := "/srv"
  soulPath := "/root/.nexal/SOUL.md"
  admins := ["alice"]
  debounceSecs := 1
  messageDelaySecs := 10
  activeWindowSecs := 60
  channel := []
  providers := []
  workers := ⟨"", 5⟩
  gateway := ⟨"https://nexal.fly.dev", "", "", "nexal-bun"⟩
  storage := ⟨"", "tape-files", "", "", "eu-central-1", 8192⟩

theorem env_exact_secret :
    (∃ cfg', applyEnv asciiLib noConfig [("NEXAL_GATEWAY__SECRET_KEY", some "s3cret")] = some cfg' ∧
      cfg'.gateway.secretKey = "s3cret") ∧
    ∃ cfg', applyEnv asciiLib noConfig [("NEXAL_ADMINS", some "bob, carol")] = some cfg' ∧
      cfg'.admins = ["bob", "carol"] :=
  ⟨((env_exact_iff asciiLib noConfig [] [] "NEXAL_GATEWAY__SECRET_KEY" "s3cret").1 .gatewaySecretKey
      (varNamed_variable asciiLib (.setting .gatewaySecretKey)) (by simp)).mpr ⟨by decide, Or.inl (by decide)⟩,
    ((env_exact_iff asciiLib noConfig [] [] "NEXAL_ADMINS" "bob, carol").2
      (varNamed_variable asciiLib .admins) (by simp)).mpr ⟨by decide, by decide⟩⟩

/-- A secret of digits is dropped. -/
theorem digits_secret_dropped :
    ∃ cfg', applyEnv asciiLib noConfig [("NEXAL_GATEWAY__SECRET_KEY", some "123456")] = some cfg' ∧
      cfg'.gateway.secretKey ≠ "123456" :=
  ⟨_, rfl, by decide⟩

/-- A variable that would write the name of the function `Object`. -/
example : applyEnv asciiLib noConfig
    [("NEXAL_CHANNEL__CONSTRUCTOR__NAME", some "x"), ("NEXAL_WORKSPACE", some "/home")] = none := by decide

end Nexal.Config
