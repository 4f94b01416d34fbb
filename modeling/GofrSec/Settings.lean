/-
The settings of the service (`app/settings.py`).

* `Environ`, `Interpreter`: the environment of the process, and what reading it takes of
  Python;
* `pyInt`: `int(text)`, with the texts of its errors;
* `splitCsv`: `_split_csv`; `mem_splitCsv`, `nodup_splitCsv` and `splitCsv_join` say what
  it holds, and that joining with commas is undone by it;
* `...Settings.fromEnv`: the sections of the settings, each read from the environment;
  `readSections_default`: without any variable they are the defaults;
* `SharedSettings`, `SettingsCache`: the settings that all GOFR services share, and the two
  cached settings of the module, with `getSettings`, `getServiceSettings` and
  `resetSettings`.
-/
import GofrSec.Domain.Platform
import GofrSec.Iso8601
import GofrSec.Services.Bootstrap

namespace GofrSec

open Text

/-- The environment of the process: `os.getenv`. -/
abbrev Environ : Type := String → Option String

/-- What reading the settings takes of Python besides. -/
structure Interpreter where
  /-- `str.upper`. -/
  upper : String → String
  /-- The value of a decimal digit beyond ASCII, such as `٣`. -/
  decimal : Char → Option ℕ

/-! ### Numbers -/

/-- A character of a number as ASCII: white space and decimal digits of other scripts are
replaced, and any other character beyond ASCII is no part of a number. -/
def Interpreter.toAscii (I : Interpreter) (c : Char) : Char :=
  if c.toNat < 127 then c
  else if isSpace c then ' '
  else ((I.decimal c).map Nat.digitChar).getD '?'

/-- The white space that may stand around the digits. -/
def isAsciiSpace (c : Char) : Bool := (0x09 ≤ c.toNat && c.toNat ≤ 0x0d) || c.toNat == 0x20

/-- Digits, any two of them parted by at most one underscore. -/
def readDigits : List Char → Option (List Char)
  | [] => none
  | [c] => if c.isDigit then some [c] else none
  | c :: '_' :: cs => if c.isDigit then (readDigits cs).map (c :: ·) else none
  | c :: c' :: cs => if c.isDigit then (readDigits (c' :: cs)).map (c :: ·) else none

/-- The sign and the digits of a number. -/
def readSigned : List Char → Option (Bool × List Char)
  | '-' :: cs => (readDigits cs).map fun ds => (true, ds)
  | '+' :: cs => (readDigits cs).map fun ds => (false, ds)
  | cs => (readDigits cs).map fun ds => (false, ds)

/-- `int(text)`. -/
def pyInt (P : Platform) (I : Interpreter) (text : String) : Except PyError Int :=
  let cs := ((text.toList.map I.toAscii).dropWhile isAsciiSpace).rdropWhile isAsciiSpace
  match readSigned cs with
  | none => .error (.valueError ("invalid literal for int() with base 10: "
      ++ String.ofList ((P.repr text).toList.take 200)))
  | some (negative, ds) =>
      if 4300 < ds.length then
        .error (.valueError ("Exceeds the limit (4300 digits) for integer string conversion: "
          ++ "value has " ++ toString ds.length
          ++ " digits; use sys.set_int_max_str_digits() to increase the limit"))
      else if negative then .ok (-(Iso8601.number ds : Int)) else .ok (Iso8601.number ds)

/-! ### Lists of texts -/

/-- The loop of `_split_csv`; `seen` holds the items so far. -/
def splitCsvFrom (seen : List String) : List String → List String
  | [] => []
  | item :: items =>
      let normalized := strip item
      if normalized ≠ "" ∧ normalized ∉ seen then
        normalized :: splitCsvFrom (normalized :: seen) items
      else splitCsvFrom seen items

/-- `value.split(",")`. -/
def splitComma (value : String) : List String := (value.toList.splitOn ',').map String.ofList

/-- `_split_csv`. -/
def splitCsv : Option String → List String
  | none => []
  | some value => if value = "" then [] else splitCsvFrom [] (splitComma value)

/-- The loop of `_split_csv` is the one of `_normalize_subjects`. -/
lemma splitCsvFrom_eq (seen items : List String) :
    splitCsvFrom seen items = normalizeSubjectsFrom seen items := by
  induction items generalizing seen with
  | nil => rfl
  | cons item items ih => simp only [splitCsvFrom, normalizeSubjectsFrom, ih]

/-- A variable holds the items between its commas, without the white space around them;
blank ones do not count. -/
lemma mem_splitCsv {value : Option String} {item : String} :
    item ∈ splitCsv value
      ↔ item ≠ "" ∧ ∃ text ∈ value, ∃ piece ∈ splitComma text, strip piece = item := by
  cases value with
  | none => simp [splitCsv]
  | some text =>
      have hempty : strip (String.ofList []) = "" := rfl
      by_cases h : text = ""
      · subst h
        simp only [splitCsv, splitComma, String.toList_empty, List.splitOn_nil, List.map_cons,
          List.map_nil, List.mem_singleton, exists_eq_left, Option.mem_some_iff, exists_eq_left',
          hempty, if_true, List.not_mem_nil, false_iff, not_and]
        exact fun hne heq => hne heq.symm
      · simp [splitCsv, if_neg h, splitCsvFrom_eq, mem_normalizeSubjectsFrom]

/-- It holds each of them once. -/
lemma nodup_splitCsv (value : Option String) : (splitCsv value).Nodup := by
  cases value with
  | none => exact List.nodup_nil
  | some text =>
      rw [splitCsv]
      split_ifs
      · exact List.nodup_nil
      · rw [splitCsvFrom_eq]
        exact nodup_normalizeSubjects (splitComma text)

/-- Stripping twice is stripping once. -/
lemma strip_strip (s : String) : strip (strip s) = strip s := by
  have hlist : (strip s).toList = (s.toList.dropWhile isSpace).rdropWhile isSpace :=
    String.toList_ofList
  refine strip_eq_self (fun c hc => ?_) fun c hc => ?_
  · rw [hlist] at hc
    obtain ⟨rest, hrest⟩ := List.rdropWhile_prefix isSpace (s.toList.dropWhile isSpace)
    have hhead : (s.toList.dropWhile isSpace).head? = some c := by
      rw [← hrest, List.head?_append, hc]
      rfl
    have hnot := List.head?_dropWhile_not isSpace s.toList
    rw [hhead] at hnot
    simpa using hnot
  · rw [hlist] at hc
    have hne : (s.toList.dropWhile isSpace).rdropWhile isSpace ≠ [] := by
      rintro hnil
      rw [hnil] at hc
      cases hc
    have hlast := List.rdropWhile_last_not isSpace _ hne
    rw [List.getLast?_eq_some_getLast hne] at hc
    rw [← Option.some.inj hc]
    simpa using hlast

/-- The bootstrap takes the configured subjects as they are. -/
lemma mem_normalizeSubjects_splitCsv {value : Option String} {u : String} :
    u ∈ normalizeSubjects (splitCsv value) ↔ u ∈ splitCsv value := by
  rw [mem_normalizeSubjects]
  constructor
  · rintro ⟨-, item, hitem, rfl⟩
    obtain ⟨-, text, -, piece, -, rfl⟩ := mem_splitCsv.mp hitem
    rwa [strip_strip]
  · intro hu
    obtain ⟨hne, text, -, piece, -, rfl⟩ := mem_splitCsv.mp hu
    exact ⟨hne, _, hu, strip_strip piece⟩

lemma splitCsvFrom_of_clean {seen items : List String} (hnodup : items.Nodup)
    (hclean : ∀ item ∈ items, item ≠ "" ∧ strip item = item ∧ item ∉ seen) :
    splitCsvFrom seen items = items := by
  induction items generalizing seen with
  | nil => rfl
  | cons item items ih =>
      obtain ⟨hne, hstrip, hseen⟩ := hclean item List.mem_cons_self
      obtain ⟨hitem, hrest⟩ := List.nodup_cons.mp hnodup
      have htail : splitCsvFrom (item :: seen) items = items := by
        refine ih hrest fun x hx => ?_
        obtain ⟨hne', hstrip', hseen'⟩ := hclean x (List.mem_cons_of_mem _ hx)
        refine ⟨hne', hstrip', fun hmem => ?_⟩
        rcases List.mem_cons.mp hmem with rfl | hmem
        · exact hitem hx
        · exact hseen' hmem
      simp only [splitCsvFrom, hstrip]
      rw [if_pos ⟨hne, hseen⟩, htail]

/-- Joining clean items with commas is undone by splitting. -/
theorem splitCsv_join {items : List String} (hnodup : items.Nodup)
    (hclean : ∀ item ∈ items, item ≠ "" ∧ strip item = item ∧ ',' ∉ item.toList) :
    splitCsv (some (String.intercalate "," items)) = items := by
  cases items with
  | nil => rfl
  | cons item items =>
      have hlist : (String.intercalate "," (item :: items)).toList
          = List.intercalate [','] ((item :: items).map String.toList) := by
        rw [String.toList_intercalate]
        rfl
      have hsplit : splitComma (String.intercalate "," (item :: items)) = item :: items := by
        rw [splitComma, hlist, List.splitOn_intercalate]
        · rw [List.map_map]
          exact List.map_id'' (fun s => String.ofList_toList) _
        · intro l hl
          obtain ⟨s, hs, rfl⟩ := List.mem_map.mp hl
          exact (hclean s hs).2.2
        · simp
      have hne : String.intercalate "," (item :: items) ≠ "" := by
        intro h0
        have hempty : splitComma "" = [""] := rfl
        rw [h0, hempty] at hsplit
        exact (hclean item List.mem_cons_self).1 (List.cons.inj hsplit).1.symm
      rw [splitCsv, if_neg hne, hsplit]
      refine splitCsvFrom_of_clean hnodup fun x hx => ?_
      exact ⟨(hclean x hx).1, (hclean x hx).2.1, List.not_mem_nil⟩

/-! ### The sections -/

/-- `KeycloakSettings`. -/
structure KeycloakSettings where
  issuerUrl : Option String := none
  audience : Option String := none
  deriving DecidableEq, Repr

/-- `KeycloakSettings.from_env`. -/
def KeycloakSettings.fromEnv (E : Environ) (pre : String) : KeycloakSettings :=
  { issuerUrl := E (pre ++ "_KEYCLOAK_ISSUER_URL")
    audience := E (pre ++ "_KEYCLOAK_AUDIENCE") }

/-- `BootstrapAdminSettings`. -/
structure BootstrapAdminSettings where
  trustedSubs : List String := []
  deriving DecidableEq, Repr

/-- `BootstrapAdminSettings.from_env`. -/
def BootstrapAdminSettings.fromEnv (E : Environ) (pre : String) : BootstrapAdminSettings :=
  { trustedSubs := splitCsv (E (pre ++ "_BOOTSTRAP_ADMIN_SUBS")) }

/-- `SigningSettings`. -/
structure SigningSettings where
  vaultPath : Option String := none
  algorithm : String := "RS256"
  issuer : String := "gofr-sec"
  defaultLifetimeSeconds : Int := 3600
  deriving DecidableEq, Repr

/-- `SigningSettings.from_env`. -/
def SigningSettings.fromEnv (P : Platform) (I : Interpreter) (E : Environ) (pre : String) :
    Except PyError SigningSettings := do
  let vaultPath := E (pre ++ "_SIGNING_VAULT_PATH")
  let algorithm := I.upper ((E (pre ++ "_SIGNING_ALGORITHM")).getD "RS256")
  let issuer := (E (pre ++ "_TOKEN_ISSUER")).getD "gofr-sec"
  let lifetime ← pyInt P I ((E (pre ++ "_TOKEN_DEFAULT_LIFETIME_S")).getD "3600")
  return {
    vaultPath := vaultPath
    algorithm := algorithm
    issuer := issuer
    defaultLifetimeSeconds := lifetime }

/-- `CacheSettings`. -/
structure CacheSettings where
  authzTtlSeconds : Int := 30
  publicKeyTtlSeconds : Int := 300
  deriving DecidableEq, Repr

/-- `CacheSettings.from_env`. -/
def CacheSettings.fromEnv (P : Platform) (I : Interpreter) (E : Environ) (pre : String) :
    Except PyError CacheSettings := do
  let authz ← pyInt P I ((E (pre ++ "_AUTHZ_CACHE_TTL_S")).getD "30")
  let publicKey ← pyInt P I ((E (pre ++ "_PUBLIC_KEY_CACHE_TTL_S")).getD "300")
  return { authzTtlSeconds := authz, publicKeyTtlSeconds := publicKey }

/-- `x or y` of texts that may be missing: an empty text counts as missing. -/
def orText : Option String → Option String → Option String
  | none, y => y
  | some x, y => if x = "" then y else some x

/-- `_env_with_global_fallback`. -/
def envWithGlobalFallback (E : Environ) (pre suffix : String) : Option String :=
  orText (E (pre ++ "_" ++ suffix)) (E ("GOFR_" ++ suffix))

/-- `VaultRepositorySettings`. -/
structure VaultRepositorySettings where
  url : Option String := none
  token : Option String := none
  roleId : Option String := none
  secretId : Option String := none
  mountPoint : String := "secret"
  pathPrefix : String := "gofr/sec"
  timeout : Int := 30
  vaultNamespace : Option String := none
  verifySsl : Bool := true
  deriving DecidableEq, Repr

/-- `x or default`. -/
def orDefault (x : Option String) (default : String) : String :=
  (orText x none).getD default

/-- `VaultRepositorySettings.from_env`. -/
def VaultRepositorySettings.fromEnv (P : Platform) (I : Interpreter) (E : Environ) (pre : String) :
    Except PyError VaultRepositorySettings := do
  let verifySslValue := orDefault (envWithGlobalFallback E pre "VAULT_VERIFY_SSL") "true"
  let timeoutValue := orDefault (envWithGlobalFallback E pre "VAULT_TIMEOUT") "30"
  let timeout ← pyInt P I timeoutValue
  return {
    url := envWithGlobalFallback E pre "VAULT_URL"
    token := envWithGlobalFallback E pre "VAULT_TOKEN"
    roleId := envWithGlobalFallback E pre "VAULT_ROLE_ID"
    secretId := envWithGlobalFallback E pre "VAULT_SECRET_ID"
    mountPoint := orDefault (envWithGlobalFallback E pre "VAULT_MOUNT") "secret"
    pathPrefix := orDefault (envWithGlobalFallback E pre "VAULT_PATH_PREFIX") "gofr/sec"
    timeout := timeout
    vaultNamespace := envWithGlobalFallback E pre "VAULT_NAMESPACE"
    verifySsl := P.lower verifySslValue ∈ ["true", "1", "yes"] }

/-- A text is there and not empty: `bool(text)`. -/
def isGiven (x : Option String) : Bool := (orText x none).isSome

/-- `VaultRepositorySettings.is_configured`. -/
def VaultRepositorySettings.isConfigured (s : VaultRepositorySettings) : Bool :=
  isGiven s.url && (isGiven s.token || (isGiven s.roleId && isGiven s.secretId))

/-- `VaultConfig`, what the Vault client is made from. -/
structure VaultConfig where
  url : String
  token : Option String
  roleId : Option String
  secretId : Option String
  mountPoint : String
  pathPrefix : String
  timeout : Int
  vaultNamespace : Option String
  verifySsl : Bool
  deriving DecidableEq, Repr

/-- `VaultRepositorySettings.to_vault_config`. -/
def VaultRepositorySettings.toVaultConfig (s : VaultRepositorySettings) :
    Except PyError VaultConfig :=
  if s.isConfigured then
    .ok {
      url := s.url.getD "None"
      token := s.token
      roleId := s.roleId
      secretId := s.secretId
      mountPoint := s.mountPoint
      pathPrefix := s.pathPrefix
      timeout := s.timeout
      vaultNamespace := s.vaultNamespace
      verifySsl := s.verifySsl }
  else .error (.valueError "Vault repository settings are incomplete")

/-- `GofrSecServiceSettings`, over the settings `κ` that all GOFR services share. -/
structure GofrSecServiceSettings (κ : Type) where
  core : κ
  keycloak : KeycloakSettings
  bootstrap : BootstrapAdminSettings
  signing : SigningSettings
  cache : CacheSettings
  vault : VaultRepositorySettings

/-! ### The cached settings -/

/-- The prefix of the service's variables. -/
def envPrefix : String := "GOFRSEC"

/-- `gofr_common.config.Settings`, as this module uses it. -/
structure SharedSettings (κ : Type) where
  /-- `Settings.from_env`; no caller asks for `require_auth`. -/
  fromEnv : Environ → Except PyError κ
  /-- `resolve_defaults` and `validate`: how they end, and the settings as they leave them. -/
  complete : κ → Except PyError Unit × κ

/-- The two globals of the module. -/
structure SettingsCache (κ : Type) where
  settings : Option κ := none
  serviceSettings : Option (GofrSecServiceSettings κ) := none

variable {κ : Type} (P : Platform) (I : Interpreter)

/-- `get_settings`. -/
def getSettings (C : SharedSettings κ) (E : Environ) (reload : Bool) (c : SettingsCache κ) :
    Except PyError κ × SettingsCache κ :=
  match c.settings, reload with
  | some core, false => (.ok core, c)
  | _, _ =>
      match C.fromEnv E with
      | .error e => (.error e, c)
      | .ok core =>
          -- the global is set before the settings are validated
          let (done, core') := C.complete core
          (done.map fun _ => core', { c with settings := some core' })

/-- The sections of the service, read over shared settings. -/
def readSections (E : Environ) (core : κ) : Except PyError (GofrSecServiceSettings κ) := do
  let keycloak := KeycloakSettings.fromEnv E envPrefix
  let bootstrap := BootstrapAdminSettings.fromEnv E envPrefix
  let signing ← SigningSettings.fromEnv P I E envPrefix
  let cache ← CacheSettings.fromEnv P I E envPrefix
  let vault ← VaultRepositorySettings.fromEnv P I E envPrefix
  return {
    core := core
    keycloak := keycloak
    bootstrap := bootstrap
    signing := signing
    cache := cache
    vault := vault }

/-- `get_service_settings`. -/
def getServiceSettings (C : SharedSettings κ) (E : Environ) (reload : Bool)
    (c : SettingsCache κ) : Except PyError (GofrSecServiceSettings κ) × SettingsCache κ :=
  match c.serviceSettings, reload with
  | some settings, false => (.ok settings, c)
  | _, _ =>
      match getSettings C E reload c with
      | (.error e, c') => (.error e, c')
      | (.ok core, c') =>
          match readSections P I E core with
          | .error e => (.error e, c')
          | .ok settings => (.ok settings, { c' with serviceSettings := some settings })

/-- `reset_settings`. -/
def resetSettings : SettingsCache κ := {}

variable {P I} in
/-- Service settings that are not cached are those of the environment. -/
lemma getServiceSettings_fresh {C : SharedSettings κ} {E : Environ} {reload : Bool}
    {c : SettingsCache κ} (hc : c.serviceSettings = none) {settings : GofrSecServiceSettings κ}
    (h : (getServiceSettings P I C E reload c).1 = .ok settings) :
    ∃ core, (getSettings C E reload c).1 = .ok core ∧ readSections P I E core = .ok settings := by
  simp only [getServiceSettings, hc] at h
  cases hcore : getSettings C E reload c with
  | mk loaded c' =>
      rw [hcore] at h
      cases loaded with
      | error e => cases h
      | ok core =>
          dsimp only at h
          cases hsections : readSections P I E core with
          | error e =>
              rw [hsections] at h
              cases h
          | ok found =>
              rw [hsections] at h
              obtain rfl := Except.ok.inj h
              exact ⟨core, rfl, hsections⟩

variable {P I} in
/-- The admins of the settings are those that the environment lists. -/
lemma readSections_trustedSubs {E : Environ} {core : κ} {settings : GofrSecServiceSettings κ}
    (h : readSections P I E core = .ok settings) :
    settings.bootstrap.trustedSubs = splitCsv (E "GOFRSEC_BOOTSTRAP_ADMIN_SUBS") := by
  obtain ⟨signing, -, h⟩ := except_bind_eq_ok h
  obtain ⟨cache, -, h⟩ := except_bind_eq_ok h
  obtain ⟨vault, -, h⟩ := except_bind_eq_ok h
  obtain rfl := Except.ok.inj h
  rfl

lemma lower_true : P.lower "true" = "true" := by
  have hall : ("true".toList.all fun c => c.toNat < 128) = true := rfl
  have hascii : ∀ c ∈ "true".toList, c.toNat < 128 :=
    fun c hc => of_decide_eq_true (List.all_eq_true.mp hall c hc)
  rw [← String.toList_inj, P.lower_ascii _ hascii]
  rfl

variable {P I} in
/-- Without any of the variables the sections are the defaults. -/
theorem readSections_default {E : Environ} (h : ∀ name, E name = none)
    (hupper : I.upper "RS256" = "RS256") (core : κ) :
    readSections P I E core
      = .ok { core := core, keycloak := {}, bootstrap := {}, signing := {}, cache := {},
              vault := {} } := by
  have hfallback : ∀ suffix, envWithGlobalFallback E envPrefix suffix = none := by
    intro suffix
    rw [envWithGlobalFallback, h, h]
    rfl
  have hsigning : SigningSettings.fromEnv P I E envPrefix = .ok {} := by
    simp only [SigningSettings.fromEnv, h, Option.getD_none, hupper,
      show pyInt P I "3600" = .ok 3600 from rfl]
    rfl
  have hcache : CacheSettings.fromEnv P I E envPrefix = .ok {} := by
    simp only [CacheSettings.fromEnv, h, Option.getD_none, show pyInt P I "30" = .ok 30 from rfl,
      show pyInt P I "300" = .ok 300 from rfl]
    rfl
  have hvault : VaultRepositorySettings.fromEnv P I E envPrefix = .ok {} := by
    simp only [VaultRepositorySettings.fromEnv, hfallback, orDefault, orText, Option.getD_none,
      show pyInt P I "30" = .ok 30 from rfl, lower_true]
    rfl
  simp only [readSections, hsigning, hcache, hvault, KeycloakSettings.fromEnv,
    BootstrapAdminSettings.fromEnv, h]
  rfl

end GofrSec
