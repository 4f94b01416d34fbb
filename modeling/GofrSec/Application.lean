/-
The wiring of the service at start-up (`app/bootstrap.py`, `main` of `app/main_web.py`, and
`build_token_signer` of `app/services/token_service.py`).

* `Host`: what a process of the service runs on;
* `RepositoryBundle`, `buildRepositoryBundle`, `buildTokenSigner`: the repositories and the
  signer that the settings ask for;
* `ApplicationState`, `initializeApplicationState`: what `app.state` holds once the settings
  are read; `ApplicationState.startUp` is the rest of the start-up, the bootstrap of the
  reserved group and of the admins;
* `initializeApplicationState_cases`: the state is built from one reading of the settings;
* `launched`: the state of a process that `main` starts in an environment.
-/
import GofrSec.Services.Servers
import GofrSec.Settings

namespace GofrSec

open Calls

/-- `KeycloakVerifierSettings`, what the verifier of bearer tokens is made from. -/
structure KeycloakVerifierSettings where
  issuerUrl : Option String
  audience : Option String
  jwksCacheTtlSeconds : Int

/-- What a process of the service runs on. -/
structure Host (κ : Type) where
  platform : Platform
  interpreter : Interpreter
  /-- The settings that all GOFR services share. -/
  shared : SharedSettings κ
  /-- What `main` sets in them from the command line: host, port and log level. -/
  arguments : κ → κ
  /-- The Vault that `VaultClient(config)` talks to. -/
  connect : VaultConfig → Except PyError VaultServer
  /-- How `AccessTokenVerifier.from_settings` ends. -/
  verifierFromSettings : KeycloakVerifierSettings → Except PyError Unit

/-- `RepositoryBundle`, by its client: without one the repositories are in memory. -/
structure RepositoryBundle where
  vaultClient : Option VaultServer

/-- `storage_backend`. -/
def RepositoryBundle.storageBackend (bundle : RepositoryBundle) : String :=
  if bundle.vaultClient.isSome then "vault" else "memory"

/-- `app.state`, after the settings are read. -/
structure ApplicationState (κ : Type) where
  serviceSettings : GofrSecServiceSettings κ
  repositories : RepositoryBundle
  tokenSigner : Option VaultTokenSigner

variable {κ : Type} (H : Host κ)

/-- `build_repository_bundle`. -/
def buildRepositoryBundle (settings : GofrSecServiceSettings κ) :
    Except PyError RepositoryBundle :=
  if settings.vault.isConfigured then do
    let config ← settings.vault.toVaultConfig
    let client ← H.connect config
    return { vaultClient := some client }
  else return { vaultClient := none }

/-- `build_token_signer`. -/
def buildTokenSigner (vaultClient : Option VaultServer) (paths : VaultPathLayout)
    (settings : SigningSettings) : Option VaultTokenSigner :=
  vaultClient.map fun _ =>
    { vaultPath := orDefault settings.vaultPath paths.signingKeyPath
      algorithm := settings.algorithm
      issuer := settings.issuer }

/-- `initialize_application_state`, up to the bootstrap. -/
def initializeApplicationState (E : Environ) (c : SettingsCache κ) :
    Except PyError (ApplicationState κ) × SettingsCache κ :=
  let (loaded, c') := getServiceSettings H.platform H.interpreter H.shared E false c
  (do
    let settings ← loaded
    let bundle ← buildRepositoryBundle H settings
    let paths : VaultPathLayout := { pathPrefix := settings.vault.pathPrefix }
    H.verifierFromSettings {
      issuerUrl := settings.keycloak.issuerUrl
      audience := settings.keycloak.audience
      jwksCacheTtlSeconds := settings.cache.publicKeyTtlSeconds }
    return {
      serviceSettings := settings
      repositories := bundle
      tokenSigner := buildTokenSigner bundle.vaultClient paths settings.signing }, c')

namespace ApplicationState

variable (A : ApplicationState κ)

/-- The path layout of the repositories. -/
def paths : VaultPathLayout := { pathPrefix := A.serviceSettings.vault.pathPrefix }

/-- What the routes read of it. -/
def app : AppState :=
  { hasTokenSigner := A.tokenSigner.isSome
    defaultLifetimeSeconds := A.serviceSettings.signing.defaultLifetimeSeconds }

/-- The bootstrap: `apply_plan` of the configured subjects. -/
def startUp (createdAt : DateTime) (grantedAt : String → DateTime) : Activity :=
  .startUp A.serviceSettings.bootstrap.trustedSubs createdAt grantedAt

end ApplicationState

/-- What the application state is made of. -/
theorem initializeApplicationState_cases {E : Environ} {c c' : SettingsCache κ}
    {A : ApplicationState κ} (h : initializeApplicationState H E c = (.ok A, c')) :
    (getServiceSettings H.platform H.interpreter H.shared E false c).1 = .ok A.serviceSettings
      ∧ A.repositories.storageBackend
        = (if A.serviceSettings.vault.isConfigured then "vault" else "memory")
      ∧ A.tokenSigner.isSome = A.serviceSettings.vault.isConfigured
      ∧ ∀ signer, A.tokenSigner = some signer → signer.vaultPath
        = orDefault A.serviceSettings.signing.vaultPath A.paths.signingKeyPath := by
  obtain ⟨hstate, -⟩ := Prod.mk.inj h
  obtain ⟨settings, hsettings, hrest⟩ := except_bind_eq_ok hstate
  obtain ⟨bundle, hbundle, hrest⟩ := except_bind_eq_ok hrest
  obtain ⟨-, -, hdone⟩ := except_bind_eq_ok hrest
  obtain rfl := Except.ok.inj hdone
  have hclient : bundle.vaultClient.isSome = settings.vault.isConfigured := by
    rw [buildRepositoryBundle] at hbundle
    split_ifs at hbundle with hconfigured
    · obtain ⟨config, -, hconnect⟩ := except_bind_eq_ok hbundle
      obtain ⟨client, -, hclient⟩ := except_bind_eq_ok hconnect
      rw [← Except.ok.inj hclient, hconfigured]
      rfl
    · rw [← Except.ok.inj hbundle]
      simpa using hconfigured
  refine ⟨hsettings, ?_, ?_, fun signer hsigner => ?_⟩
  · rw [RepositoryBundle.storageBackend, hclient]
  · rw [← hclient, buildTokenSigner, Option.isSome_map]
  · obtain ⟨client, -, rfl⟩ := Option.map_eq_some_iff.mp hsigner
    rfl

/-- `app.state` of a process that `main` starts in an environment: the shared settings are
loaded first, changed as the command line says, and the start-up of the application reads
the rest. -/
def launched (E : Environ) : Except PyError (ApplicationState κ) :=
  match getSettings H.shared E true {} with
  | (.error e, _) => .error e
  | (.ok _, c) =>
      (initializeApplicationState H E { c with settings := c.settings.map H.arguments }).1

variable {H}

/-- The application state of a process is built from the settings of its environment. -/
lemma launched_cases {E : Environ} {A : ApplicationState κ} (h : launched H E = .ok A) :
    (∃ core, readSections H.platform H.interpreter E core = .ok A.serviceSettings)
      ∧ A.tokenSigner.isSome = A.serviceSettings.vault.isConfigured := by
  rw [launched] at h
  cases hshared : getSettings H.shared E true {} with
  | mk loaded c =>
      rw [hshared] at h
      cases loaded with
      | error e => cases h
      | ok core =>
          have hcache : c.serviceSettings = none := by
            simp only [getSettings] at hshared
            split at hshared <;> exact (congrArg SettingsCache.serviceSettings
              (Prod.mk.inj hshared).2).symm
          obtain ⟨hsettings, -, hsigner, -⟩ := initializeApplicationState_cases H (Prod.ext h rfl)
          obtain ⟨core', -, hsections⟩ := getServiceSettings_fresh (by exact hcache) hsettings
          exact ⟨⟨core', hsections⟩, hsigner⟩

/-- A process that starts makes admins of the subjects that its environment lists. -/
lemma launched_trustedSubs {E : Environ} {A : ApplicationState κ} (h : launched H E = .ok A) :
    A.serviceSettings.bootstrap.trustedSubs = splitCsv (E "GOFRSEC_BOOTSTRAP_ADMIN_SUBS") := by
  obtain ⟨⟨core, hsections⟩, -⟩ := launched_cases h
  exact readSections_trustedSubs hsections

/-- It has a signer exactly when its environment configures Vault. -/
lemma launched_hasTokenSigner {E : Environ} {A : ApplicationState κ} (h : launched H E = .ok A) :
    A.app.hasTokenSigner = A.serviceSettings.vault.isConfigured :=
  (launched_cases h).2

end GofrSec
