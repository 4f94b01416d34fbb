/-
Server processes that share one Vault.

* `Activity`: what a server process does, one thing after another: the start-up of
  `GofrSecWebServer._startup`, and the requests to its routes; `Outcome` is how it ends;
* `SharedVault.carryOut`: an activity as the program of client calls that the process
  makes; `SharedVault.Serves`: what processes can reach that each carry out a list of
  activities, their client calls interleaved;
* `ServerLedger`, `SharedVault.documents`: what the processes have done, and the
  documents that this leaves.
-/
import GofrSec.Api.Routes
import GofrSec.Calls.Lasting
import GofrSec.Services.SharedMemberships

namespace GofrSec

open Calls

/-- What a server process does. -/
inductive Activity where
  | startUp (subjects : List String) (createdAt : DateTime) (grantedAt : String → DateTime)
  | serve (app : AppState) (request : Request)

/-- How an activity ends, unless it raises. -/
inductive Outcome where
  | plan (plan : BootstrapPlan)
  | response (response : Response)

namespace Activity

/-- The repository calls of an activity. -/
def prog (P : Platform) : Activity → RepoProg Outcome
  | .startUp subjects createdAt grantedAt =>
      Outcome.plan <$> applyPlan subjects createdAt grantedAt
  | .serve app request => Outcome.response <$> request.prog P app

/-- The service operation of an activity, once its guards have passed. -/
def op : Activity → Option Op
  | .startUp subjects createdAt grantedAt => some (.applyPlan subjects createdAt grantedAt)
  | .serve app request => request.op app

/-- The ids that it draws for tokens have the shape of `uuid4().hex`. -/
def Drawn (a : Activity) : Prop := ∀ o, a.op = some o → o.Valid False

end Activity

/-- A step of a server process over Vault. -/
abbrev ServerEvent (π : Type) : Type :=
  Event π Activity VaultCall VaultCall.Res PyError Outcome VaultWorld

/-- What server processes over Vault have done, the newest step first. -/
abbrev ServerLedger (π : Type) : Type :=
  Ledger π Activity VaultCall VaultCall.Res PyError Outcome VaultWorld

/-- How server processes act on a shared Vault. -/
abbrev ServerProtocol (π : Type) : Type :=
  Protocol π Activity VaultCall VaultCall.Res PyError Outcome VaultWorld

namespace SharedVault

variable {π : Type} [DecidableEq π] (V : SharedVault)

/-- An activity, as the client calls of a process. -/
def carryOut (a : Activity) : VaultProg Outcome :=
  (a.prog V.platform).translate (vaultProgram V.platform V.deployment)

omit [DecidableEq π] in
/-- A process that is alone runs the activity on the Vault backend. -/
theorem carryOut_runs_iff (a : Activity) {w w' : VaultWorld} {r : Except PyError Outcome} :
    (V.carryOut a).Runs V.act w r w'
      ↔ (a.prog V.platform).Runs ((Storage.vault V.deployment V.server).act V.platform V.faults)
        w r w' :=
  Prog.runs_translate_iff _ _

/-- What processes can reach that each carry out a list of activities. -/
abbrev Serves (todo : π → List Activity)
    (S : System π Activity VaultCall VaultCall.Res PyError Outcome VaultWorld) : Prop :=
  Reachable V.act V.carryOut V.start todo S

/-- The documents after the steps of a ledger. -/
abbrev documents (L : ServerLedger π) : VaultWorld := world V.start L

/-- Nothing is below the folders of the service at the start. -/
def StartsFresh : Prop := ∀ a k, Text.Under (V.paths.root a) k → V.start.read k = none

/-- The run of a schedule in which no call raises. -/
def serveSchedule (todo : π → List Activity) (schedule : List π) :
    System π Activity VaultCall VaultCall.Res PyError Outcome VaultWorld :=
  runSchedule V.server.exec V.carryOut V.start todo schedule

lemma serves_serveSchedule (todo : π → List Activity) (schedule : List π) :
    V.Serves todo (V.serveSchedule todo schedule) :=
  (reachable_runSchedule V.server.exec V.carryOut V.start todo schedule).mono
    fun _ _ _ _ => Or.inl

end SharedVault

end GofrSec
