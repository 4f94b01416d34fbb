/-
Service processes that share one Vault.

* `SharedVault`: the Vault and the deployment; `SharedVault.proc` is a service
  method as the program of client calls that a process makes of it
  (`SharedVault.proc_runs_iff`), and `SharedVault.Reaches` what processes reach that
  run lists of operations, their client calls interleaved; `SharedVault.afterOps` is
  one on concrete data;
* `VaultLedger`, `readsOf`: what the processes have done, and what a process has
  read at a path since it began the operation it is at.
-/
import GofrSec.Calls.Interleave
import GofrSec.Repositories.Storage
import GofrSec.Services.Operations

namespace GofrSec

open Calls

/-- A step of a process over Vault. -/
abbrev VaultEvent (π : Type) : Type :=
  Event π Op VaultCall VaultCall.Res PyError Value VaultWorld

/-- What processes over Vault have done, the newest step first. -/
abbrev VaultLedger (π : Type) : Type := Ledger π Op VaultCall VaultCall.Res PyError Value VaultWorld

/-- How processes act on a shared Vault. -/
abbrev VaultProtocol (π : Type) : Type :=
  Protocol π Op VaultCall VaultCall.Res PyError Value VaultWorld

/-- A Vault that service processes share: their deployment, the server, whether
its calls may raise without taking effect, and the documents at the start. -/
structure SharedVault where
  platform : Platform
  deployment : VaultDeployment
  server : VaultServer
  faults : Prop
  start : VaultWorld

namespace SharedVault

variable {π : Type} [DecidableEq π] (V : SharedVault)

/-- The path layout. -/
abbrev paths : VaultPathLayout := V.deployment.paths

/-- The client calls. -/
abbrev act : Act VaultCall VaultCall.Res PyError VaultWorld := V.server.act V.faults

/-- A service method, as the client calls of a process. -/
def proc (o : Op) : VaultProg Value :=
  (o.prog V.platform).translate (vaultProgram V.platform V.deployment)

omit [DecidableEq π] in
/-- A process that is alone runs the service method on the Vault backend. -/
theorem proc_runs_iff (o : Op) {w w' : VaultWorld} {r : Except PyError Value} :
    (V.proc o).Runs V.act w r w'
      ↔ (o.prog V.platform).Runs ((Storage.vault V.deployment V.server).act V.platform V.faults)
        w r w' :=
  Prog.runs_translate_iff _ _

/-- What processes can reach that each run a list of operations. -/
abbrev Reaches (todo : π → List Op)
    (S : System π Op VaultCall VaultCall.Res PyError Value VaultWorld) : Prop :=
  Reachable V.act V.proc V.start todo S

/-- The documents after the steps of a ledger. -/
abbrev after (L : VaultLedger π) : VaultWorld := world V.start L

/-- A protocol of processes over the Vault. -/
abbrev protocol (Runs : π → Op → Prop) (Ok Guar : VaultLedger π → VaultEvent π → Prop) :
    VaultProtocol π where
  act := V.act
  start := V.start
  Runs := Runs
  Ok := Ok
  Guar := Guar

/-- The run of a schedule in which no call raises. -/
def run (todo : π → List Op) (schedule : List π) :
    System π Op VaultCall VaultCall.Res PyError Value VaultWorld :=
  runSchedule V.server.exec V.proc V.start todo schedule

lemma reaches_run (todo : π → List Op) (schedule : List π) :
    V.Reaches todo (V.run todo schedule) :=
  (reachable_runSchedule V.server.exec V.proc V.start todo schedule).mono fun _ _ _ _ => Or.inl

/-- A Vault on concrete data, without failures, after operations of one process, the
newest first. -/
def afterOps (os : List Op) : SharedVault :=
  { platform := .python
    deployment := .python
    server := .inOrder
    faults := False
    start := (play ((Storage.vault .python .inOrder).exec .python) (Op.prog .python)
      VaultWorld.empty os).2 }

end SharedVault

/-! ### What a process has read -/

section

variable {π : Type} [DecidableEq π]

/-- What the call answered, if it was a read of the path. -/
def readAt (path : String) : VaultEvent π → Option (Except PyError (Option Doc))
  | .call _ _ (.readSecret k) r _ => if k = path then some r else none
  | _ => none

/-- What the operation that the process is at has read at the path, the newest
answer first. -/
def readsOf (p : π) (path : String) (L : VaultLedger π) : List (Except PyError (Option Doc)) :=
  (ongoing p L).filterMap (readAt path)

variable {p : π} {path : String} {L : VaultLedger π}

lemma readsOf_of_ongoing_nil (h : ongoing p L = []) : readsOf p path L = [] := by
  rw [readsOf, h, List.filterMap_nil]

@[simp] lemma readsOf_readSecret (o : Op) (r : Except PyError (Option Doc)) (w : VaultWorld) :
    readsOf p path (.call p o (.readSecret path) r w :: L) = r :: readsOf p path L := by
  rw [readsOf, ongoing_call, List.filterMap_cons, readAt, if_pos rfl, readsOf]

lemma readsOf_readSecret_of_ne {k : String} (hk : k ≠ path) (o : Op)
    (r : Except PyError (Option Doc)) (w : VaultWorld) :
    readsOf p path (.call p o (.readSecret k) r w :: L) = readsOf p path L := by
  rw [readsOf, ongoing_call, List.filterMap_cons, readAt, if_neg hk, readsOf]

@[simp] lemma readsOf_auditAppend (o : Op) (event : AuditEvent) (r : Except PyError Unit)
    (w : VaultWorld) :
    readsOf p path (.call p o (.auditAppend event) r w :: L) = readsOf p path L := by
  rw [readsOf, ongoing_call]
  rfl

lemma readsOf_of_ne {e : VaultEvent π} (h : e.process ≠ p) :
    readsOf p path (e :: L) = readsOf p path L := by
  rw [readsOf, ongoing_of_ne h, readsOf]

/-- What a process has read is not for others to change. -/
lemma stable_readsOf {Γ : VaultProtocol π} (answers : List (Except PyError (Option Doc))) :
    Γ.Stable p fun L => readsOf p path L = answers := by
  intro L e h he
  rw [readsOf_of_ne he.1]
  exact h

end

end GofrSec
