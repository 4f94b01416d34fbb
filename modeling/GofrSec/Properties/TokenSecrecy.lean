/-
A JWT goes to the caller of its mint, and to nobody else.

* `SharedVault.signingWith`: the same Vault and processes, that sign with another
  `jwt.encode`;
* `jwts_unseen`: whatever server processes do, they do in step when they sign other JWTs:
  the same client calls with the same answers, but for the field `jwt_hash` of token
  documents, and the same outcomes, but for the JWT that a mint hands out.
-/
import GofrSec.Properties.SharedAccess
import GofrSec.Repositories.VaultHashBlind

namespace GofrSec

open Calls

/-- The same Vault and processes, that sign with another `jwt.encode`. -/
def SharedVault.signingWith (V : SharedVault) (encode : JwtEncode) : SharedVault :=
  { V with deployment := V.deployment.signingWith encode }

variable {π : Type} [DecidableEq π]

/-- Steps that differ in JWTs and their hashes at most. -/
abbrev SameButJwts (L : VaultPathLayout) : ServerEvent π → ServerEvent π → Prop :=
  Event.Coupled (vaultBlind L) (VaultWorld.SameButHashes L) fun a => Likewise (ButForJwt a)

/-- **Nobody but the caller of a mint can tell its JWT.** Let server processes share a Vault,
their client calls interleaved in any way and raising wherever they may. Whatever they do, they
can do in step with other JWTs in place of theirs: each client call is the same, and each
answer, but for the field `jwt_hash` of a document `tokens/<id>`; each activity ends the same,
but for the JWT that a mint hands out; and the documents and audit events that are left are the
same, but for that field. -/
theorem jwts_unseen (V : SharedVault) {encode : JwtEncode}
    (hsign : SignAlike V.deployment.crypto.jwtEncode encode) {todo : π → List Activity}
    {S : System π Activity VaultCall VaultCall.Res PyError Outcome VaultWorld}
    (hserves : V.Serves todo S) :
    ∃ T : System π Activity VaultCall VaultCall.Res PyError Outcome VaultWorld,
      (V.signingWith encode).Serves todo T
        ∧ List.Forall₂ (SameButJwts V.paths) S.ledger T.ledger
        ∧ (V.documents S.ledger).SameButHashes V.paths (V.documents T.ledger) := by
  have hprog : ∀ a, (V.carryOut a).Coupled (vaultBlind V.paths) (Likewise (ButForJwt a))
      ((V.signingWith encode).carryOut a) := fun a =>
    (blind_activity V.platform a).translate fun i j => coupled_vaultProgram V.platform hsign
  obtain ⟨T, hT, hinstep⟩ := Reachable.coupled (couples_vaultBlind V.server V.faults) hprog
    (.refl V.start) hserves
  exact ⟨T, hT, hinstep.ledger, view_world (.refl V.start) hinstep.ledger⟩

/-- A server process starts up, `root` creates a group and mints a token of it for `alice`, who
has registered at another one. -/
def mintingServers : Bool → List Activity
  | true => [.startUp ["root"] newYear.now fun _ => newYear.now,
      .serve ⟨true, 60⟩ (.createGroup (keycloakUser "root") "team" none none newYear),
      .serve ⟨true, 60⟩ (.createToken (keycloakUser "root") "alice" ["team"] none
        teamMint.tokenId none newYear)]
  | false => [.serve ⟨true, 60⟩ (.registerMe (keycloakUser "alice") none newYear)]

/-- They take turns, call by call. -/
def mintingServersRun : System Bool Activity VaultCall VaultCall.Res PyError Outcome VaultWorld :=
  SharedVault.python.serveSchedule mintingServers (List.replicate 24 [true, false]).flatten

/-- The ledger ends with a mint, and the JWT that it handed out. -/
def mintedJwt : ServerLedger Bool → Option String
  | .finish _ _ (.ok (.response (.success _ (.minted _ jwt)))) :: _ => some jwt
  | _ => none

/-- A run of them that ends with a mint has one in step in which other JWTs are signed. -/
theorem jwts_unseen_mintingServers :
    mintedJwt mintingServersRun.ledger = some "e30.e30.c2ln"
      ∧ ∃ T, (SharedVault.python.signingWith fun _ _ _ _ => .ok "e30.e30.b3RoZXI").Serves
          mintingServers T
        ∧ List.Forall₂ (SameButJwts SharedVault.python.paths) mintingServersRun.ledger
          T.ledger := by
  refine ⟨by decide +kernel, ?_⟩
  have hsign : SignAlike SharedVault.python.deployment.crypto.jwtEncode
      (fun _ _ _ _ => .ok "e30.e30.b3RoZXI") := fun _ _ _ _ => .ok ⟨rfl, rfl⟩
  have hserves : SharedVault.python.Serves mintingServers mintingServersRun :=
    SharedVault.python.serves_serveSchedule _ _
  obtain ⟨T, hT, hledger, -⟩ := jwts_unseen SharedVault.python hsign hserves
  exact ⟨T, hT, hledger⟩

end GofrSec
