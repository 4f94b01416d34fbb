/-
Runs of the service on a storage backend.

* `OpHistory`: the operations of a run with their outcomes, the newest first;
* `runs_invariant`: what every operation keeps, by its effect, holds of the
  registry after every run, on either backend and with or without failures;
* `teamWork`, `teamDay`: runs on concrete data.
-/
import GofrSec.Repositories.Storage
import GofrSec.Services.Operations

namespace GofrSec

open Calls

/-- The history of a run of the service. -/
abbrev OpHistory : Type := History Op PyError Value

variable {P : Platform} {st : Storage} {faults plain : Prop}

lemma Registry.sound_empty {R : Regime} : Registry.empty.Sound R := fun _ _ h => nomatch h

/-- A session without failures is a session. -/
lemma Storage.session_of_exec {s t : st.State} {h : OpHistory}
    (hsession : Session (st.exec P).graph (Op.prog P) s h t) :
    Session (st.act P faults) (Op.prog P) s h t :=
  hsession.mono Storage.act_of_graph

/-- The operations of a played session. -/
lemma map_fst_play {st : Storage} (s : st.State) (os : List Op) :
    ((play (st.exec P) (Op.prog P) s os).1.map fun m => (m.op, m.outcome)).map Prod.fst = os := by
  rw [List.map_map]
  exact map_op_play s os

/-- **Runs keep what operations keep.** An invariant between the history and
the registry that every effect of a valid operation keeps holds after every
run from a state where it holds. -/
theorem runs_invariant (faults plain : Prop) (I : OpHistory → Registry → Prop)
    (Valid : List Op → Prop) (htail : ∀ o os, Valid (o :: os) → Valid os)
    (hvalid : ∀ o os, Valid (o :: os) → o.Valid plain)
    (hstep : ∀ o h reg r reg', Valid (o :: h.map Prod.fst) → reg.Sound (runRegime faults plain) →
      I h reg → o.Effect P (runRegime faults plain) reg r reg' → I ((o, r) :: h) reg')
    {s t : st.State} {reg : Registry} {h : OpHistory}
    (hrep : st.Represents P (runRegime faults plain) s reg)
    (hsound : reg.Sound (runRegime faults plain)) (hI : I [] reg)
    (hsession : Session (st.act P faults) (Op.prog P) s h t) (hops : Valid (h.map Prod.fst)) :
    ∃ reg', st.Represents P (runRegime faults plain) t reg'
      ∧ reg'.Sound (runRegime faults plain) ∧ I h reg' := by
  refine Session.refine (Storage.implements (Storage.signsIn_runRegime st)) htail
    (I := fun h reg => reg.Sound (runRegime faults plain) ∧ I h reg) ?_ hrep ⟨hsound, hI⟩
    hsession hops
  rintro o h reg hos ⟨hsound, hI⟩
  refine Prog.wp_mono (fun r reg' heffect => ?_) (op_effect hsound o (hvalid o _ hos))
  exact ⟨heffect.change.sound hsound (hvalid o _ hos), hstep o h reg r reg' hos hsound hI heffect⟩

/-- All operations are ones that callers may make. -/
def ValidOps (plain : Prop) (ops : List Op) : Prop := ∀ o ∈ ops, o.Valid plain

lemma ValidOps.tail {o : Op} {ops : List Op} (h : ValidOps plain (o :: ops)) :
    ValidOps plain ops := fun o' ho' => h o' (List.mem_cons_of_mem _ ho')

lemma ValidOps.head {o : Op} {ops : List Op} (h : ValidOps plain (o :: ops)) : o.Valid plain :=
  h o List.mem_cons_self

/-! ### Concrete data -/

/-- 1 January 2026, midnight. -/
def newYear : Clock :=
  ⟨⟨1767225600000000, by decide, by decide⟩, ⟨1767225600000000, by decide, by decide⟩⟩

/-- The start-up plan that makes `root` an admin. -/
def rootPlan : RepoProg BootstrapPlan := applyPlan ["root"] newYear.now fun _ => newYear.now

/-- A user with an empty token from Keycloak. -/
def keycloakUser (sub : String) : VerifiedIdentity := ⟨sub, []⟩

/-- A mint for `alice` and the group `team`, for one minute. -/
def teamMint : MintRequest :=
  { ownerSub := "alice"
    groups := ["team"]
    actorSub := "root"
    correlationId := none
    expiresInSeconds := none
    defaultLifetimeSeconds := 60
    tokenId := "0123456789abcdef0123456789abcdef" }

/-- The record that the mint stores. -/
def teamRecord : IssuedTokenRecord :=
  { tokenId := teamMint.tokenId
    ownerSub := "alice"
    grantedGroups := ["team"]
    status := "active"
    issuedAt := newYear.now
    expiresAt := some ⟨1767225660000000, by decide, by decide⟩
    issuedBySub := some "root"
    jwtHash := some "c6b7f82b5d3cbb22d00930ebee72ddcacd0b3ed5549525b318f42435ebd22679"
    pendingReveal := false
    revokedAt := none }

/-- `alice` registers, and `root` makes the group `team` and mints a token of it
for her; the newest operation stands first. -/
def teamWork : List Op :=
  [.mintToken teamMint newYear,
    .createGroup "team" none "root" none newYear,
    .registerSelf (keycloakUser "alice") none newYear]

/-- A start-up that makes `root` an admin, and `teamWork` after it. -/
def teamDay : List Op :=
  teamWork ++ [.applyPlan ["root"] newYear.now fun _ => newYear.now]

/-- The Vault in which `teamDay` mints: `alice` is registered, and `team` is there. -/
def teamSetUp : VaultWorld :=
  (play ((Storage.vault .python .inOrder).exec .python) (Op.prog .python) VaultWorld.empty
    teamDay.tail).2

/-- An empty Vault is fresh. -/
lemma fresh_vaultEmpty : (Storage.vault .python .inOrder).Fresh VaultWorld.empty :=
  ⟨fun _ _ _ => rfl, rfl⟩

lemma validOps_teamWork : ValidOps True teamWork := by
  intro o ho
  simp only [teamWork, List.mem_cons, List.not_mem_nil, or_false] at ho
  rcases ho with rfl | rfl | rfl
  · exact ⟨by decide, fun _ => by decide⟩
  · exact trivial
  · exact fun _ => by decide

/-- Operations may always be made by callers that grant less. -/
lemma ValidOps.mono {plain' : Prop} {ops : List Op} (h : ValidOps plain ops)
    (hle : plain' → plain) : ValidOps plain' ops := by
  intro o ho
  have hvalid := h o ho
  cases o with
  | applyPlan subjects createdAt grantedAt => exact fun hp => hvalid (hle hp)
  | registerSelf identity correlationId clock => exact fun hp => hvalid (hle hp)
  | addMembership u g actorSub correlationId clock => exact fun hp => hvalid (hle hp)
  | mintToken request clock => exact ⟨hvalid.1, fun hp => hvalid.2 (hle hp)⟩
  | listSelfTokens identity correlationId clock => exact fun hp => hvalid (hle hp)
  | _ => trivial

lemma validOps_teamDay : ValidOps False teamDay := by
  intro o ho
  rcases List.mem_append.mp ho with ho | ho
  · exact validOps_teamWork.mono (fun h => h.elim) o ho
  · obtain rfl := List.mem_singleton.mp ho
    exact fun h => h.elim

end GofrSec
