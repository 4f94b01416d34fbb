/-
Server processes that do not get in each other's way.

* `session_of_carryOut`: activities of processes that run one after another are a session
  over the Vault backend;
* `runs_serialisable`: server processes none of whose client calls conflicts with an activity
  that another process is at leave what their activities leave one after another, in the
  order in which they end, with the same outcomes;
* `concurrent_refines_accessControl`: so they reply as an access control does, and Vault
  shows the state that it reaches.
-/
import GofrSec.Properties.AccessRefinement
import GofrSec.Properties.SharedAccess
import GofrSec.Repositories.VaultFootprints

namespace GofrSec

open Calls

variable {π : Type} [DecidableEq π]

/-! ### One after another -/

omit [DecidableEq π] in
/-- Activities of processes that run one after another are a session over the Vault
backend. -/
lemma session_of_carryOut {V : SharedVault} {h : History Activity PyError Outcome}
    {s t : VaultWorld} (hsession : Session V.act V.carryOut s h t) :
    Session ((Storage.vault V.deployment V.server).act V.platform V.faults)
      (Activity.prog V.platform) s h t := by
  induction hsession with
  | start => exact .start
  | step _ hrun ih => exact .step ih ((V.carryOut_runs_iff _).mp hrun)

/-- An empty Vault that lists names in their order. -/
def SharedVault.sorting : SharedVault := { SharedVault.python with server := .sorted }

/-- One process starts up and creates a group; at the other one, `alice` registers and looks
at her profile. -/
def strangers : Bool → List Activity
  | true => [.startUp ["root"] newYear.now fun _ => newYear.now,
      .serve ⟨true, 60⟩ (.createGroup (keycloakUser "root") "blue" none none newYear)]
  | false => [.serve ⟨true, 60⟩ (.registerMe (keycloakUser "alice") none newYear),
      .serve ⟨true, 60⟩ (.getMe (keycloakUser "alice"))]

/-- They take turns, call by call. -/
def strangersRun : System Bool Activity VaultCall VaultCall.Res PyError Outcome VaultWorld :=
  SharedVault.sorting.serveSchedule strangers (List.replicate 14 [true, false]).flatten

lemma serves_strangersRun : SharedVault.sorting.Serves strangers strangersRun :=
  SharedVault.sorting.serves_serveSchedule _ _

lemma unhindered_strangersRun : Meets (Unhindered vaultFootprint) strangersRun.ledger := by
  decide +kernel

/-- What the Vault backend shows depends on the documents alone. -/
lemma Storage.Shows.of_same {P : Platform} {D : VaultDeployment} {server : VaultServer}
    (hsorts : server.Sorts) {w w' : VaultWorld} {a : Access}
    (h : (Storage.vault D server).Shows P w a) (hsame : ∀ k, w'.read k = w.read k) :
    (Storage.vault D server).Shows P w' a := by
  have hanswer : ∀ c, ((Storage.vault D server).exec P c w').1
      = ((Storage.vault D server).exec P c w).1 := fun c => run_of_same hsorts _ hsame
  refine ⟨fun u => ?_, fun g => ?_, fun u g => ?_, fun t => ?_⟩
  · rw [← h.users u, IsRegistered, IsRegistered, hanswer]
  · rw [← h.groups g, groupAt, groupAt, hanswer]
  · rw [← h.members u g, HasMembership, HasMembership, hanswer]
  · rw [← h.grants t, tokenAt, tokenAt, hanswer]

/-- **Concurrent server processes refine an access control.** Let server processes start up
and serve any requests over a Vault without documents of the service, their client calls
interleaved in any way that is free of conflicts, while storage does not fail. Then the
activities that have ended could have run one after another, in the order of their ends, and
in that order they reply as an access control does to the commands that they stand for, each
in the state that it finds, to which belongs what the signer answers there; and between
activities Vault shows the state that the access control has reached. -/
theorem concurrent_refines_accessControl (V : SharedVault) (hsorts : V.server.Sorts)
    (hfaults : ¬ V.faults) (hfresh : (Storage.vault V.deployment V.server).Fresh V.start)
    {todo : π → List Activity} (hvalid : ∀ p, ∀ a ∈ todo p, a.Valid)
    {S : System π Activity VaultCall VaultCall.Res PyError Outcome VaultWorld}
    (hserves : V.Serves todo S) (hfree : Meets (Unhindered vaultFootprint) S.ledger) :
    ∃ (ms : List (Moment Activity PyError Outcome VaultWorld)) (t : VaultWorld) (a : Access),
      Trace ((Storage.vault V.deployment V.server).act V.platform False)
          (Activity.prog V.platform) V.start ms t
        ∧ (ms.map fun m => (m.op, m.outcome)) = ends S.ledger
        ∧ replay (fun a c => a.step "admin" c) (.empty : Access) (ms.map fun m =>
            m.op.commandAt V.platform (.vault V.deployment V.server) m.before)
          = (ms.map fun m => Outcome.observe m.outcome, a)
        ∧ ((∀ p, (S.worker p).current = none) →
          (Storage.vault V.deployment V.server).Shows V.platform (V.documents S.ledger) a) := by
  obtain ⟨t, hserial⟩ := Reachable.serial (local_vault hsorts V.faults) hserves hfree
  have hsession := session_of_carryOut hserial.session
  rw [eq_false hfaults] at hsession
  obtain ⟨ms, htrace, hends⟩ := hsession.trace
  have hended : ∀ m ∈ ms, m.op.Valid := by
    intro m hm
    have hend : (m.op, m.outcome) ∈ ends S.ledger := hends ▸ List.mem_map_of_mem hm
    obtain ⟨p, hp⟩ := hserves.fromTodo.ended _ hend
    exact hvalid p _ hp
  obtain ⟨reg, hrep, hreplay⟩ := represents_access V.platform (.vault V.deployment V.server)
    hfresh htrace hended
  refine ⟨ms, t, reg.access, htrace, hends, hreplay, fun hidle => ?_⟩
  exact (Storage.shows_of_represents hrep).of_same hsorts (hserial.look_of_idle hidle)

lemma valid_strangers : ∀ p, ∀ a ∈ strangers p, a.Valid := by
  intro p a ha o ho
  cases p with
  | true =>
      simp only [strangers, List.mem_cons, List.not_mem_nil, or_false] at ha
      rcases ha with rfl | rfl
      · obtain rfl := Option.some.inj ho
        exact fun _ => by decide
      · obtain rfl := Option.some.inj ho
        trivial
  | false =>
      simp only [strangers, List.mem_cons, List.not_mem_nil, or_false] at ha
      rcases ha with rfl | rfl
      · obtain rfl := Option.some.inj ho
        exact fun _ => by decide
      · obtain rfl := Option.some.inj ho
        trivial

/-- At the end of their run the access control has the user, the group and the admin. -/
theorem concurrent_refines_accessControl_strangers :
    ∃ a : Access, (Storage.vault .python .sorted).Shows .python
        (SharedVault.sorting.documents strangersRun.ledger) a
      ∧ "alice" ∈ a.users ∧ "blue" ∈ a.groups ∧ ("root", "admin") ∈ a.members := by
  obtain ⟨ms, t, a, -, -, -, hshows⟩ := concurrent_refines_accessControl SharedVault.sorting
    VaultServer.sorts_sorted id ⟨fun _ _ _ => rfl, rfl⟩ valid_strangers serves_strangersRun
    unhindered_strangersRun
  have hidle : ∀ p, (strangersRun.worker p).current = none := by
    intro p
    cases p <;> decide +kernel
  have ha := hshows hidle
  refine ⟨a, ha, (ha.users "alice").mp ?_, (ha.groups "blue").mp ?_,
    (ha.members "root" "admin").mp ?_⟩
  · show ((Storage.vault .python .sorted).exec .python (.isRegistered "alice")
      (SharedVault.sorting.documents strangersRun.ledger)).1 = .ok true
    decide +kernel
  · let blue : GroupDefinition :=
      { name := "blue"
        description := none
        isSystem := false
        isActive := true
        createdAt := newYear.now }
    have hblue : (Storage.vault .python .sorted).groupAt .python
        (SharedVault.sorting.documents strangersRun.ledger) "blue" = .ok (some blue) := by
      decide +kernel
    exact ⟨blue, hblue⟩
  · show ((Storage.vault .python .sorted).exec .python (.hasMembership "root" "admin")
      (SharedVault.sorting.documents strangersRun.ledger)).1 = .ok true
    decide +kernel

end GofrSec
