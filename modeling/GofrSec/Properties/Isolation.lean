/-
Deployments that share a Vault without noticing each other.

* `VaultDeployment.Apart`: no path of the one is in a folder of the other; `apart_of_folders`
  reads it off the prefixes;
* `carryOutAt`: an activity of a process of one of several deployments;
* `deployments_isolated`: whatever the processes of a deployment do amid those of others,
  they can do alone, in a Vault without the documents of the others; so the others change
  neither an answer nor a document of theirs.
-/
import GofrSec.Repositories.VaultViews
import GofrSec.Services.Runs
import GofrSec.Services.Servers

namespace GofrSec

open Calls Text

/-! ### Paths -/

/-- Of two folders with a path in common, one is in the other or they are the same. -/
lemma folders_nested {p q k : String} (hp : Under p k) (hq : Under q k) :
    (p ++ "/").toList <+: (q ++ "/").toList ∨ (q ++ "/").toList <+: (p ++ "/").toList :=
  List.prefix_or_prefix_of_prefix (under_iff_toList.mp hp) (under_iff_toList.mp hq)

/-- No path that concerns `D` is in a folder of `D'`. -/
def VaultDeployment.Apart (D D' : VaultDeployment) : Prop := ∀ k, D.Concerns k → ¬ D'.Owns k

/-- Deployments are apart when none of their folders is in one of the other, and the signing
key of the first is not either. -/
lemma apart_of_folders {D D' : VaultDeployment}
    (h : ∀ a b, ¬ (D.paths.root a ++ "/").toList <+: (D'.paths.root b ++ "/").toList
      ∧ ¬ (D'.paths.root b ++ "/").toList <+: (D.paths.root a ++ "/").toList)
    (hkey : ∀ k, D.signer.keyPath = some k → ¬ D'.Owns k) : D.Apart D' := by
  rintro k (⟨a, ha⟩ | hk) howns
  · obtain ⟨b, hb⟩ := howns
    rcases folders_nested ha hb with hle | hle
    · exact (h a b).1 hle
    · exact (h a b).2 hle
  · exact hkey k hk howns

/-! ### Several deployments over one Vault -/

variable {δ π : Type}

/-- An activity of a process of one of the deployments, as client calls. -/
def carryOutAt (P : Platform) (D : δ → VaultDeployment) (x : δ × Activity) : VaultProg Outcome :=
  (x.2.prog P).translate (vaultProgram P (D x.1))

/-- What the processes `p` are to do, each of the deployment `site p`. -/
def workAt (site : π → δ) (todo : π → List Activity) (p : π) : List (δ × Activity) :=
  (todo p).map fun a => (site p, a)

/-- **Deployments do not notice each other.** Let processes of several deployments that are
apart share a Vault, their client calls interleaved in any way. What the processes of one
deployment do, call by call, they can do alone, from any Vault that has the same entries at
their own paths; and at the end it has the same entries there again. -/
theorem deployments_isolated [DecidableEq δ] [DecidableEq π] (P : Platform)
    (server : VaultServer) (faults : Prop) (D : δ → VaultDeployment)
    (hapart : ∀ d d', d ≠ d' → (D d).Apart (D d')) (site : π → δ) (todo : π → List Activity)
    {w₀ v₀ : VaultWorld}
    {S : System π (δ × Activity) VaultCall VaultCall.Res PyError Outcome VaultWorld}
    (hreach : Reachable (server.act faults) (carryOutAt P D) w₀ (workAt site todo) S) (d : δ)
    (hsame : w₀.SameAt (D d).Concerns v₀) :
    ∃ T : System π (δ × Activity) VaultCall VaultCall.Res PyError Outcome VaultWorld,
      Reachable (server.act faults) (carryOutAt P D) v₀
          (fun p => if site p = d then workAt site todo p else []) T
        ∧ List.Forall₂ (Event.Alike (VaultWorld.SameAt (D d).Concerns))
          (stepsOf (fun p => site p = d) S.ledger) T.ledger
        ∧ (∀ p, site p = d → T.worker p = S.worker p)
        ∧ (world w₀ S.ledger).SameAt (D d).Concerns (world v₀ T.ledger) := by
  have hown : ∀ p, site p = d → ∀ o ∈ workAt site todo p,
      (carryOutAt P D o).Uses (VaultCall.StaysIn (D d).Concerns) := by
    intro p hp o ho
    obtain ⟨a, -, rfl⟩ := List.mem_map.mp ho
    refine Prog.uses_translate (fun c => ?_) _
    rw [hp]
    exact uses_vaultProgram_staysIn P (D d) c
  have hother : ∀ p, ¬ site p = d → ∀ o ∈ workAt site todo p,
      (carryOutAt P D o).Uses (VaultCall.Within fun k => ¬ (D d).Concerns k) := by
    intro p hp o ho
    obtain ⟨a, -, rfl⟩ := List.mem_map.mp ho
    refine Prog.uses_translate (fun c => (uses_vaultProgram_folders P (D (site p)) c).mono ?_) _
    exact fun i hi k hk hconcerns => hapart d (site p) (Ne.symm hp) k hconcerns (hi k hk)
  obtain ⟨T, hT, hmirrors⟩ := Reachable.unwind (unwinds_act (D d).Concerns server faults) hown
    hother hsame hreach
  exact ⟨T, hT, hmirrors.ledger, hmirrors.worker, hmirrors.now⟩

/-- A deployment with the prefix `pathPrefix`, and its signing key below it. -/
def tenant (pathPrefix : String) : VaultDeployment :=
  let paths : VaultPathLayout := { pathPrefix := pathPrefix }
  { VaultDeployment.python with
    paths := paths
    signer := .vault
      { vaultPath := paths.signingKeyPath, algorithm := "RS256", issuer := "gofr-sec" } }

/-- Two deployments, the prefix of the second below that of the first. -/
def tenants : Bool → VaultDeployment
  | true => tenant "gofr/sec"
  | false => tenant "gofr/sec/test"

lemma apart_tenants (d d' : Bool) (h : d ≠ d') : (tenants d).Apart (tenants d') := by
  cases d with
  | true =>
      obtain rfl : d' = false := by simpa using h.symm
      refine apart_of_folders (fun a b => ?_) ?_
      · cases a <;> cases b <;> decide
      · rintro k ⟨⟩ ⟨a, ha⟩
        revert ha
        cases a <;> decide
  | false =>
      obtain rfl : d' = true := by simpa using h.symm
      refine apart_of_folders (fun a b => ?_) ?_
      · cases a <;> cases b <;> decide
      · rintro k ⟨⟩ ⟨a, ha⟩
        revert ha
        cases a <;> decide

/-- A process of each: both start up, the first for `root`, the second for `eve`. -/
def tenantStarts : Bool → List Activity
  | true => [.startUp ["root"] newYear.now fun _ => newYear.now]
  | false => [.startUp ["eve"] newYear.now fun _ => newYear.now]

/-- They take turns, call by call. -/
def tenantsRun :
    System Bool (Bool × Activity) VaultCall VaultCall.Res PyError Outcome VaultWorld :=
  runSchedule VaultServer.inOrder.exec (carryOutAt .python tenants) VaultWorld.empty
    (workAt id tenantStarts) (List.replicate 8 [true, false]).flatten

/-- The first process files the groups of `root` as well when it is alone. -/
theorem deployments_isolated_tenants :
    ∃ T : System Bool (Bool × Activity) VaultCall VaultCall.Res PyError Outcome VaultWorld,
      Reachable (VaultServer.inOrder.act False) (carryOutAt .python tenants) VaultWorld.empty
          (fun p => if p = true then workAt id tenantStarts p else []) T
        ∧ (world VaultWorld.empty T.ledger).read "gofr/sec/users/root/groups"
          = (world VaultWorld.empty tenantsRun.ledger).read "gofr/sec/users/root/groups"
        ∧ ((world VaultWorld.empty tenantsRun.ledger).read
          "gofr/sec/users/root/groups").isSome := by
  have hreach : Reachable (VaultServer.inOrder.act False) (carryOutAt .python tenants)
      VaultWorld.empty (workAt id tenantStarts) tenantsRun :=
    (reachable_runSchedule _ _ _ _ _).mono fun _ _ _ _ h => Or.inl h
  obtain ⟨T, hT, -, -, hsame⟩ := deployments_isolated .python .inOrder False tenants apart_tenants
    id tenantStarts hreach true (.refl _)
  have hconcerns : (tenants true).Concerns "gofr/sec/users/root/groups" :=
    Or.inl ⟨.users, "root/groups", rfl⟩
  exact ⟨T, hT, (hsame.read hconcerns).symm, by decide +kernel⟩

end GofrSec
