/-
The two storage backends, side by side.

* `Storage`: the in-memory bundle with its signer, or a Vault deployment on a
  server; `State`, `Fresh`, `exec` and `act` are its states, the empty stores,
  and its calls without and with failures;
* `Storage.Represents`, `Storage.implements`: whichever backend it is, its calls
  implement the repository contract;
* `Storage.HasMembership`, `groupAt` and their siblings: what the stores answer, also after
  a call that writes (`membershipAdd_exec` and its siblings), and in terms of the registry
  that they hold;
* `VaultDeployment.python`, `VaultServer.inOrder`: a deployment on concrete data.
-/
import GofrSec.Domain.Python
import GofrSec.Repositories.InMemoryRefines
import GofrSec.Repositories.VaultRefines

namespace GofrSec

open Calls

/-- A storage backend. -/
inductive Storage where
  | memory (crypto : Crypto) (signer : StaticTokenSigner)
  | vault (deployment : VaultDeployment) (server : VaultServer)

/-- The regime of a run with or without storage failures, of plain or of any
subjects, whatever the signer answers. -/
def runRegime (faults plain : Prop) : Regime :=
  { faults := faults
    indexed := False
    plain := plain
    signs := fun _ _ => True
    keys := fun _ => True
    reliable := fun h => h.elim }

namespace Storage

/-- The states of a backend. -/
abbrev State : Storage → Type
  | .memory _ _ => MemoryStores
  | .vault _ _ => VaultWorld

/-- The empty stores: of a Vault, nothing is below the folders of the service,
and the process has audited nothing. -/
def Fresh : (st : Storage) → st.State → Prop
  | .memory _ _, s => s = MemoryStores.empty
  | .vault D _, w => (∀ a k, Text.Under (D.paths.root a) k → w.read k = none) ∧ w.events = []

/-- The audit log of the process. -/
def events : (st : Storage) → st.State → List AuditEvent
  | .memory _ _, s => s.events
  | .vault _ _, w => w.events

variable (P : Platform)

/-- The repository calls while storage does not fail. -/
def exec : (st : Storage) → Exec RepoCall RepoCall.Res PyError st.State
  | .memory C signer => MemoryStores.exec C signer
  | .vault D server => fun c => (vaultProgram P D c).run server.exec

/-- The repository calls; if `faults` holds, any storage call may raise without
taking effect, over Vault every single call of the client. -/
def act : (st : Storage) → Prop → Act RepoCall RepoCall.Res PyError st.State
  | .memory C signer, faults => MemoryStores.act C signer faults
  | .vault D server, faults => vaultAct P D server faults

/-- The records of a registry are what a state of the backend holds. -/
def Represents (R : Regime) : (st : Storage) → st.State → Registry → Prop
  | .memory _ _ => MemoryStores.Represents
  | .vault D _ => GofrSec.Represents P D R

/-- The regime knows what the backend's signer may answer. -/
def SignsIn (R : Regime) : Storage → Prop
  | .memory C signer => (∀ request, R.signs request (signer.signToken C request))
      ∧ R.keys (signer.publicKeyDocument C)
  | .vault D _ => D.SignsIn R

variable {P} {R : Regime} {st : Storage}

lemma signsIn_runRegime (st : Storage) {faults plain : Prop} :
    st.SignsIn (runRegime faults plain) := by
  cases st with
  | memory C signer => exact ⟨fun _ => trivial, trivial⟩
  | vault D server =>
      rw [SignsIn, VaultDeployment.SignsIn]
      cases D.signer with
      | static signer => exact ⟨fun _ => trivial, trivial⟩
      | vault signer => exact ⟨fun _ _ => trivial, fun _ => trivial⟩

/-- **Both backends implement the repository contract.** -/
theorem implements (hsigns : st.SignsIn R) :
    Prog.Implements (st.Represents P R) (st.act P R.faults) R.contract := by
  cases st with
  | memory C signer => exact MemoryStores.implements hsigns.1 hsigns.2
  | vault D server => exact vault_implements hsigns

/-- Empty stores hold the empty registry. -/
lemma represents_fresh {s : st.State} (h : st.Fresh s) : st.Represents P R s .empty := by
  cases st with
  | memory C signer =>
      obtain rfl : s = MemoryStores.empty := h
      exact MemoryStores.represents_empty
  | vault D server => exact Represents.empty h.1 h.2

/-- What a regime knows of a state holds under weaker promises. -/
lemma represents_mono {R' : Regime} {s : st.State} {reg : Registry}
    (h : st.Represents P R s reg) (hplain : R'.plain → R.plain)
    (hindexed : R'.indexed → R.indexed) : st.Represents P R' s reg := by
  cases st with
  | memory C signer => exact h
  | vault D server => exact Represents.mono h hplain hindexed

/-- A run without failures is a run. -/
lemma act_of_exec {faults : Prop} {c : RepoCall} {s : st.State} :
    st.act P faults c s (st.exec P c s).1 (st.exec P c s).2 := by
  cases st with
  | memory C signer => exact Or.inl rfl
  | vault D server =>
      have hrun := (Prog.runs_graph_iff (vaultProgram P D c)).mpr
        (rfl : (vaultProgram P D c).run server.exec s = _)
      exact hrun.mono fun _ _ _ _ h => Or.inl h

lemma act_of_graph {faults : Prop} (c : RepoCall) (s : st.State) (r : Except PyError c.Res)
    (s' : st.State) (h : (st.exec P).graph c s r s') : st.act P faults c s r s' := by
  obtain ⟨rfl, rfl⟩ : (st.exec P c s).1 = r ∧ (st.exec P c s).2 = s' := by
    rw [show st.exec P c s = (r, s') from h]
    exact ⟨rfl, rfl⟩
  exact act_of_exec

lemma runs_of_run (faults : Prop) {α : Type} (p : RepoProg α) (s : st.State) :
    p.Runs (st.act P faults) s (p.run (st.exec P) s).1 (p.run (st.exec P) s).2 := by
  exact ((Prog.runs_graph_iff p).mpr rfl).mono act_of_graph

lemma runs_of_run_fst {faults : Prop} {α : Type} {p : RepoProg α} {s : st.State}
    {o : Except PyError α} (h : (p.run (st.exec P) s).1 = o) :
    p.Runs (st.act P faults) s o (p.run (st.exec P) s).2 := by
  rw [← h]
  exact runs_of_run faults p s

/-- A call that returns has returned what it does while storage does not fail. -/
lemma exec_of_ok {faults : Prop} {c : RepoCall} {s s' : st.State} {v : c.Res}
    (h : st.act P faults c s (.ok v) s') : st.exec P c s = (.ok v, s') := by
  cases st with
  | memory C signer =>
      rcases h with hexec | ⟨-, ⟨e, he⟩, -⟩
      · exact hexec
      · cases he
  | vault D server =>
      have hok : ∀ i w r w', server.act faults i w (.ok r) w' →
          server.exec.graph i w (.ok r) w' := by
        rintro i w r w' (hexec | ⟨-, ⟨e, he⟩, -⟩)
        · exact hexec
        · cases he
      exact (Prog.runs_graph_iff _).mp ((strict_vaultProgram P D c).runs hok h)

/-- Where no call fails, a call does what it does. -/
lemma exec_of_act {c : RepoCall} {s s' : st.State} {r : Except PyError c.Res}
    (h : st.act P False c s r s') : st.exec P c s = (r, s') := by
  cases st with
  | memory C signer =>
      rcases h with hexec | ⟨⟨hf, -⟩, -⟩
      · exact hexec
      · exact hf.elim
  | vault D server =>
      have hact : ∀ i w r w', server.act False i w r w' → server.exec.graph i w r w' := by
        rintro i w r w' (hexec | ⟨⟨hf, -⟩, -⟩)
        · exact hexec
        · exact hf.elim
      have hrun : (vaultProgram P D c).Runs (server.act False) s r s' := h
      exact (Prog.runs_graph_iff _).mp (hrun.mono hact)

/-- A run that returns, of a program that does not once a call has raised, is a run
without failures. -/
lemma run_of_ok {faults : Prop} {α : Type} {p : RepoProg α} (hp : p.Strict) {s s' : st.State}
    {a : α} (h : p.Runs (st.act P faults) s (.ok a) s') : p.run (st.exec P) s = (.ok a, s') :=
  (Prog.runs_graph_iff p).mp (hp.runs (fun _ _ _ _ hact => exec_of_ok hact) h)

/-! ### What the stores answer -/

variable (P)

/-- `has_membership(u, g)` answers yes. -/
def HasMembership (st : Storage) (s : st.State) (u g : String) : Prop :=
  (st.exec P (.hasMembership u g) s).1 = .ok true

/-- `list_for_user(u)` of the memberships. -/
def membershipsAt (st : Storage) (s : st.State) (u : String) :
    Except PyError (List UserGroupMembership) :=
  (st.exec P (.membershipsForUser u) s).1

/-- `get(t)` of the tokens. -/
def tokenAt (st : Storage) (s : st.State) (t : String) :
    Except PyError (Option IssuedTokenRecord) :=
  (st.exec P (.tokenGet t) s).1

/-- `get(u)` of the profiles. -/
def profileAt (st : Storage) (s : st.State) (u : String) : Except PyError (Option UserProfile) :=
  (st.exec P (.profileGet u) s).1

/-- `get(g)` of the groups. -/
def groupAt (st : Storage) (s : st.State) (g : String) : Except PyError (Option GroupDefinition) :=
  (st.exec P (.groupGet g) s).1

/-- Over Vault the profile of a user is decoded from one document. -/
lemma profileAt_vault (D : VaultDeployment) (server : VaultServer) (w : VaultWorld) (u : String) :
    (Storage.vault D server).profileAt P w u
      = decodeRecord (deserializeProfile P D.now) (w.read (D.paths.userProfilePath u)) := by
  show ((getRecord _ _).run server.exec w).1 = _
  rw [run_getRecord]

/-- So is the definition of a group. -/
lemma groupAt_vault (D : VaultDeployment) (server : VaultServer) (w : VaultWorld) (g : String) :
    (Storage.vault D server).groupAt P w g
      = decodeRecord (deserializeGroup P D.now) (w.read (D.paths.groupDefinitionPath g)) := by
  show ((getRecord _ _).run server.exec w).1 = _
  rw [run_getRecord]

/-- So is a token. -/
lemma tokenAt_vault (D : VaultDeployment) (server : VaultServer) (w : VaultWorld) (t : String) :
    (Storage.vault D server).tokenAt P w t
      = decodeRecord (deserializeToken P D.now) (w.read (D.paths.tokenPath t)) := by
  show ((getRecord _ _).run server.exec w).1 = _
  rw [run_getRecord]

/-- So are the memberships of a user. -/
lemma membershipsAt_vault (D : VaultDeployment) (server : VaultServer) (w : VaultWorld)
    (u : String) : (Storage.vault D server).membershipsAt P w u
      = membershipsOf P D.now (w.read (D.paths.userGroupsPath u)) := by
  show ((VaultGroupMembershipRepository.loadMemberships P D u).run server.exec w).1 = _
  rw [run_loadMemberships]

variable {P} {s : st.State} {reg : Registry}

/-- A definition that has been stored is found. -/
lemma groupUpsert_exec (s : st.State) (group : GroupDefinition) :
    (st.exec P (.groupUpsert group) s).1 = .ok group
      ∧ st.groupAt P (st.exec P (.groupUpsert group) s).2 group.name = .ok (some group) := by
  cases st with
  | memory C signer => exact ⟨rfl, congrArg Except.ok (Dict.get_set_self _ _ _)⟩
  | vault D server =>
      refine ⟨rfl, ?_⟩
      have hread : ((Storage.vault D server).exec P (.groupUpsert group) s).2.read
          (D.paths.groupDefinitionPath group.name) = some (serializeGroup P group) :=
        VaultWorld.read_write_self _ _ _
      rw [groupAt_vault, hread, decodeRecord, deserializeGroup_serializeGroup]
      rfl

/-- A membership that has been added is among those of its user. -/
lemma membershipAdd_exec {m v : UserGroupMembership}
    (hok : (st.exec P (.membershipAdd m) s).1 = .ok v) :
    v = m ∧ ∃ ms, st.membershipsAt P (st.exec P (.membershipAdd m) s).2 m.keycloakSub = .ok ms
      ∧ m ∈ ms := by
  cases st with
  | memory C signer =>
      refine ⟨(Except.ok.inj hok).symm, _, rfl, ?_⟩
      refine List.mem_filter.mpr ⟨(Dict.mem_values_iff _ _).mpr ⟨_, Dict.get_set_self _ _ _⟩, ?_⟩
      exact decide_eq_true rfl
  | vault D server =>
      have hwp : (VaultGroupMembershipRepository.add P D m).wp (server.act False).contract
          (fun r w => r = .ok v → v = m ∧ ∃ ms,
            membershipsOf P D.now (w.read (D.paths.userGroupsPath m.keycloakSub)) = .ok ms
              ∧ m ∈ ms) s := by
        refine (Prog.wp_bind _ _ _ _).mpr ((wp_loadMemberships _ _).mpr ⟨?_, fun hf => hf.elim⟩)
        cases membershipsOf P D.now (s.read (D.paths.userGroupsPath m.keycloakSub)) with
        | error e => rintro ⟨⟩
        | ok loaded =>
            rw [Prog.onReturn_ok, Prog.wp_bind, wp_storeMemberships]
            refine ⟨fun hv => ⟨(Except.ok.inj hv).symm, ?_⟩, fun hf => hf.elim⟩
            rw [read_putMemberships, if_pos rfl, membershipsOf_stored]
            refine ⟨_, rfl, (sortByGroupName_perm _).mem_iff.mpr ?_⟩
            exact List.mem_append_right _ List.mem_cons_self
      have hact : (Storage.vault D server).act P False (.membershipAdd m) s _ _ := act_of_exec
      obtain ⟨hv, ms, hms, hmem⟩ := (Prog.wp_contract_iff _ _ _).mp hwp _ _ hact hok
      exact ⟨hv, ms, (membershipsAt_vault P D server _ _).trans hms, hmem⟩

/-- A removal that answers yes has taken a membership away. -/
lemma membershipRemove_exec {u g : String}
    (hok : (st.exec P (.membershipRemove u g) s).1 = .ok true) :
    st.HasMembership P s u g
      ∧ (st.exec P (.hasMembership u g) (st.exec P (.membershipRemove u g) s).2).1
        = .ok false := by
  cases st with
  | memory C signer =>
      refine ⟨hok, ?_⟩
      show Except.ok ((s.memberships.erase (u, g)).get (u, g)).isSome = _
      rw [Dict.get_erase_self]
      rfl
  | vault D server =>
      have hwp : (VaultGroupMembershipRepository.remove P D u g).wp (server.act False).contract
          (fun r w => r = .ok true → (∃ ms,
            membershipsOf P D.now (s.read (D.paths.userGroupsPath u)) = .ok ms
              ∧ ms.any (fun m => m.groupName = g) = true) ∧ ∃ ms,
            membershipsOf P D.now (w.read (D.paths.userGroupsPath u)) = .ok ms
              ∧ ms.any (fun m => m.groupName = g) = false) s := by
        refine (Prog.wp_bind _ _ _ _).mpr ((wp_loadMemberships _ _).mpr ⟨?_, fun hf => hf.elim⟩)
        cases membershipsOf P D.now (s.read (D.paths.userGroupsPath u)) with
        | error e => rintro ⟨⟩
        | ok loaded =>
            rw [Prog.onReturn_ok]
            dsimp only
            split_ifs with hlength
            · rintro ⟨⟩
            · rw [Prog.wp_bind, wp_storeMemberships]
              refine ⟨fun _ => ⟨⟨loaded, rfl, ?_⟩, ?_⟩, fun hf => hf.elim⟩
              · rw [List.any_eq_true]
                by_contra hnone
                refine hlength (congrArg List.length (List.filter_eq_self.mpr fun m hm => ?_))
                exact decide_eq_true fun hg => hnone ⟨m, hm, decide_eq_true hg⟩
              · rw [read_putMemberships, if_pos rfl, membershipsOf_stored]
                refine ⟨_, rfl, List.any_eq_false.mpr fun m hm hg => ?_⟩
                have hkept := (List.mem_filter.mp ((sortByGroupName_perm _).mem_iff.mp hm)).2
                exact of_decide_eq_true hkept (of_decide_eq_true hg)
      have hact : (Storage.vault D server).act P False (.membershipRemove u g) s _ _ := act_of_exec
      obtain ⟨⟨ms, hms, hmember⟩, ms', hms', hgone⟩ :=
        (Prog.wp_contract_iff _ _ _).mp hwp _ _ hact hok
      refine ⟨?_, ?_⟩
      · show ((VaultGroupMembershipRepository.hasMembership P D u g).run server.exec s).1 = _
        rw [run_hasMembership, hms, ← hmember]
        rfl
      · show ((VaultGroupMembershipRepository.hasMembership P D u g).run server.exec _).1 = _
        rw [run_hasMembership, hms', ← hgone]
        rfl

/-- A call of a store answers by the contract. -/
lemma answers_of_represents {faults plain : Prop}
    (hrep : st.Represents P (runRegime faults plain) s reg) {c : RepoCall}
    (howes : c.Owes (runRegime False plain))
    (hstore : ∀ e, ¬ c.SignerRaises (runRegime False plain) e) :
    ∃ v, (st.exec P c s).1 = .ok v ∧ c.Answers (runRegime False plain) reg v := by
  have hrep' : st.Represents P (runRegime False plain) s reg := represents_mono hrep id id
  have hact : st.act P False c s (st.exec P c s).1 (st.exec P c s).2 := act_of_exec
  obtain ⟨reg', -, hpost⟩ := implements (signsIn_runRegime st) c s reg hrep' howes _ _ hact
  cases hout : (st.exec P c s).1 with
  | ok v =>
      rw [hout] at hpost
      exact ⟨v, rfl, hpost.1⟩
  | error e =>
      rw [hout] at hpost
      rcases hpost with ⟨-, hsigner⟩ | ⟨hf, -⟩
      · exact absurd hsigner (hstore e)
      · exact hf.elim

lemma hasMembership_iff {faults plain : Prop}
    (hrep : st.Represents P (runRegime faults plain) s reg) {u g : String} :
    st.HasMembership P s u g ↔ reg.Member u g := by
  obtain ⟨v, hout, hv⟩ := answers_of_represents hrep (c := .hasMembership u g) trivial
    fun _ h => h
  have hv : v = (reg.memberships.find (u, g)).isSome := hv
  rw [HasMembership, hout, Registry.Member, Except.ok.injEq, hv, Option.isSome_iff_exists]

lemma groupAt_eq {faults plain : Prop} (hrep : st.Represents P (runRegime faults plain) s reg)
    (g : String) : st.groupAt P s g = .ok (reg.groups.find g) := by
  obtain ⟨v, hout, hv⟩ := answers_of_represents hrep (c := .groupGet g) trivial
    fun _ h => h
  rw [groupAt, hout, show v = reg.groups.find g from hv]

lemma tokenAt_eq {faults plain : Prop} (hrep : st.Represents P (runRegime faults plain) s reg)
    (t : String) : st.tokenAt P s t = .ok (reg.tokens.find t) := by
  obtain ⟨v, hout, hv⟩ := answers_of_represents hrep (c := .tokenGet t) trivial
    fun _ h => h
  rw [tokenAt, hout, show v = reg.tokens.find t from hv]

lemma profileAt_eq {faults plain : Prop} (hrep : st.Represents P (runRegime faults plain) s reg)
    (u : String) : st.profileAt P s u = .ok (reg.profiles.find u) := by
  obtain ⟨v, hout, hv⟩ := answers_of_represents hrep (c := .profileGet u) trivial
    fun _ h => h
  rw [profileAt, hout, show v = reg.profiles.find u from hv]

lemma membershipsAt_lists {faults plain : Prop}
    (hrep : st.Represents P (runRegime faults plain) s reg) (u : String) :
    ∃ ms, st.membershipsAt P s u = .ok ms ∧ reg.memberships.Lists (·.keycloakSub = u) ms :=
  answers_of_represents hrep (c := .membershipsForUser u) trivial fun _ h => h

end Storage

/-- A server that lists names in the order in which they were first stored. -/
def VaultServer.inOrder : VaultServer := ⟨id, fun _ => .refl _⟩

/-- A deployment with the default layout and a key in memory. -/
def VaultDeployment.python : VaultDeployment :=
  { paths := { pathPrefix := "gofr/sec" }
    signer := .static .python
    crypto := .python
    now := ⟨0, by decide, by decide⟩
    iterate := id
    iterate_perm := fun _ => .refl _ }

/-- A Vault without documents. -/
def VaultWorld.empty : VaultWorld := ⟨.empty, []⟩

end GofrSec
