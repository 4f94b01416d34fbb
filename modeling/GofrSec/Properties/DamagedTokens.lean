/-
What a token document must hold for an authorization to be allowed.

* `deserializeToken_fields`: the four fields that the decision looks at, read back
  from a record that `_deserialize_token` made;
* `authorize_vault`: over Vault the decision is that of the document that is read;
* `allowed_of_document`: an allowed request has a document with an active status or
  none, the owner, the target among its groups, and an expiry that is later or that is
  no text.
-/
import GofrSec.Services.VaultTokenRuns

namespace GofrSec

open Calls

variable {P : Platform} {now : DateTime} {data : Doc} {record : IssuedTokenRecord}

/-- A time that is read from a field is the time its text stands for; there is none if
the field is no text, or empty. -/
lemma parseDatetime_stringOrNone {value : Json} {time : Option DateTime}
    (h : parseDatetime P value.stringOrNone = .ok time) {text : String} (hvalue : value = .str text)
    (hne : text ≠ "") : ∃ t, P.fromisoformat text = some t ∧ time = some t := by
  have htruthy : (Json.str text).truthy = true := bne_iff_ne.mpr hne
  rw [hvalue, Json.stringOrNone, parseDatetime, if_pos htruthy] at h
  cases htime : P.fromisoformat text with
  | none =>
      simp only [htime] at h
      cases h
  | some t =>
      simp only [htime] at h
      exact ⟨t, rfl, (Except.ok.inj h).symm⟩

/-- The fields of a decoded record that an authorization looks at. -/
lemma deserializeToken_fields (h : deserializeToken P now data = .ok record) :
    (∃ owner, data.field "owner_sub" = some owner ∧ record.ownerSub = owner.pyStr P.repr)
      ∧ record.grantedGroups = grantedGroupsOf P data
      ∧ record.status = ((data.field "status").getD (.str "active")).pyStr P.repr
      ∧ parseDatetime P (data.getOrNone "expires_at").stringOrNone = .ok record.expiresAt := by
  rw [deserializeToken] at h
  obtain ⟨issuedAt, -, h⟩ := except_bind_eq_ok h
  obtain ⟨expiresAt, hexpires, h⟩ := except_bind_eq_ok h
  obtain ⟨revokedAt, -, h⟩ := except_bind_eq_ok h
  obtain ⟨tokenId, -, h⟩ := except_bind_eq_ok h
  obtain ⟨ownerSub, howner, h⟩ := except_bind_eq_ok h
  obtain ⟨owner, hfield, htext⟩ := except_bind_eq_ok howner
  obtain rfl := Except.ok.inj h
  refine ⟨⟨owner, ?_, (Except.ok.inj htext).symm⟩, rfl, rfl, hexpires⟩
  rw [Doc.require] at hfield
  split at hfield
  · next value hvalue => rw [hvalue, Except.ok.inj hfield]
  · cases hfield

/-- The groups of a document that grants one. -/
lemma mem_grantedGroupsOf {target : String} (h : target ∈ grantedGroupsOf P data) :
    ∃ groups, data.field "granted_groups" = some (.arr groups)
      ∧ ∃ group ∈ groups, group.pyStr P.repr = target := by
  rw [grantedGroupsOf] at h
  split at h
  · next groups hgroups =>
      obtain ⟨group, hgroup, htarget⟩ := List.mem_map.mp h
      cases hfield : data.field "granted_groups" with
      | none =>
          rw [hfield, Option.getD_none] at hgroups
          obtain rfl := Json.arr.inj hgroups
          cases hgroup
      | some value =>
          rw [hfield, Option.getD_some] at hgroups
          exact ⟨groups, congrArg some hgroups, group, hgroup, htarget⟩
  · cases h

variable {D : VaultDeployment} {server : VaultServer} {faults : Prop} {w w' : VaultWorld}

/-- **Over Vault the decision is on the document that is read**, which decodes unless the
request raises. -/
theorem authorize_vault {request : AuthorizationRequest} {correlationId : Option String}
    {clock : Clock} {decision : AuthorizationDecision}
    (hrun : (authorize request correlationId clock).Runs
      ((Storage.vault D server).act P faults) w (.ok decision) w') :
    ∃ found, decodeRecord (deserializeToken P D.now)
        (w.read (D.paths.tokenPath request.tokenId)) = .ok found
      ∧ decision.allowed = found.any fun record => permits request clock.now record := by
  -- the decision that the outcome carries, whatever is audited after it
  let Decides (r : Except PyError Bool) : Prop := ∀ allowed, r = .ok allowed →
    ∃ found, decodeRecord (deserializeToken P D.now)
        (w.read (D.paths.tokenPath request.tokenId)) = .ok found
      ∧ allowed = found.any fun record => permits request clock.now record
  have hget : (VaultTokenRepository.get P D request.tokenId).wp (server.act faults).contract
      (fun r _ => ∀ found, r = .ok found → decodeRecord (deserializeToken P D.now)
        (w.read (D.paths.tokenPath request.tokenId)) = .ok found) w :=
    (wp_getRecord _ _ _).mpr ⟨fun _ h => h, by rintro _ _ _ ⟨⟩⟩
  have haudited : (authorize request correlationId clock).wp
      ((Storage.vault D server).act P faults).contract
      (fun r _ => Decides (r.map AuthorizationDecision.allowed)) w := by
    refine (Prog.wp_bind _ _ _ _).mpr (wp_vault_audited ((Prog.wp_bind _ _ _ _).mpr
      (wp_vault (c := .tokenGet request.tokenId) (Prog.wp_mono ?_ hget))))
    rintro (e | found) w₁ hfound
    · rintro event _ ⟨⟩
    · have hdecoded := hfound found rfl
      cases found with
      | none => exact fun event allowed h => ⟨none, hdecoded, (Except.ok.inj h).symm⟩
      | some record =>
          exact fun event allowed h => ⟨some record, hdecoded, (Except.ok.inj h).symm⟩
  exact (Prog.wp_contract_iff _ _ _).mp haudited _ _ hrun _ rfl

/-- **What an allowed request finds in the token document.** Over Vault, whatever JSON
object is stored under the id of the token and whichever calls raise: if `authorize`
allows a request, then the `status` of the object is absent or the string `active`, its
`owner_sub` is there and printed as the owner of the request, its `granted_groups` is a
list with an item that is printed as the target, and its `expires_at`, if it is a text
that is not empty, is an ISO timestamp later than the time of the request. -/
theorem allowed_of_document {request : AuthorizationRequest} {correlationId : Option String}
    {clock : Clock} (hdoc : w.read (D.paths.tokenPath request.tokenId) = some data)
    (hrun : (authorize request correlationId clock).Runs
      ((Storage.vault D server).act P faults) w (.ok { allowed := true }) w') :
    (data.field "status" = none ∨ data.field "status" = some (.str "active"))
      ∧ (∃ owner, data.field "owner_sub" = some owner
        ∧ request.ownerSub = some (owner.pyStr P.repr))
      ∧ (∃ target groups, requiredPermission request = some target ∧ target ≠ ""
        ∧ data.field "granted_groups" = some (.arr groups)
        ∧ ∃ group ∈ groups, group.pyStr P.repr = target)
      ∧ ∀ text, data.field "expires_at" = some (.str text) → text ≠ "" →
        ∃ t, P.fromisoformat text = some t ∧ clock.now < t := by
  obtain ⟨found, hfound, hallowed⟩ := authorize_vault hrun
  rw [hdoc] at hfound
  obtain ⟨record, hrecord, hfound⟩ := except_bind_eq_ok hfound
  obtain rfl := Except.ok.inj hfound
  obtain ⟨target, htarget, hne, howner, hactive, hexpiry, hgroup⟩ :=
    permits_iff.mp hallowed.symm
  obtain ⟨⟨owner, hfield, hsub⟩, hgroups, hstatus, hexpires⟩ := deserializeToken_fields hrecord
  refine ⟨?_, ⟨owner, hfield, by rw [howner, hsub]⟩, ?_, fun text htext hnonempty => ?_⟩
  · rw [hstatus, Json.pyStr_eq_active_iff] at hactive
    cases hfield : data.field "status" with
    | none => exact Or.inl rfl
    | some value =>
        rw [hfield, Option.getD_some] at hactive
        exact Or.inr (congrArg some hactive)
  · rw [hgroups] at hgroup
    obtain ⟨groups, hlist, hmem⟩ := mem_grantedGroupsOf hgroup
    exact ⟨target, groups, htarget, hne, hlist, hmem⟩
  · have hvalue : data.getOrNone "expires_at" = .str text := by
      rw [Doc.getOrNone, htext, Option.getD_some]
    obtain ⟨t, ht, hsome⟩ := parseDatetime_stringOrNone hexpires hvalue hnonempty
    exact ⟨t, ht, hexpiry t hsome⟩

/-! ### A damaged document -/

/-- A token document without a status, with numbers for the owner and the group, and an
empty expiry. -/
def damagedToken : Doc :=
  [("token_id", .str "t"), ("owner_sub", .int 7), ("granted_groups", .arr [.int 12]),
    ("expires_at", .str "")]

/-- A Vault that holds it. -/
def damagedVault : VaultWorld :=
  VaultWorld.empty.write (VaultDeployment.python.paths.tokenPath "t") damagedToken

/-- A request that the document matches once its fields are printed. -/
def damagedRequest : AuthorizationRequest :=
  { tokenId := "t"
    ownerSub := some "7"
    requestedGroup := some "12"
    requestedResource := none }

/-- The damaged document allows the request: its status is missing, its owner and its
group are no strings, and its expiry is empty, which counts as never. -/
theorem damaged_allowed :
    ((authorize damagedRequest none newYear).run ((Storage.vault .python .inOrder).exec .python)
        damagedVault).1 = .ok { allowed := true }
      ∧ damagedToken.field "status" = none
      ∧ damagedToken.field "owner_sub" = some (.int 7)
      ∧ damagedToken.field "granted_groups" = some (.arr [.int 12])
      ∧ damagedToken.field "expires_at" = some (.str "") :=
  ⟨by decide +kernel, rfl, rfl, rfl, rfl⟩

/-- The damaged document grants the group that it prints. -/
theorem allowed_of_document_damaged :
    ∃ target groups, requiredPermission damagedRequest = some target ∧ target ≠ ""
      ∧ damagedToken.field "granted_groups" = some (.arr groups)
      ∧ ∃ group ∈ groups, group.pyStr Platform.python.repr = target := by
  have hout : ((authorize damagedRequest none newYear).run
      ((Storage.vault .python .inOrder).exec .python) damagedVault).1
        = .ok { allowed := true } := by decide +kernel
  have hdoc : damagedVault.read (VaultDeployment.python.paths.tokenPath damagedRequest.tokenId)
      = some damagedToken := VaultWorld.read_write_self _ _ _
  have hrun : (authorize damagedRequest none newYear).Runs
      ((Storage.vault .python .inOrder).act .python False) damagedVault _ _ :=
    Storage.runs_of_run False _ _
  rw [hout] at hrun
  obtain ⟨-, -, hgroups, -⟩ := allowed_of_document hdoc hrun
  exact hgroups

end GofrSec
