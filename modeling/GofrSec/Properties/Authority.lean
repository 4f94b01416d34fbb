/-
By whose authority server processes change a shared Vault.

* `Appointed`, `Vouched`: a start-up named the subject as an admin, or an admin made it
  one; the caller of an activity, not ended yet, was an admin at a moment when that activity
  made a call; `Found`: the activity has read the record of a token;
* `JustifiedProfile`, `JustifiedGroup`, `JustifiedMembership`, `JustifiedToken`: which
  activity a record comes from, and by whose authority;
* `Sound`: every document below the folders of the service is a record of one of the six
  kinds, and justified; `Rightful`: the activity may change the document;
* `authority`: the protocol in which every step keeps this, changes only what its activity
  may change, and loses no profile and no group definition;
* `secure_permitted`: a program whose client calls are all permitted keeps to it.
-/
import GofrSec.Properties.PathFamilies
import GofrSec.Services.Servers

namespace GofrSec

open Calls Protocol Text VaultPathLayout

variable {π : Type}

/-! ### Admins -/

/-- The process has made a call as part of such an activity. -/
def Ran (p : π) (a : Activity) (L : ServerLedger π) : Prop := ∃ i r w, .call p a i r w ∈ L

/-- The subject was made an admin: by a start-up that has it among its subjects, or
by a request whose caller was an admin when the request made a call. -/
inductive Appointed (V : SharedVault) : ServerLedger π → String → Prop
  | configured {L : ServerLedger π} {p : π} {subjects : List String} {createdAt : DateTime}
      {grantedAt : String → DateTime} {u : String} :
      Ran p (.startUp subjects createdAt grantedAt) L → u ∈ normalizeSubjects subjects →
      Appointed V L u
  | granted {L L₁ L₂ : ServerLedger π} {p : π} {app : AppState} {identity : VerifiedIdentity}
      {u group : String} {correlationId : Option String} {clock : Clock} {i : VaultCall}
      {r : Except PyError i.Res} {w : VaultWorld} :
      L = L₂ ++ .call p (.serve app
        (.addGroupMembership identity u group correlationId clock)) i r w :: L₁ →
      V.hasMembership (V.documents L₁) identity.subject "admin" = .ok true →
      Appointed V L₁ identity.subject → normalizeGroupName V.platform group = .ok "admin" →
      Appointed V L u

/-- The subject was an admin at a moment when the process made a call as part of the very
activity that it is at. -/
def Vouched (V : SharedVault) (p : π) (a : Activity) (u : String) (L : ServerLedger π) : Prop :=
  ∃ i r w L₁, OwnCall p a i r w L₁ L
    ∧ V.hasMembership (V.documents L₁) u "admin" = .ok true ∧ Appointed V L₁ u

/-- The process has read the record of a token, as part of the very activity that it is at. -/
def Found (V : SharedVault) (p : π) (a : Activity) (t : String) (record : IssuedTokenRecord)
    (L : ServerLedger π) : Prop :=
  ∃ d w L₁, OwnCall p a (.readSecret (V.paths.tokenPath t)) (.ok (some d)) w L₁ L
    ∧ (V.documents L₁).read (V.paths.tokenPath t) = some d
    ∧ deserializeToken V.platform V.deployment.now d = .ok record

/-! ### Records -/

/-- There is a profile of the user. -/
def SharedVault.HasProfile (V : SharedVault) (w : VaultWorld) (u : String) : Prop :=
  (w.read (V.paths.userProfilePath u)).isSome

/-- There is a definition of the group. -/
def SharedVault.HasGroup (V : SharedVault) (w : VaultWorld) (g : String) : Prop :=
  (w.read (V.paths.groupDefinitionPath g)).isSome

/-- The profile comes from a registration of its user. -/
inductive JustifiedProfile (V : SharedVault) (L : ServerLedger π) : UserProfile → Prop
  | registered {p : π} {app : AppState} {identity : VerifiedIdentity}
      {correlationId : Option String} {clock : Clock} {profile : UserProfile} :
      Ran p (.serve app (.registerMe identity correlationId clock)) L →
      profile.keycloakSub = identity.subject → profile.updatedAt = clock.now →
      JustifiedProfile V L profile

/-- The definition comes from a start-up, or an admin created the group. -/
inductive JustifiedGroup (V : SharedVault) (L : ServerLedger π) : GroupDefinition → Prop
  | planned {p : π} {subjects : List String} {createdAt : DateTime}
      {grantedAt : String → DateTime} :
      Ran p (.startUp subjects createdAt grantedAt) L →
      JustifiedGroup V L (buildReservedAdminGroup createdAt)
  | created {p : π} {app : AppState} {identity : VerifiedIdentity} {name : String}
      {description : Option String} {correlationId : Option String} {clock : Clock}
      {group : GroupDefinition} :
      Once (Vouched V p (.serve app (.createGroup identity name description correlationId clock))
        identity.subject) L →
      normalizeGroupName V.platform name = .ok group.name → group.name ≠ "admin" →
      group.isSystem = false → group.isActive = true → group.createdAt = clock.now →
      JustifiedGroup V L group

/-- The membership is of a defined group; it comes from a start-up, or an admin granted
it to a registered user. -/
inductive JustifiedMembership (V : SharedVault) (L : ServerLedger π) : UserGroupMembership → Prop
  | planned {p : π} {subjects : List String} {createdAt : DateTime}
      {grantedAt : String → DateTime} {m : UserGroupMembership} :
      Ran p (.startUp subjects createdAt grantedAt) L →
      m.keycloakSub ∈ normalizeSubjects subjects → m.groupName = "admin" →
      m.grantedBySub = .null → V.HasGroup (V.documents L) m.groupName →
      JustifiedMembership V L m
  | granted {p : π} {app : AppState} {identity : VerifiedIdentity} {group : String}
      {correlationId : Option String} {clock : Clock} {m : UserGroupMembership} :
      Once (Vouched V p (.serve app
        (.addGroupMembership identity m.keycloakSub group correlationId clock))
        identity.subject) L →
      normalizeGroupName V.platform group = .ok m.groupName →
      m.grantedBySub = .str identity.subject → m.grantedAt = clock.now →
      V.HasProfile (V.documents L) m.keycloakSub → V.HasGroup (V.documents L) m.groupName →
      JustifiedMembership V L m

/-- The record is what a mint makes of its request. -/
structure Minted (P : Platform) (request : MintRequest) (clock : Clock)
    (record : IssuedTokenRecord) : Prop where
  tokenId : record.tokenId = request.tokenId
  ownerSub : record.ownerSub = request.ownerSub
  mem_groups : ∀ n, n ∈ record.grantedGroups ↔
    ∃ name ∈ request.groups, normalizeGroupName P name = .ok n
  runtime : "admin" ∉ record.grantedGroups
  nonempty : record.grantedGroups ≠ []
  nodup : record.grantedGroups.Nodup
  status : record.status = "active"
  issuedAt : record.issuedAt = clock.now
  positive : 0 < request.lifetimeSeconds
  expiresAt : ∃ t, record.expiresAt = some t
    ∧ t.micros = clock.now.micros + request.lifetimeSeconds * 1000000
  issuedBySub : record.issuedBySub = some request.actorSub
  revokedAt : record.revokedAt = none

/-- An admin minted the token, for a registered owner and defined groups, or revoked
one that was so minted. -/
inductive JustifiedToken (V : SharedVault) (L : ServerLedger π) : IssuedTokenRecord → Prop
  | minted {p : π} {app : AppState} {q : Request} {request : MintRequest} {clock : Clock}
      {record : IssuedTokenRecord} :
      q.op app = some (.mintToken request clock) → IsTokenId request.tokenId →
      Once (Vouched V p (.serve app q) request.actorSub) L →
      Minted V.platform request clock record → V.HasProfile (V.documents L) record.ownerSub →
      (∀ g ∈ record.grantedGroups, V.HasGroup (V.documents L) g) → JustifiedToken V L record
  | revoked {p : π} {app : AppState} {identity : VerifiedIdentity}
      {correlationId : Option String} {clock : Clock} {record : IssuedTokenRecord} :
      JustifiedToken V L record → record.status ≠ "revoked" →
      Once (Vouched V p (.serve app (.revokeToken identity record.tokenId correlationId clock))
        identity.subject) L →
      JustifiedToken V L (revokedRecord record clock.now)

/-- The document is that of a record of this family, and the record is justified. -/
def Justified (V : SharedVault) (L : ServerLedger π) : RecordKey → Doc → Prop
  | .userProfile u, d => ∃ profile, d = serializeProfile V.platform profile
      ∧ profile.keycloakSub = u ∧ JustifiedProfile V L profile
  | .groupDefinition g, d => ∃ group, d = serializeGroup V.platform group ∧ group.name = g
      ∧ JustifiedGroup V L group
  | .userGroups u, d => ∃ ms, storedMemberships V.platform u ms = some d
      ∧ ∀ m ∈ ms, m.keycloakSub = u ∧ JustifiedMembership V L m
  | .token t, d => ∃ record, d = serializeToken V.platform record ∧ record.tokenId = t
      ∧ JustifiedToken V L record
  | .userToken u t, d => ∃ record, d = userEntry record ∧ record.ownerSub = u
      ∧ record.tokenId = t ∧ JustifiedToken V L record
  | .groupToken g t, d => ∃ record, d = groupEntry record g ∧ g ∈ record.grantedGroups
      ∧ record.tokenId = t ∧ JustifiedToken V L record
  | .signingKey, _ => False

/-- The ids of the record have the shape of `uuid4().hex`. -/
def RecordKey.Hex (key : RecordKey) : Prop := ∀ t ∈ key.tokenId, IsHexId t

/-- Every document below the folders of the service is a justified record. -/
def Sound (V : SharedVault) (L : ServerLedger π) : Prop :=
  ∀ a k d, Under (V.paths.root a) k → (V.documents L).read k = some d →
    ∃ key : RecordKey, key.Hex ∧ k = V.paths.pathOf key ∧ Justified V L key d

/-! ### Changes -/

/-- The documents that an activity is about. -/
def Activity.Controls (P : Platform) : Activity → RecordKey → Prop
  | .startUp subjects _ _, key =>
      key = .groupDefinition "admin" ∨ ∃ u ∈ normalizeSubjects subjects, key = .userGroups u
  | .serve _ (.registerMe identity _ _), key => key = .userProfile identity.subject
  | .serve _ (.createGroup _ name _ _ _), key =>
      ∃ g, normalizeGroupName P name = .ok g ∧ g ≠ "admin" ∧ key = .groupDefinition g
  | .serve _ (.addGroupMembership _ u _ _ _), key => key = .userGroups u
  | .serve _ (.removeGroupMembership _ u _ _ _), key => key = .userGroups u
  | .serve _ (.createToken _ _ _ _ t _ _), key => key.tokenId = some t
  | .serve _ (.revokeToken _ t _ _), key => key.tokenId = some t
  | _, _ => False

/-- Where the route is one for admins, the caller was an admin when it made a call. -/
def Authorised (V : SharedVault) (p : π) (L : ServerLedger π) : Activity → Prop
  | .startUp _ _ _ => True
  | .serve app q => q.isAdmin → ∃ u, q.subject = some u ∧ Vouched V p (.serve app q) u L

/-- The activity may change the document. -/
def Rightful (V : SharedVault) (p : π) (a : Activity) (key : RecordKey) (L : ServerLedger π) :
    Prop :=
  a.Controls V.platform key ∧ Authorised V p L a

/-- No profile and no group definition is lost. -/
structure SharedVault.Lasts (V : SharedVault) (w w' : VaultWorld) : Prop where
  profile : ∀ u, V.HasProfile w u → V.HasProfile w' u
  group : ∀ g, V.HasGroup w g → V.HasGroup w' g

/-- What a response tells of the request: on a route for admins a success is for a
caller who was one, and a runtime authorization allows what the token permits that it has
read, a justified one. -/
def Honest (V : SharedVault) (p : π) (L : ServerLedger π) :
    Activity → Except PyError Outcome → Prop
  | .serve app q, .ok (.response (.success _ body)) =>
      Authorised V p L (.serve app q) ∧
      ∀ payload correlationId clock, q = .authorizeRuntimeRequest payload correlationId clock →
        body = .decision true → ∃ request record, payload.validateTarget = .ok request
          ∧ Found V p (.serve app q) request.tokenId record L
          ∧ record.tokenId = request.tokenId ∧ JustifiedToken V L record
          ∧ permits request clock.now record
  | _, _ => True

/-- Processes whose steps are all rightful and leave justified documents. -/
def authority (V : SharedVault) : ServerProtocol π where
  act := V.act
  start := V.start
  Runs _ a := a.Drawn
  Ok _ _ := True
  Guar L e := match e with
    | .call p a i r w' => Sound V (.call p a i r w' :: L) ∧ V.Lasts (V.documents L) w'
        ∧ ∀ k, w'.read k ≠ (V.documents L).read k →
          ∃ key : RecordKey, key.Hex ∧ k = V.paths.pathOf key ∧ Rightful V p a key L
    | .finish p a r => Honest V p L a r

/-! ### What lasts -/

section

variable {V : SharedVault} {p : π} {a : Activity} {L : ServerLedger π} {e : ServerEvent π}
  {u : String}

lemma Ran.cons (h : Ran p a L) : Ran p a (e :: L) := by
  obtain ⟨i, r, w, hmem⟩ := h
  exact ⟨i, r, w, List.mem_cons_of_mem _ hmem⟩

lemma Appointed.cons (h : Appointed V L u) : Appointed V (e :: L) u := by
  cases h with
  | configured hran hu => exact .configured hran.cons hu
  | @granted _ L₁ L₂ p app identity _ group correlationId clock i r w hL hadmin happointed
      hgroup =>
      have hcons : e :: L = (e :: L₂) ++ .call p (.serve app
          (.addGroupMembership identity u group correlationId clock)) i r w :: L₁ := by
        rw [hL, List.cons_append]
      exact .granted hcons hadmin happointed hgroup

lemma Appointed.of_suffix {L₂ : ServerLedger π} (h : Appointed V L u) :
    Appointed V (L₂ ++ L) u := by
  induction L₂ with
  | nil => exact h
  | cons e L₂ ih => exact ih.cons

lemma Vouched.cons (h : Vouched V p a u L) (he : ¬ e.Ends p) : Vouched V p a u (e :: L) := by
  obtain ⟨i, r, w, L₁, hcall, hadmin, happointed⟩ := h
  exact ⟨i, r, w, L₁, hcall.cons he, hadmin, happointed⟩

lemma Vouched.appointed (h : Vouched V p a u L) : Appointed V L u := by
  obtain ⟨i, r, w, L₁, ⟨L₂, rfl, -⟩, -, happointed⟩ := h
  exact happointed.cons.of_suffix

lemma Found.cons {t : String} {record : IssuedTokenRecord} (h : Found V p a t record L)
    (he : ¬ e.Ends p) : Found V p a t record (e :: L) := by
  obtain ⟨d, w, L₁, hcall, hread, hdecoded⟩ := h
  exact ⟨d, w, L₁, hcall.cons he, hread, hdecoded⟩

/-- Who was vouched for at some moment was an admin when the process made a call. -/
lemma call_of_vouched (h : Once (Vouched V p a u) L) :
    ∃ L₂ i r w L₁, L = L₂ ++ .call p a i r w :: L₁
      ∧ V.hasMembership (V.documents L₁) u "admin" = .ok true ∧ Appointed V L₁ u := by
  obtain ⟨L₃, L', rfl, i, r, w, L₁, ⟨L₂, rfl, -⟩, hadmin, happointed⟩ := h
  exact ⟨L₃ ++ L₂, i, r, w, L₁, (List.append_assoc _ _ _).symm, hadmin, happointed⟩

lemma ran_of_vouched (h : Once (Vouched V p a u) L) : Ran p a L := by
  obtain ⟨L₂, i, r, w, L₁, rfl, -⟩ := call_of_vouched h
  exact ⟨i, r, w, List.mem_append_right _ List.mem_cons_self⟩

lemma Authorised.cons (h : Authorised V p L a) (he : ¬ e.Ends p) :
    Authorised V p (e :: L) a := by
  cases a with
  | startUp subjects createdAt grantedAt => trivial
  | serve app q =>
      intro hadmin
      obtain ⟨u, hu, hvouched⟩ := h hadmin
      exact ⟨u, hu, hvouched.cons he⟩

/-- Whoever holds `admin` was made an admin. -/
lemma JustifiedMembership.appointed {m : UserGroupMembership} (h : JustifiedMembership V L m)
    (hm : m.groupName = "admin") : Appointed V L m.keycloakSub := by
  cases h with
  | planned hran hu _ _ _ => exact .configured hran hu
  | granted hvouched hgroup _ _ _ _ =>
      obtain ⟨L₂, i, r, w, L₁, hL, hadmin, happointed⟩ := call_of_vouched hvouched
      rw [hm] at hgroup
      exact .granted hL hadmin happointed hgroup

lemma JustifiedToken.isTokenId {record : IssuedTokenRecord} (h : JustifiedToken V L record) :
    IsTokenId record.tokenId := by
  induction h with
  | minted _ hid _ hminted _ _ =>
      rw [hminted.tokenId]
      exact hid
  | revoked _ _ _ ih => exact ih

variable (hlasts : V.Lasts (V.documents L) (V.documents (e :: L)))

include hlasts

lemma JustifiedMembership.cons {m : UserGroupMembership} (h : JustifiedMembership V L m) :
    JustifiedMembership V (e :: L) m := by
  cases h with
  | planned hran hu hg hby hgroup => exact .planned hran.cons hu hg hby (hlasts.group _ hgroup)
  | granted hvouched hg hby hat hprofile hgroup =>
      exact .granted hvouched.cons hg hby hat (hlasts.profile _ hprofile) (hlasts.group _ hgroup)

lemma JustifiedToken.cons {record : IssuedTokenRecord} (h : JustifiedToken V L record) :
    JustifiedToken V (e :: L) record := by
  induction h with
  | minted hop hid hvouched hminted hprofile hgroup =>
      exact .minted hop hid hvouched.cons hminted (hlasts.profile _ hprofile)
        fun g hg => hlasts.group _ (hgroup g hg)
  | revoked _ hstatus hvouched ih => exact .revoked ih hstatus hvouched.cons

lemma Justified.cons {key : RecordKey} {d : Doc} (h : Justified V L key d) :
    Justified V (e :: L) key d := by
  cases key with
  | userProfile u =>
      obtain ⟨profile, hd, hu, hjust⟩ := h
      cases hjust with
      | registered hran hsub hat => exact ⟨profile, hd, hu, .registered hran.cons hsub hat⟩
  | groupDefinition g =>
      obtain ⟨group, hd, hg, hjust⟩ := h
      refine ⟨group, hd, hg, ?_⟩
      cases hjust with
      | planned hran => exact .planned hran.cons
      | created hvouched hname hne hsystem hactive hat =>
          exact .created hvouched.cons hname hne hsystem hactive hat
  | userGroups u =>
      obtain ⟨ms, hd, hms⟩ := h
      exact ⟨ms, hd, fun m hm => ⟨(hms m hm).1, (hms m hm).2.cons hlasts⟩⟩
  | token t =>
      obtain ⟨record, hd, ht, hjust⟩ := h
      exact ⟨record, hd, ht, hjust.cons hlasts⟩
  | userToken u t =>
      obtain ⟨record, hd, hu, ht, hjust⟩ := h
      exact ⟨record, hd, hu, ht, hjust.cons hlasts⟩
  | groupToken g t =>
      obtain ⟨record, hd, hg, ht, hjust⟩ := h
      exact ⟨record, hd, hg, ht, hjust.cons hlasts⟩
  | signingKey => exact h.elim

end

/-! ### Client calls -/

/-- The records that may be deleted. -/
def RecordKey.Fleeting : RecordKey → Prop
  | .userProfile _ => False
  | .groupDefinition _ => False
  | _ => True

/-- The client call changes only what the activity may change, and writes only what is
justified. -/
def PermittedCall (V : SharedVault) (p : π) (a : Activity) : VaultCall → ServerLedger π → Prop
  | .writeSecret k d, L => ∃ key : RecordKey, key.Hex ∧ k = V.paths.pathOf key
      ∧ Rightful V p a key L ∧ Justified V L key d
  | .deleteSecret k, L => ∃ key : RecordKey, key.Hex ∧ k = V.paths.pathOf key
      ∧ Rightful V p a key L ∧ key.Fleeting
  | _, _ => True

section

variable {V : SharedVault} {p : π} {a : Activity} {L : ServerLedger π} {i : VaultCall}
  {r : Except PyError i.Res} {w' : VaultWorld}

lemma SharedVault.Lasts.of_read (hsame : ∀ k, w'.read k = (V.documents L).read k) :
    V.Lasts (V.documents L) w' := by
  constructor
  · intro u hu
    rw [HasProfile, hsame]
    exact hu
  · intro g hg
    rw [HasGroup, hsame]
    exact hg

/-- A call that changes no document. -/
lemma guar_same (hsound : Sound V L) (hsame : ∀ k, w'.read k = (V.documents L).read k) :
    (authority V).Guar L (.call p a i r w') := by
  have hlasts : V.Lasts (V.documents L) (V.documents (.call p a i r w' :: L)) := .of_read hsame
  refine ⟨fun b k d hunder hread => ?_, hlasts, fun k hk => absurd (hsame k) hk⟩
  have hread' : (V.documents L).read k = some d := (hsame k).symm.trans hread
  obtain ⟨key, hhex, hkey, hjust⟩ := hsound b k d hunder hread'
  exact ⟨key, hhex, hkey, hjust.cons hlasts⟩

/-- A write in its place. -/
lemma guar_write {key : RecordKey} {d : Doc} (hsound : Sound V L) (hhex : key.Hex)
    (hrightful : Rightful V p a key L) (hjust : Justified V L key d)
    (hw : w' = (V.documents L).write (V.paths.pathOf key) d) :
    (authority V).Guar L (.call p a i r w') := by
  have hkept : ∀ k, ((V.documents L).read k).isSome → (w'.read k).isSome := by
    intro k hk
    rw [hw, VaultWorld.read_write]
    split_ifs
    · rfl
    · exact hk
  have hlasts : V.Lasts (V.documents L) (V.documents (.call p a i r w' :: L)) :=
    ⟨fun u => hkept _, fun g => hkept _⟩
  refine ⟨fun b k d' hunder hread => ?_, hlasts, fun k hk => ?_⟩
  · have hread' : w'.read k = some d' := hread
    rw [hw, VaultWorld.read_write] at hread'
    split_ifs at hread' with hk
    · obtain rfl := Option.some.inj hread'
      exact ⟨key, hhex, hk, hjust.cons hlasts⟩
    · obtain ⟨key', hhex', hkey', hjust'⟩ := hsound b k d' hunder hread'
      exact ⟨key', hhex', hkey', hjust'.cons hlasts⟩
  · rw [hw, VaultWorld.read_write] at hk
    split_ifs at hk with hpath
    · exact ⟨key, hhex, hpath, hrightful⟩
    · exact absurd rfl hk

/-- A deletion of a record that may be deleted. -/
lemma guar_delete {key : RecordKey} (hsound : Sound V L) (hhex : key.Hex)
    (hrightful : Rightful V p a key L) (hfleeting : key.Fleeting)
    (hw : w' = (V.documents L).delete (V.paths.pathOf key)) :
    (authority V).Guar L (.call p a i r w') := by
  have hkept : ∀ key' : RecordKey, key'.Hex → key' ≠ key →
      w'.read (V.paths.pathOf key') = (V.documents L).read (V.paths.pathOf key') := by
    intro key' hhex' hne
    rw [hw, VaultWorld.read_delete, if_neg fun h => hne (pathOf_inj hhex' hhex h)]
  have hlasts : V.Lasts (V.documents L) (V.documents (.call p a i r w' :: L)) := by
    constructor
    · intro u hu
      have hne : RecordKey.userProfile u ≠ key := by
        rintro rfl
        exact hfleeting
      have hread := hkept (.userProfile u) (by rintro t ⟨⟩) hne
      exact (congrArg Option.isSome hread).trans hu
    · intro g hg
      have hne : RecordKey.groupDefinition g ≠ key := by
        rintro rfl
        exact hfleeting
      have hread := hkept (.groupDefinition g) (by rintro t ⟨⟩) hne
      exact (congrArg Option.isSome hread).trans hg
  refine ⟨fun b k d hunder hread => ?_, hlasts, fun k hk => ?_⟩
  · have hread' : w'.read k = some d := hread
    rw [hw, VaultWorld.read_delete] at hread'
    split_ifs at hread'
    obtain ⟨key', hhex', hkey', hjust'⟩ := hsound b k d hunder hread'
    exact ⟨key', hhex', hkey', hjust'.cons hlasts⟩
  · rw [hw, VaultWorld.read_delete] at hk
    split_ifs at hk with hpath
    · exact ⟨key, hhex, hpath, hrightful⟩
    · exact absurd rfl hk

/-- **A permitted call keeps to the protocol**, whether it returns or raises. -/
theorem guar_of_permitted (hsound : Sound V L) (hi : PermittedCall V p a i L)
    (hact : V.act i (V.documents L) r w') : (authority V).Guar L (.call p a i r w') := by
  cases r with
  | error e =>
      obtain rfl := act_error hact
      exact guar_same hsound fun _ => rfl
  | ok v =>
      obtain ⟨-, hw⟩ := act_ok hact
      cases i with
      | writeSecret k d =>
          obtain ⟨key, hhex, rfl, hrightful, hjust⟩ := hi
          exact guar_write hsound hhex hrightful hjust hw
      | deleteSecret k =>
          obtain ⟨key, hhex, rfl, hrightful, hfleeting⟩ := hi
          exact guar_delete hsound hhex hrightful hfleeting hw
      | _ =>
          refine guar_same hsound fun k => ?_
          rw [hw]
          rfl

end

/-! ### What the protocol keeps -/

section

variable {V : SharedVault} {p : π} {a : Activity} {L : ServerLedger π} {e : ServerEvent π}

lemma lasts_of_allowed (he : (authority V).Allowed L e) :
    V.Lasts (V.documents L) (V.documents (e :: L)) := by
  cases e with
  | call p a i r w' => exact he.guar.2.1
  | finish p a r => exact .of_read fun _ => rfl

lemma keeps_justified (key : RecordKey) (d : Doc) :
    (authority V).Keeps fun L : ServerLedger π => Justified V L key d :=
  fun _ _ h he => h.cons (lasts_of_allowed he)

lemma keeps_justifiedToken (record : IssuedTokenRecord) :
    (authority V).Keeps fun L : ServerLedger π => JustifiedToken V L record :=
  fun _ _ h he => h.cons (lasts_of_allowed he)

lemma keeps_justifiedMembership (m : UserGroupMembership) :
    (authority V).Keeps fun L : ServerLedger π => JustifiedMembership V L m :=
  fun _ _ h he => h.cons (lasts_of_allowed he)

lemma keeps_hasProfile (u : String) :
    (authority V).Keeps fun L : ServerLedger π => V.HasProfile (V.documents L) u :=
  fun _ _ h he => (lasts_of_allowed he).profile u h

lemma keeps_hasGroup (g : String) :
    (authority V).Keeps fun L : ServerLedger π => V.HasGroup (V.documents L) g :=
  fun _ _ h he => (lasts_of_allowed he).group g h

lemma within_vouched (u : String) : (authority V).KeepsWithin p (Vouched V p a u) :=
  fun _ _ h _ hends => h.cons hends

lemma within_rightful (key : RecordKey) : (authority V).KeepsWithin p (Rightful V p a key) :=
  fun _ _ h _ hends => ⟨h.1, h.2.cons hends⟩

lemma within_permittedCall (i : VaultCall) :
    (authority V).KeepsWithin p (PermittedCall V p a i) := by
  intro L e h he hends
  cases i with
  | writeSecret k d =>
      obtain ⟨key, hhex, hkey, hrightful, hjust⟩ := h
      have hstill := keeps_justified key d L e hjust he
      exact ⟨key, hhex, hkey, within_rightful key L e hrightful he hends, hstill⟩
  | deleteSecret k =>
      obtain ⟨key, hhex, hkey, hrightful, hfleeting⟩ := h
      exact ⟨key, hhex, hkey, within_rightful key L e hrightful he hends, hfleeting⟩
  | _ => trivial

lemma keeps_sound : (authority V).Keeps (Sound V (π := π)) := by
  intro L e h he
  cases e with
  | call p a i r w' => exact he.guar.1
  | finish p a r =>
      intro b k d hunder hread
      obtain ⟨key, hhex, hkey, hjust⟩ := h b k d hunder hread
      exact ⟨key, hhex, hkey, keeps_justified key d L _ hjust he⟩

/-- A program that makes only permitted calls. -/
lemma secure_permitted {α : Type} {c : VaultProg α} (ha : a.Drawn) (hsound : Sound V L)
    (hc : c.Uses fun i => PermittedCall V p a i L) :
    (authority V).Secure p a c (fun _ L' => Sound V L') L :=
  secure_of_uses_lasting keeps_sound.within within_permittedCall ha
    (fun _ _ _ _ hi hsound hact _ => guar_of_permitted hsound hi hact) hc hsound

end

end GofrSec
