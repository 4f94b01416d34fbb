/-
The JSON documents of the Vault repositories: the `_serialize_*` and
`_deserialize_*` functions of `vault_users.py`, `vault_groups.py` and
`vault_tokens.py`, and the `_parse_datetime` they share.

* `deserializeProfile_serializeProfile`, `deserializeGroup_serializeGroup`,
  `deserializeMembership_serializeMembership`,
  `deserializeToken_serializeToken`: every record survives the round trip
  through its document.

`datetime.now(timezone.utc)`, which stands in for a missing time, is the
argument `now`.
-/
import GofrSec.Domain.Models

namespace GofrSec

/-- `data[key]`. -/
def Doc.require (d : Doc) (key : String) : Except PyError Json :=
  match d.field key with
  | some value => .ok value
  | none => .error (.keyError key)

/-- `data.get(key)`, `None` when the key is absent. -/
def Doc.getOrNone (d : Doc) (key : String) : Json := (d.field key).getD .null

/-- `value if isinstance(value, str) else None`. -/
def Json.stringOrNone : Json → Json
  | .str s => .str s
  | _ => .null

/-- `bool(data.get(key, default))`. -/
def Doc.flag (d : Doc) (key : String) (default : Bool) : Bool :=
  ((d.field key).getD (.bool default)).truthy

section

variable (P : Platform)

/-- `str(data[key])`. -/
def Doc.requireText (d : Doc) (key : String) : Except PyError String := do
  return (← d.require key).pyStr P.repr

/-- `value if isinstance(value, str) or value is None else str(value)`. -/
def Json.optionalText : Json → Option String
  | .null => none
  | value => some (value.pyStr P.repr)

/-- `_parse_datetime`. -/
def parseDatetime (value : Json) : Except PyError (Option DateTime) :=
  if value.truthy then
    match value with
    | .str text =>
        match P.fromisoformat text with
        | some t => .ok (some t)
        | none => .error (.valueError ("Invalid isoformat string: " ++ P.repr text))
    | _ => .error (.typeError "fromisoformat: argument must be str")
  else .ok none

/-- `value.isoformat() if value else None`. -/
def isoOrNone : Option DateTime → Json
  | some t => .str (P.isoformat t)
  | none => .null

/-- `_serialize_profile`. -/
def serializeProfile (profile : UserProfile) : Doc :=
  [("keycloak_sub", .str profile.keycloakSub),
    ("registered_at", .str (P.isoformat profile.registeredAt)),
    ("updated_at", .str (P.isoformat profile.updatedAt)),
    ("display_name", profile.displayName),
    ("email", profile.email)]

/-- `_deserialize_profile`. -/
def deserializeProfile (now : DateTime) (data : Doc) : Except PyError UserProfile := do
  let registeredAt ← parseDatetime P (data.getOrNone "registered_at")
  let updatedAt ← parseDatetime P (data.getOrNone "updated_at")
  let keycloakSub ← data.requireText P "keycloak_sub"
  return {
    keycloakSub := keycloakSub
    registeredAt := registeredAt.getD now
    updatedAt := updatedAt.getD now
    displayName := data.getOrNone "display_name"
    email := data.getOrNone "email" }

/-- `_serialize_group`. -/
def serializeGroup (group : GroupDefinition) : Doc :=
  [("name", .str group.name),
    ("description", Json.ofOption group.description),
    ("is_system", .bool group.isSystem),
    ("is_active", .bool group.isActive),
    ("created_at", .str (P.isoformat group.createdAt))]

/-- `_deserialize_group`. -/
def deserializeGroup (now : DateTime) (data : Doc) : Except PyError GroupDefinition := do
  let createdAt ← parseDatetime P (data.getOrNone "created_at").stringOrNone
  let name ← data.requireText P "name"
  return {
    name := name
    description := (data.getOrNone "description").optionalText P
    isSystem := data.flag "is_system" false
    isActive := data.flag "is_active" true
    createdAt := createdAt.getD now }

/-- `_serialize_membership`. -/
def serializeMembership (membership : UserGroupMembership) : Doc :=
  [("keycloak_sub", .str membership.keycloakSub),
    ("group_name", .str membership.groupName),
    ("granted_at", .str (P.isoformat membership.grantedAt)),
    ("granted_by_sub", membership.grantedBySub)]

/-- `_deserialize_membership`. -/
def deserializeMembership (now : DateTime) (data : Doc) :
    Except PyError UserGroupMembership := do
  let grantedAt ← parseDatetime P (data.getOrNone "granted_at")
  let keycloakSub ← data.requireText P "keycloak_sub"
  let groupName ← data.requireText P "group_name"
  return {
    keycloakSub := keycloakSub
    groupName := groupName
    grantedAt := grantedAt.getD now
    grantedBySub := data.getOrNone "granted_by_sub" }

/-- `_serialize_token`. -/
def serializeToken (record : IssuedTokenRecord) : Doc :=
  [("token_id", .str record.tokenId),
    ("owner_sub", .str record.ownerSub),
    ("granted_groups", .arr (record.grantedGroups.map Json.str)),
    ("status", .str record.status),
    ("issued_at", .str (P.isoformat record.issuedAt)),
    ("expires_at", isoOrNone P record.expiresAt),
    ("issued_by_sub", Json.ofOption record.issuedBySub),
    ("jwt_hash", Json.ofOption record.jwtHash),
    ("pending_reveal", .bool record.pendingReveal),
    ("revoked_at", isoOrNone P record.revokedAt)]

/-- The group names of a token document. -/
def grantedGroupsOf (data : Doc) : List String :=
  match (data.field "granted_groups").getD (.arr []) with
  | .arr groups => groups.map (Json.pyStr P.repr)
  | _ => []

/-- `_deserialize_token`. -/
def deserializeToken (now : DateTime) (data : Doc) : Except PyError IssuedTokenRecord := do
  let issuedAt ← parseDatetime P (data.getOrNone "issued_at").stringOrNone
  let expiresAt ← parseDatetime P (data.getOrNone "expires_at").stringOrNone
  let revokedAt ← parseDatetime P (data.getOrNone "revoked_at").stringOrNone
  let tokenId ← data.requireText P "token_id"
  let ownerSub ← data.requireText P "owner_sub"
  return {
    tokenId := tokenId
    ownerSub := ownerSub
    grantedGroups := grantedGroupsOf P data
    status := ((data.field "status").getD (.str "active")).pyStr P.repr
    issuedAt := issuedAt.getD now
    expiresAt := expiresAt
    issuedBySub := (data.getOrNone "issued_by_sub").optionalText P
    jwtHash := (data.getOrNone "jwt_hash").optionalText P
    pendingReveal := data.flag "pending_reveal" false
    revokedAt := revokedAt }

end

/-! ### Round trips -/

variable {P : Platform} {now : DateTime}

@[simp] lemma parseDatetime_isoformat (t : DateTime) :
    parseDatetime P (.str (P.isoformat t)) = .ok (some t) := by
  simp [parseDatetime, Json.truthy, P.isoformat_ne_empty, P.fromisoformat_isoformat]

@[simp] lemma parseDatetime_null : parseDatetime P .null = .ok none := rfl

@[simp] lemma stringOrNone_str (s : String) : (Json.str s).stringOrNone = .str s := rfl

@[simp] lemma parseDatetime_isoOrNone (t : Option DateTime) :
    parseDatetime P (isoOrNone P t).stringOrNone = .ok t := by
  cases t with
  | none => rfl
  | some t => simp [isoOrNone, Json.stringOrNone]

@[simp] lemma optionalText_ofOption (s : Option String) :
    (Json.ofOption s).optionalText P = s := by
  cases s <;> rfl

lemma deserializeProfile_serializeProfile (profile : UserProfile) :
    deserializeProfile P now (serializeProfile P profile) = .ok profile := by
  simp [deserializeProfile, serializeProfile, Doc.getOrNone, Doc.requireText, Doc.require,
    Doc.field, findEntry, bind, Except.bind, pure, Except.pure]

lemma deserializeGroup_serializeGroup (group : GroupDefinition) :
    deserializeGroup P now (serializeGroup P group) = .ok group := by
  simp [deserializeGroup, serializeGroup, Doc.getOrNone, Doc.requireText, Doc.require, Doc.flag,
    Doc.field, findEntry, Json.truthy, bind, Except.bind, pure, Except.pure]

lemma deserializeMembership_serializeMembership (membership : UserGroupMembership) :
    deserializeMembership P now (serializeMembership P membership) = .ok membership := by
  simp [deserializeMembership, serializeMembership, Doc.getOrNone, Doc.requireText, Doc.require,
    Doc.field, findEntry, bind, Except.bind, pure, Except.pure]

lemma grantedGroupsOf_serializeToken (record : IssuedTokenRecord) :
    grantedGroupsOf P (serializeToken P record) = record.grantedGroups := by
  have hmap : (record.grantedGroups.map Json.str).map (Json.pyStr P.repr)
      = record.grantedGroups := by
    rw [List.map_map]
    exact List.map_id' record.grantedGroups
  simpa [grantedGroupsOf, serializeToken, Doc.field, findEntry] using hmap

lemma deserializeToken_serializeToken (record : IssuedTokenRecord) :
    deserializeToken P now (serializeToken P record) = .ok record := by
  have hgroups := grantedGroupsOf_serializeToken (P := P) record
  simp only [serializeToken] at hgroups
  simp [deserializeToken, serializeToken, hgroups, Doc.getOrNone, Doc.requireText, Doc.require,
    Doc.flag, Doc.field, findEntry, Json.truthy, bind, Except.bind, pure,
    Except.pure]

end GofrSec
