/-
The Vault repositories do not look at the hash of a JWT.

* `SameDoc`: documents that agree on every field but `jwt_hash`; all decoders agree on such
  documents, but for that field of a token record; `SameDocAt`: the documents at a path, the
  same ones unless the path is that of a token;
* `vaultBlind`: client calls and answers that differ in that;
* `VaultWorld.SameButHashes`: Vaults whose documents differ in that; `couples_vaultBlind`: they
  answer alike;
* `VaultDeployment.signingWith`: the deployment with another `jwt.encode`; `coupled_vaultProgram`:
  both make the same client calls.
-/
import GofrSec.Repositories.VaultBackend
import GofrSec.Services.HashBlind

namespace GofrSec

open Calls Text

variable {P : Platform} {D : VaultDeployment} {L : VaultPathLayout} {α β : Type}

/-! ### Documents -/

/-- Documents that agree on every field but `jwt_hash`. -/
structure SameDoc (d d' : Doc) : Prop where
  nil : d = [] ↔ d' = []
  field : ∀ key, key ≠ "jwt_hash" → d.field key = d'.field key

lemma SameDoc.refl (d : Doc) : SameDoc d d := ⟨Iff.rfl, fun _ _ => rfl⟩

variable {d d' : Doc}

lemma SameDoc.getOrNone (h : SameDoc d d') {key : String} (hkey : key ≠ "jwt_hash") :
    d.getOrNone key = d'.getOrNone key := by
  rw [Doc.getOrNone, Doc.getOrNone, h.field key hkey]

lemma SameDoc.requireText (h : SameDoc d d') {key : String} (hkey : key ≠ "jwt_hash") :
    d.requireText P key = d'.requireText P key := by
  rw [Doc.requireText, Doc.requireText, Doc.require, Doc.require, h.field key hkey]

lemma SameDoc.flag (h : SameDoc d d') {key : String} (hkey : key ≠ "jwt_hash") (default : Bool) :
    d.flag key default = d'.flag key default := by
  rw [Doc.flag, Doc.flag, h.field key hkey]

lemma SameDoc.deserializeProfile (h : SameDoc d d') (now : DateTime) :
    deserializeProfile P now d = deserializeProfile P now d' := by
  simp only [GofrSec.deserializeProfile, h.getOrNone (show "registered_at" ≠ "jwt_hash" by decide),
    h.getOrNone (show "updated_at" ≠ "jwt_hash" by decide),
    h.requireText (show "keycloak_sub" ≠ "jwt_hash" by decide),
    h.getOrNone (show "display_name" ≠ "jwt_hash" by decide),
    h.getOrNone (show "email" ≠ "jwt_hash" by decide)]

lemma SameDoc.deserializeGroup (h : SameDoc d d') (now : DateTime) :
    deserializeGroup P now d = deserializeGroup P now d' := by
  simp only [GofrSec.deserializeGroup, h.getOrNone (show "created_at" ≠ "jwt_hash" by decide),
    h.requireText (show "name" ≠ "jwt_hash" by decide),
    h.getOrNone (show "description" ≠ "jwt_hash" by decide),
    h.flag (show "is_system" ≠ "jwt_hash" by decide),
    h.flag (show "is_active" ≠ "jwt_hash" by decide)]

lemma SameDoc.membershipsOf {x x' : Option Doc} (h : Option.Rel SameDoc x x') (now : DateTime) :
    membershipsOf P now x = membershipsOf P now x' := by
  cases h with
  | none => rfl
  | @some d d' h =>
      cases d with
      | nil =>
          obtain rfl := h.nil.mp rfl
          rfl
      | cons e es =>
          cases d' with
          | nil => cases h.nil.mpr rfl
          | cons e' es' =>
              simp only [GofrSec.membershipsOf,
                h.field "memberships" (show "memberships" ≠ "jwt_hash" by decide)]

/-- A token document decodes the same, but for the hash. -/
lemma SameDoc.deserializeToken (h : SameDoc d d') (now : DateTime) :
    Likewise SameRecord (deserializeToken P now d) (deserializeToken P now d') := by
  simp only [GofrSec.deserializeToken, grantedGroupsOf,
    h.getOrNone (show "issued_at" ≠ "jwt_hash" by decide),
    h.getOrNone (show "expires_at" ≠ "jwt_hash" by decide),
    h.getOrNone (show "revoked_at" ≠ "jwt_hash" by decide),
    h.requireText (show "token_id" ≠ "jwt_hash" by decide),
    h.requireText (show "owner_sub" ≠ "jwt_hash" by decide),
    h.field "granted_groups" (by decide), h.field "status" (by decide),
    h.getOrNone (show "issued_by_sub" ≠ "jwt_hash" by decide),
    h.flag (show "pending_reveal" ≠ "jwt_hash" by decide)]
  cases parseDatetime P (d'.getOrNone "issued_at").stringOrNone with
  | error e => exact .error e
  | ok issuedAt =>
  cases parseDatetime P (d'.getOrNone "expires_at").stringOrNone with
  | error e => exact .error e
  | ok expiresAt =>
  cases parseDatetime P (d'.getOrNone "revoked_at").stringOrNone with
  | error e => exact .error e
  | ok revokedAt =>
  cases d'.requireText P "token_id" with
  | error e => exact .error e
  | ok tokenId =>
  cases d'.requireText P "owner_sub" with
  | error e => exact .error e
  | ok ownerSub => exact .ok ⟨_, rfl⟩

lemma sameDoc_hash (before after : Doc) (x y : Json) :
    SameDoc (before ++ ("jwt_hash", x) :: after) (before ++ ("jwt_hash", y) :: after) := by
  refine ⟨by simp, fun key hkey => ?_⟩
  induction before with
  | nil =>
      rw [List.nil_append, List.nil_append, Doc.field, Doc.field, findEntry, findEntry,
        if_neg (Ne.symm hkey), if_neg (Ne.symm hkey)]
  | cons e before ih =>
      obtain ⟨k, v⟩ := e
      rw [Doc.field, Doc.field] at ih ⊢
      rw [List.cons_append, List.cons_append, findEntry, findEntry, ih]

/-- The documents of a record agree on every field but the hash. -/
lemma sameDoc_serializeToken {a b : IssuedTokenRecord} (h : SameRecord a b) :
    SameDoc (serializeToken P a) (serializeToken P b) := by
  obtain ⟨hash, rfl⟩ := h
  exact sameDoc_hash [_, _, _, _, _, _, _] [_, _] (Json.ofOption hash) (Json.ofOption b.jwtHash)

variable (L) in
/-- Documents at a path: the same one, but for `jwt_hash` in the document of a token. -/
def SameDocAt (k : String) (d d' : Doc) : Prop :=
  d = d' ∨ (∃ t, k = L.tokenPath t) ∧ SameDoc d d'

lemma SameDocAt.same {k : String} (h : SameDocAt L k d d') : SameDoc d d' := by
  rcases h with rfl | ⟨-, h⟩
  · exact .refl d
  · exact h

lemma SameDocAt.token {t : String} (h : SameDoc d d') : SameDocAt L (L.tokenPath t) d d' :=
  Or.inr ⟨⟨t, rfl⟩, h⟩

/-! ### Client calls -/

variable (L) in
/-- The same call, but for the hash in the document of a token that it writes. -/
inductive VaultCall.SameCall : VaultCall → VaultCall → Prop
  | refl (c : VaultCall) : SameCall c c
  | write (t : String) {d d' : Doc} : SameDoc d d' →
      SameCall (.writeSecret (L.tokenPath t) d) (.writeSecret (L.tokenPath t) d')

variable (L) in
/-- The same answer, but for the hash in the document of a token that it finds. -/
inductive VaultCall.SameAnswers :
    (i j : VaultCall) → Except PyError i.Res → Except PyError j.Res → Prop
  | refl {c : VaultCall} (hc : ∀ path, c ≠ .readSecret path) (r : Except PyError c.Res) :
      SameAnswers c c r r
  | read (path : String) {r r' : Except PyError (Option Doc)} :
      Likewise (Option.Rel (SameDocAt L path)) r r' →
        SameAnswers (.readSecret path) (.readSecret path) r r'
  | write (path : String) {d d' : Doc} (r : Except PyError Unit) :
      SameAnswers (.writeSecret path d) (.writeSecret path d') r r

variable (L) in
/-- Client calls and answers that are the same but for the hashes of JWTs. -/
def vaultBlind : Coupling VaultCall VaultCall.Res VaultCall VaultCall.Res PyError :=
  { Call := VaultCall.SameCall L, Answer := VaultCall.SameAnswers L }

variable (L) in
/-- Entries at one path, of documents that are the same but for the hash of a JWT. -/
def SameEntry (e e' : String × Doc) : Prop := e.1 = e'.1 ∧ SameDocAt L e.1 e.2 e'.2

variable (L) in
/-- Vaults whose documents differ in the hashes of JWTs at most. -/
structure VaultWorld.SameButHashes (w w' : VaultWorld) : Prop where
  documents : List.Forall₂ (SameEntry L) w.secrets.entries w'.secrets.entries
  events : w.events = w'.events

section

variable {es es' : List (String × Doc)}

lemma findEntry_same (h : List.Forall₂ (SameEntry L) es es') (k : String) :
    Option.Rel (SameDocAt L k) (findEntry k es) (findEntry k es') := by
  induction h with
  | nil => exact .none
  | @cons e e' _ _ he _ ih =>
      obtain ⟨k₁, d⟩ := e
      obtain ⟨k₂, d'⟩ := e'
      obtain ⟨hk, hd⟩ := he
      obtain rfl : k₁ = k₂ := hk
      rw [findEntry, findEntry]
      split_ifs with hk
      · rw [← hk]
        exact .some hd
      · exact ih

lemma setEntry_same (h : List.Forall₂ (SameEntry L) es es') (k : String)
    (hd : SameDocAt L k d d') :
    List.Forall₂ (SameEntry L) (Dict.setEntry k d es) (Dict.setEntry k d' es') := by
  induction h with
  | nil => exact .cons ⟨rfl, hd⟩ .nil
  | @cons e e' _ _ he hrest ih =>
      obtain ⟨k₁, d₁⟩ := e
      obtain ⟨k₂, d₂⟩ := e'
      obtain ⟨hk, hd₁₂⟩ := he
      obtain rfl : k₁ = k₂ := hk
      rw [Dict.setEntry, Dict.setEntry]
      split_ifs
      · exact .cons ⟨rfl, hd⟩ hrest
      · exact .cons ⟨rfl, hd₁₂⟩ ih

lemma filter_same (h : List.Forall₂ (SameEntry L) es es') (k : String) :
    List.Forall₂ (SameEntry L) (es.filter fun e => e.1 ≠ k) (es'.filter fun e => e.1 ≠ k) := by
  induction h with
  | nil => exact .nil
  | @cons e e' _ _ he _ ih =>
      by_cases hk : e.1 = k
      · rw [List.filter_cons_of_neg (by simpa using hk),
          List.filter_cons_of_neg (by simpa [← he.1] using hk)]
        exact ih
      · rw [List.filter_cons_of_pos (by simpa using hk),
          List.filter_cons_of_pos (by simpa [← he.1] using hk)]
        exact .cons he ih

end

namespace VaultWorld.SameButHashes

variable {w w' : VaultWorld}

lemma refl (w : VaultWorld) : w.SameButHashes L w :=
  ⟨List.forall₂_same.mpr fun _ _ => ⟨rfl, Or.inl rfl⟩, rfl⟩

variable (h : w.SameButHashes L w')

include h

lemma read (k : String) : Option.Rel (SameDocAt L k) (w.read k) (w'.read k) :=
  findEntry_same h.documents k

lemma read_isSome (k : String) : (w.read k).isSome = (w'.read k).isSome := by
  have hread := h.read k
  generalize w.read k = x at hread
  generalize w'.read k = x' at hread
  cases hread <;> rfl

lemma names (path : String) : w.names path = w'.names path := by
  have hkeys : w.secrets.keys = w'.secrets.keys := by
    have hmap := List.forall₂_map_left_iff.mpr (List.forall₂_map_right_iff.mpr
      (h.documents.imp fun _ _ he => he.1))
    exact List.forall₂_eq_eq_eq ▸ hmap
  rw [VaultWorld.names, VaultWorld.names, hkeys]

lemma write (k : String) {d d' : Doc} (hd : SameDocAt L k d d') :
    (w.write k d).SameButHashes L (w'.write k d') :=
  ⟨setEntry_same h.documents k hd, h.events⟩

lemma delete (k : String) : (w.delete k).SameButHashes L (w'.delete k) :=
  ⟨filter_same h.documents k, h.events⟩

lemma append (event : AuditEvent) : (w.append event).SameButHashes L (w'.append event) :=
  ⟨h.documents, congrArg (· ++ [event]) h.events⟩

end VaultWorld.SameButHashes

lemma sameAnswers_error {i j : VaultCall} (h : i.SameCall L j) (e : PyError) :
    VaultCall.SameAnswers L i j (.error e) (.error e) := by
  cases h with
  | refl =>
      cases i with
      | readSecret path => exact .read path (.error e)
      | _ => exact .refl (by rintro path ⟨⟩) _
  | write t _ => exact .write _ _

/-- **Such Vaults answer alike.** -/
theorem couples_vaultBlind (server : VaultServer) (faults : Prop) :
    Couples (vaultBlind L) (VaultWorld.SameButHashes L) (server.act faults)
      (server.act faults) := by
  rintro i j w w' r v hcall hsame (hexec | ⟨⟨hf, hi⟩, ⟨e, rfl⟩, rfl⟩)
  · obtain ⟨rfl, rfl⟩ := Prod.mk.inj (show server.exec i w = (r, v) from hexec)
    refine ⟨(server.exec j w').1, (server.exec j w').2, Or.inl rfl, ?_⟩
    cases hcall with
    | write t hd => exact ⟨.write _ _, hsame.write _ (.token hd)⟩
    | refl =>
        cases i with
        | readSecret path => exact ⟨.read path (.ok (hsame.read path)), hsame⟩
        | secretExists path =>
            refine ⟨?_, hsame⟩
            show VaultCall.SameAnswers L (.secretExists path) (.secretExists path)
              (.ok (w.read path).isSome) (.ok (w'.read path).isSome)
            rw [← hsame.read_isSome path]
            exact .refl (by rintro _ ⟨⟩) _
        | listSecrets path =>
            refine ⟨?_, hsame⟩
            show VaultCall.SameAnswers L (.listSecrets path) (.listSecrets path)
              (.ok (server.arrange (w.names path))) (.ok (server.arrange (w'.names path)))
            rw [← hsame.names path]
            exact .refl (by rintro _ ⟨⟩) _
        | writeSecret path d =>
            exact ⟨.refl (by rintro _ ⟨⟩) _, hsame.write path (Or.inl rfl)⟩
        | deleteSecret path =>
            refine ⟨?_, hsame.delete path⟩
            show VaultCall.SameAnswers L (.deleteSecret path) (.deleteSecret path)
              (.ok (w.read path).isSome) (.ok (w'.read path).isSome)
            rw [← hsame.read_isSome path]
            exact .refl (by rintro _ ⟨⟩) _
        | auditAppend event => exact ⟨.refl (by rintro _ ⟨⟩) _, hsame.append event⟩
  · refine ⟨.error e, w', Or.inr ⟨⟨hf, ?_⟩, ⟨e, rfl⟩, rfl⟩, sameAnswers_error hcall e, hsame⟩
    cases hcall with
    | refl => exact hi
    | write t _ => trivial

/-! ### Repositories -/

/-- Client programs that make the same calls, whatever the hashes of JWTs are. -/
abbrev VaultProg.Blind (L : VaultPathLayout) (W : α → β → Prop) (p : VaultProg α)
    (q : VaultProg β) : Prop :=
  p.Coupled (vaultBlind L) (Likewise W) q

/-- A client program that makes the same calls, and ends the same, whatever the hashes of JWTs
are. -/
abbrev VaultProg.Oblivious (L : VaultPathLayout) (p : VaultProg α) : Prop :=
  VaultProg.Blind L Eq p p

namespace VaultProg

lemma blind_readSecret (path : String) :
    Blind L (Option.Rel SameDoc) (readSecret path) (readSecret path) := by
  refine (Prog.coupled_perform (K := vaultBlind L)
    (VaultCall.SameCall.refl (.readSecret path))).mono fun r r' h => ?_
  cases h with
  | refl hc _ => exact absurd rfl (hc path)
  | read _ h =>
      refine h.mono fun x x' hx => ?_
      cases hx with
      | none => exact .none
      | some hd => exact .some hd.same

lemma blind_writeSecret (t : String) {d d' : Doc} (hd : SameDoc d d') :
    Blind L Eq (writeSecret (L.tokenPath t) d) (writeSecret (L.tokenPath t) d') := by
  refine (Prog.coupled_perform (K := vaultBlind L) (VaultCall.SameCall.write t hd)).mono
    fun r r' h => ?_
  cases h with
  | refl _ r => exact likewise_refl (fun _ => rfl) r
  | write _ r => exact likewise_refl (fun _ => rfl) r

/-- A program that reads no documents is oblivious. -/
lemma oblivious_of_uses {p : VaultProg α} (hp : p.Uses fun c => ∀ path, c ≠ .readSecret path) :
    Oblivious L p := by
  refine (Prog.coupled_of_uses (fun c hc => ?_) hp).mono fun r r' h => likewise_eq.mpr h
  refine ⟨VaultCall.SameCall.refl c, fun r r' h => ?_⟩
  cases h with
  | refl => rfl
  | read path _ => exact absurd rfl (hc path)
  | write => rfl

lemma oblivious_pure (a : α) : Oblivious L (pure a) := Prog.coupled_pure rfl

lemma oblivious_lift (o : Except PyError α) : Oblivious L (Prog.lift o) :=
  Prog.coupled_lift (likewise_refl (fun _ => rfl) o)

lemma Oblivious.bind {p : VaultProg α} {f : α → VaultProg β} (h : Oblivious L p)
    (hf : ∀ a, Oblivious L (f a)) : Oblivious L (p >>= f) :=
  Prog.Coupled.bind h fun a _ hab => hab ▸ hf a

/-- Reading a document of which a decoder sees the same. -/
lemma oblivious_read {f : Option Doc → Except PyError α}
    (hf : ∀ x x', Option.Rel SameDoc x x' → f x = f x') (path : String) :
    Oblivious L (readSecret path >>= fun data => Prog.lift (f data)) :=
  Prog.Coupled.bind (blind_readSecret path) fun x x' h => hf x x' h ▸ oblivious_lift _

lemma oblivious_getRecord {deserialize : Doc → Except PyError α}
    (h : ∀ d d', SameDoc d d' → deserialize d = deserialize d') (path : String) :
    Oblivious L (getRecord path deserialize) := by
  refine oblivious_read (fun x x' hx => ?_) path
  cases hx with
  | none => rfl
  | some hd => rw [decodeRecord, decodeRecord, h _ _ hd]

lemma oblivious_loadMemberships (P : Platform) (D : VaultDeployment) (u : String) :
    Oblivious L (VaultGroupMembershipRepository.loadMemberships P D u) :=
  oblivious_read (fun _ _ h => SameDoc.membershipsOf h D.now) _

lemma oblivious_storeMemberships (P : Platform) (D : VaultDeployment) (u : String)
    (ms : List UserGroupMembership) :
    Oblivious L (VaultGroupMembershipRepository.storeMemberships P D u ms) := by
  refine oblivious_of_uses ?_
  cases ms with
  | nil => exact Prog.Uses.bind ((Prog.uses_perform _).mpr (by rintro _ ⟨⟩)) fun _ => trivial
  | cons m ms => exact (Prog.uses_perform _).mpr (by rintro _ ⟨⟩)

lemma oblivious_membersAmong (P : Platform) (D : VaultDeployment) (g : String)
    (us : List String) : Oblivious L (VaultGroupMembershipRepository.membersAmong P D g us) := by
  induction us with
  | nil => exact oblivious_pure []
  | cons u us ih =>
      exact (oblivious_loadMemberships P D u).bind fun _ => ih.bind fun _ => oblivious_pure _

lemma oblivious_listKnownUserIds (D : VaultDeployment) : Oblivious L (listKnownUserIds D) := by
  refine oblivious_of_uses (Prog.Uses.bind ((Prog.uses_perform _).mpr ?_) fun _ => trivial)
  rintro _ ⟨⟩

/-! ### Tokens -/

lemma blind_get (P : Platform) (D : VaultDeployment) (t : String) :
    Blind D.paths (Option.Rel SameRecord) (VaultTokenRepository.get P D t)
      (VaultTokenRepository.get P D t) := by
  refine Prog.Coupled.bind (blind_readSecret _) fun x x' h => ?_
  cases h with
  | none => exact Prog.coupled_lift (.ok .none)
  | @some d d' h =>
      refine Prog.coupled_lift ?_
      have hrecord := h.deserializeToken (P := P) D.now
      show Likewise _ ((deserializeToken P D.now d).map some)
        ((deserializeToken P D.now d').map some)
      generalize deserializeToken P D.now d = r at hrecord
      generalize deserializeToken P D.now d' = r' at hrecord
      cases hrecord with
      | ok h => exact .ok (.some h)
      | error e => exact .error e

lemma blind_recordsOf (P : Platform) (D : VaultDeployment) (keys : List String) :
    Blind D.paths (List.Forall₂ SameRecord) (VaultTokenRepository.recordsOf P D keys)
      (VaultTokenRepository.recordsOf P D keys) := by
  induction keys with
  | nil => exact Prog.coupled_pure .nil
  | cons key keys ih =>
      rw [VaultTokenRepository.recordsOf]
      split_ifs
      · exact ih
      · refine Prog.Coupled.bind (blind_get P D _) fun x x' hx => ?_
        refine Prog.Coupled.bind ih fun l l' hl => Prog.coupled_pure ?_
        cases hx with
        | none => exact hl
        | some h => exact .cons h hl

lemma blind_listForUser (P : Platform) (D : VaultDeployment) (u : String) :
    Blind D.paths (List.Forall₂ SameRecord) (VaultTokenRepository.listForUser P D u)
      (VaultTokenRepository.listForUser P D u) := by
  have hlist : Oblivious D.paths (listSecrets (D.paths.userTokensRoot u)) :=
    oblivious_of_uses ((Prog.uses_perform _).mpr (by rintro _ ⟨⟩))
  exact Prog.Coupled.bind hlist fun keys _ h => h ▸ blind_recordsOf P D keys

/-- The index entries of a token do not depend on the hash, nor on that of the record
before. -/
lemma indexUpdates_same {a b : IssuedTokenRecord} (hab : SameRecord a b)
    {x x' : Option IssuedTokenRecord} (hx : Option.Rel SameRecord x x') :
    indexUpdates D x a = indexUpdates D x' b := by
  obtain ⟨hash, rfl⟩ := hab
  cases hx with
  | none => rfl
  | some h =>
      obtain ⟨hash', rfl⟩ := h
      rfl

lemma blind_upsert (P : Platform) (D : VaultDeployment) {a b : IssuedTokenRecord}
    (hab : SameRecord a b) :
    Blind D.paths SameRecord (VaultTokenRepository.upsert P D a)
      (VaultTokenRepository.upsert P D b) := by
  have hid : a.tokenId = b.tokenId := by
    obtain ⟨hash, rfl⟩ := hab
    rfl
  rw [VaultTokenRepository.upsert_eq, VaultTokenRepository.upsert_eq, hid]
  refine Prog.Coupled.bind (blind_get P D _) fun x x' hx => ?_
  have hindexes : Oblivious D.paths (Prog.performAll (indexUpdates D x' b)) := by
    refine oblivious_of_uses (Prog.uses_performAll fun c hc => ?_)
    rintro path rfl
    cases isSome_target_indexUpdates D hc
  have hcalls : Blind D.paths Eq (Prog.performAll (upsertCalls P D x a))
      (Prog.performAll (upsertCalls P D x' b)) := by
    rw [upsertCalls, upsertCalls, Prog.performAll_cons, Prog.performAll_cons, hid,
      indexUpdates_same hab hx]
    exact Prog.Coupled.bind (blind_writeSecret _ (sameDoc_serializeToken hab)) fun _ _ _ => hindexes
  exact Prog.Coupled.bind hcalls fun _ _ _ => Prog.coupled_pure hab

/-! ### Signing -/

lemma signingMaterial_same (signer : VaultTokenSigner) {x x' : Option Doc}
    (h : Option.Rel SameDoc x x') :
    signingMaterial P D signer x = signingMaterial P D signer x' := by
  cases h with
  | none => rfl
  | some h =>
      simp only [signingMaterial, h.getOrNone (show "private_key_pem" ≠ "jwt_hash" by decide),
        h.getOrNone (show "kid" ≠ "jwt_hash" by decide)]

lemma oblivious_loadSigningMaterial (P : Platform) (D : VaultDeployment)
    (signer : VaultTokenSigner) : Oblivious L (signer.loadSigningMaterial P D) :=
  oblivious_read (fun _ _ h => signingMaterial_same signer h) _

lemma oblivious_publicKeyDocument (P : Platform) (D : VaultDeployment) :
    Oblivious L (D.signer.publicKeyDocument P D) := by
  cases D.signer with
  | static signer => exact oblivious_lift _
  | vault signer => exact (oblivious_loadSigningMaterial P D signer).bind fun _ => oblivious_lift _

end VaultProg

/-- `jwt.encode`, as the signers call it. -/
abbrev JwtEncode : Type := JwtClaims → String → String → Option String → Except PyError String

/-- The deployment with another `jwt.encode`. -/
def VaultDeployment.signingWith (D : VaultDeployment) (encode : JwtEncode) : VaultDeployment :=
  { D with crypto := { D.crypto with jwtEncode := encode } }

/-- Whatever is to be signed, both sign it, with a JWT in ASCII, or neither does. -/
def SignAlike (encode encode' : JwtEncode) : Prop :=
  ∀ claims privateKeyPem algorithm keyId,
    Likewise (fun jwt jwt' => IsAscii jwt ∧ IsAscii jwt')
      (encode claims privateKeyPem algorithm keyId) (encode' claims privateKeyPem algorithm keyId)

variable {encode : JwtEncode}

lemma membersAmong_signingWith (g : String) (us : List String) :
    VaultGroupMembershipRepository.membersAmong P (D.signingWith encode) g us
      = VaultGroupMembershipRepository.membersAmong P D g us := by
  induction us with
  | nil => rfl
  | cons u us ih =>
      rw [VaultGroupMembershipRepository.membersAmong,
        VaultGroupMembershipRepository.membersAmong, ih]
      rfl

lemma recordsOf_signingWith (keys : List String) :
    VaultTokenRepository.recordsOf P (D.signingWith encode) keys
      = VaultTokenRepository.recordsOf P D keys := by
  induction keys with
  | nil => rfl
  | cons key keys ih =>
      rw [VaultTokenRepository.recordsOf, VaultTokenRepository.recordsOf, ih]
      rfl

/-- Only signing depends on `jwt.encode`. -/
lemma vaultProgram_signingWith {c : RepoCall} (hc : ∀ request, c ≠ .signToken request) :
    vaultProgram P (D.signingWith encode) c = vaultProgram P D c := by
  cases c with
  | countMembers g =>
      show (listKnownUserIds D >>= fun us =>
          VaultGroupMembershipRepository.membersAmong P (D.signingWith encode) g us) >>= _
        = (listKnownUserIds D >>= fun us =>
          VaultGroupMembershipRepository.membersAmong P D g us) >>= _
      simp only [membersAmong_signingWith]
  | tokenUpsert record =>
      show VaultTokenRepository.upsert P (D.signingWith encode) record
        = VaultTokenRepository.upsert P D record
      rw [VaultTokenRepository.upsert_eq, VaultTokenRepository.upsert_eq]
      rfl
  | tokensForUser u =>
      show (listSecrets (D.paths.userTokensRoot u) >>= fun keys =>
          VaultTokenRepository.recordsOf P (D.signingWith encode) keys)
        = listSecrets (D.paths.userTokensRoot u) >>= fun keys =>
          VaultTokenRepository.recordsOf P D keys
      simp only [recordsOf_signingWith]
  | signToken request => exact absurd rfl (hc request)
  | _ => rfl

namespace VaultProg

lemma blind_signToken (P : Platform) (hsign : SignAlike D.crypto.jwtEncode encode)
    (request : SigningRequest) :
    Blind D.paths (fun jwt jwt' => IsAscii jwt ∧ IsAscii jwt') (D.signer.signToken P D request)
      (D.signer.signToken P (D.signingWith encode) request) := by
  cases D.signer with
  | static signer => exact Prog.coupled_lift (hsign _ _ _ _)
  | vault signer =>
      exact Prog.Coupled.bind (oblivious_loadSigningMaterial P D signer) fun material _ h =>
        h ▸ Prog.coupled_lift (hsign _ _ _ _)

/-- Calls without records run the same. -/
lemma oblivious_vaultProgram (P : Platform) (D : VaultDeployment) {c : RepoCall}
    (hc : c.Recordless) : Oblivious L (vaultProgram P D c) := by
  cases c with
  | profileGet u => exact oblivious_getRecord (fun _ _ h => h.deserializeProfile D.now) _
  | profileUpsert profile =>
      refine oblivious_of_uses (Prog.Uses.bind ((Prog.uses_perform _).mpr ?_) fun _ => trivial)
      rintro _ ⟨⟩
  | isRegistered u => exact oblivious_of_uses ((Prog.uses_perform _).mpr (by rintro _ ⟨⟩))
  | groupGet g => exact oblivious_getRecord (fun _ _ h => h.deserializeGroup D.now) _
  | groupUpsert group =>
      refine oblivious_of_uses (Prog.Uses.bind ((Prog.uses_perform _).mpr ?_) fun _ => trivial)
      rintro _ ⟨⟩
  | membershipAdd m =>
      exact (oblivious_loadMemberships P D _).bind fun ms =>
        (oblivious_storeMemberships P D _ _).bind fun _ => oblivious_pure _
  | membershipRemove u g =>
      refine (oblivious_loadMemberships P D u).bind fun ms => ?_
      dsimp only
      split_ifs
      · exact oblivious_pure _
      · exact (oblivious_storeMemberships P D u _).bind fun _ => oblivious_pure _
  | hasMembership u g => exact (oblivious_loadMemberships P D u).bind fun _ => oblivious_pure _
  | membershipsForUser u => exact oblivious_loadMemberships P D u
  | countMembers g =>
      exact ((oblivious_listKnownUserIds D).bind fun us => oblivious_membersAmong P D g us).bind
        fun _ => oblivious_pure _
  | publicKeyDocument => exact oblivious_publicKeyDocument P D
  | auditAppend event => exact oblivious_of_uses ((Prog.uses_perform _).mpr (by rintro _ ⟨⟩))
  | _ => exact hc.elim

end VaultProg

/-- **The repositories make the same client calls**, whatever the JWTs and their hashes
are. -/
theorem coupled_vaultProgram (P : Platform) (hsign : SignAlike D.crypto.jwtEncode encode)
    {i j : RepoCall} (h : i.SameCall j) :
    (vaultProgram P D i).Coupled (vaultBlind D.paths) (RepoCall.SameAnswers i j)
      (vaultProgram P (D.signingWith encode) j) := by
  have hupsert : ∀ {a b : IssuedTokenRecord}, SameRecord a b →
      (vaultProgram P D (.tokenUpsert a)).Coupled (vaultBlind D.paths)
        (RepoCall.SameAnswers (.tokenUpsert a) (.tokenUpsert b))
        (vaultProgram P (D.signingWith encode) (.tokenUpsert b)) := by
    intro a b hab
    rw [vaultProgram_signingWith (by rintro _ ⟨⟩)]
    exact (VaultProg.blind_upsert P D hab).mono fun _ _ => RepoCall.SameAnswers.upsert
  cases h with
  | upsert hab => exact hupsert hab
  | refl =>
      by_cases hi : i.Recordless
      · rw [vaultProgram_signingWith (by rintro request rfl; exact hi)]
        refine (VaultProg.oblivious_vaultProgram P D hi).mono fun r r' h => ?_
        obtain rfl := likewise_eq.mp h
        exact .refl hi r
      · cases i with
        | tokenGet t =>
            rw [vaultProgram_signingWith (by rintro _ ⟨⟩)]
            exact (VaultProg.blind_get P D t).mono fun _ _ => RepoCall.SameAnswers.get t
        | tokenUpsert record => exact hupsert (.refl record)
        | tokensForUser u =>
            rw [vaultProgram_signingWith (by rintro _ ⟨⟩)]
            exact (VaultProg.blind_listForUser P D u).mono fun _ _ => RepoCall.SameAnswers.list u
        | signToken request =>
            exact (VaultProg.blind_signToken P hsign request).mono
              fun _ _ => RepoCall.SameAnswers.sign request
        | _ => exact absurd trivial hi

end GofrSec
