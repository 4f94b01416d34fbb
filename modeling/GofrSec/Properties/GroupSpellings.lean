/-
The spellings of a group name, when a token is minted and when it is authorized.

* `validateTarget_group`: what the request schema makes of a request for a group;
* `decision`: the answer of the authorization route on one record;
* `decision_agrees_iff`: which spellings are decided as their normal form;
* `authorize_spelled`: which spellings a token is authorized by that was minted with
  them, and `spellings_agree_iff`: both of it;
* `mintToken_spelling`: a mint does not see the spelling.
-/
import GofrSec.Api.Routes
import GofrSec.Properties.TokenHistory

namespace GofrSec

open Calls Text

variable {P : Platform}

/-- Nothing is left of no letters. -/
lemma Platform.lower_empty (P : Platform) : P.lower "" = "" := by
  rw [← String.toList_inj, P.lower_ascii "" fun c h => nomatch h]
  rfl

/-- A name that can be normalized is not blank. -/
lemma strip_ne_empty {g n : String} (h : normalizeGroupName P g = .ok n) : strip g ≠ "" := by
  obtain ⟨hname, hn⟩ := normalizeGroupName_eq_ok h
  intro hblank
  rw [hblank, P.lower_empty] at hn
  exact hname.ne_empty hn

/-- A group name has no white space around it. -/
lemma IsGroupName.strip_eq {n : String} (h : IsGroupName n) : strip n = n := by
  obtain ⟨-, -, hhead, hlast⟩ := (groupName_iff n).mp h
  exact strip_eq_self (fun c hc => isNameEdge_not_space (hhead c hc))
    fun c hc => isNameEdge_not_space (hlast c hc)

/-- A token id has no white space around it. -/
lemma IsTokenId.strip_eq {t : String} (h : IsTokenId t) : strip t = t := by
  have hspace : ∀ c ∈ t.toList, isSpace c = false := by
    intro c hc
    have hhex : ('0' ≤ c ∧ c ≤ '9') ∨ ('a' ≤ c ∧ c ≤ 'f') := by
      simpa [isHexDigit] using List.all_eq_true.mp h.2 c hc
    refine IsGroupName.isNameEdge_not_space ?_
    rw [isNameEdge, Bool.or_eq_true, Bool.and_eq_true, Bool.and_eq_true, decide_eq_true_eq,
      decide_eq_true_eq, decide_eq_true_eq, decide_eq_true_eq]
    exact hhex.symm.imp_left fun hletter => ⟨hletter.1, hletter.2.trans (by decide)⟩
  exact strip_eq_self (fun c hc => hspace c (List.mem_of_mem_head? hc))
    fun c hc => hspace c (List.mem_of_mem_getLast? hc)

/-- What the request schema makes of a request for a group that is not blank. -/
lemma validateTarget_group (tokenId ownerSub : String) {g : String} (hgroup : strip g ≠ "") :
    (RuntimeAuthorizationRequest.validateTarget
        { tokenId := tokenId, ownerSub := ownerSub, group := some g, resource := none })
      = if strip tokenId = "" then .error "token_id is required"
        else if strip ownerSub = "" then .error "owner_sub is required"
        else .ok { tokenId := strip tokenId
                   ownerSub := some (strip ownerSub)
                   requestedGroup := some (strip g)
                   requestedResource := none } := by
  have hstripped : strippedOrNone (some g) = some (strip g) := if_neg hgroup
  simp only [RuntimeAuthorizationRequest.validateTarget, hstripped]
  rfl

/-- The decision on a record, for a token, an owner and a group as they are sent: that of
`authorize` after the cleaning of the request. -/
def decision (tokenId ownerSub g : String) (now : DateTime) (record : IssuedTokenRecord) :
    Except String Bool :=
  (RuntimeAuthorizationRequest.validateTarget
      { tokenId := tokenId, ownerSub := ownerSub, group := some g, resource := none }).map
    fun request => permits request now record

/-- **A spelling is decided as its normal form exactly when it is that form once
stripped.** -/
theorem decision_agrees_iff {g n : String} (h : normalizeGroupName P g = .ok n) :
    (∀ tokenId ownerSub now record,
        decision tokenId ownerSub g now record = decision tokenId ownerSub n now record)
      ↔ strip g = n := by
  obtain ⟨hname, -⟩ := normalizeGroupName_eq_ok h
  have hne := hname.ne_empty
  have hstrip := hname.strip_eq
  constructor
  · intro hall
    -- a record that grants the normal form and nothing else
    let record : IssuedTokenRecord :=
      { tokenId := "t"
        ownerSub := "u"
        grantedGroups := [n]
        status := "active"
        issuedAt := ⟨0, by decide, by decide⟩
        expiresAt := none
        issuedBySub := none
        jwtHash := none
        pendingReveal := false
        revokedAt := none }
    have hagree := hall "t" "u" ⟨0, by decide, by decide⟩ record
    have hstript : strip "t" = "t" := by decide
    have hstripu : strip "u" = "u" := by decide
    rw [decision, decision, validateTarget_group _ _ (strip_ne_empty h),
      validateTarget_group _ _ (by rw [hstrip]; exact hne), hstript, hstripu, hstrip,
      if_neg (by decide), if_neg (by decide), if_neg (by decide), if_neg (by decide)] at hagree
    have hpermits : permits
        { tokenId := "t"
          ownerSub := some "u"
          requestedGroup := some n
          requestedResource := none } ⟨0, by decide, by decide⟩ record := by
      refine permits_iff.mpr ⟨n, if_neg hne, hne, rfl, rfl, fun _ h0 => (nomatch h0), ?_⟩
      exact List.mem_singleton_self n
    have hspelled := (Except.ok.inj hagree).trans hpermits
    obtain ⟨target, htarget, -, -, -, -, hgranted⟩ := permits_iff.mp hspelled
    have hrequired : requiredPermission
        { tokenId := "t"
          ownerSub := some "u"
          requestedGroup := some (strip g)
          requestedResource := none } = some (strip g) := if_neg (strip_ne_empty h)
    rw [Option.some.inj (hrequired.symm.trans htarget)]
    exact List.mem_singleton.mp hgranted
  · intro hg tokenId ownerSub now record
    rw [decision, decision, validateTarget_group _ _ (strip_ne_empty h),
      validateTarget_group _ _ (by rw [hstrip]; exact hne), hg, hstrip]

/-- The request to authorize a token for its owner and a group. -/
def spelledRequest (mint : MintRequest) (g : String) : RuntimeAuthorizationRequest :=
  { tokenId := mint.tokenId
    ownerSub := mint.ownerSub
    group := some g
    resource := none }

section

variable {st : Storage} {s : st.State} {reg : Registry} {h : OpHistory} {app : AppState}
  {mint : MintRequest} {mclock clock : Clock} {g : String}

/-- The route authorizes a minted token for a spelling of its only group exactly when the
spelling is the normal form once stripped. -/
lemma authorize_spelled (hrep : st.Represents P (runRegime False False) s reg)
    (hist : TokenHistory P h reg) (hminted : MintedIn h mint mclock) (hgroups : mint.groups = [g])
    (howner : strip mint.ownerSub = mint.ownerSub) (hid : IsTokenId mint.tokenId)
    (correlationId : Option String)
    (hexpiry : clock.now.micros < mclock.now.micros + mint.lifetimeSeconds * 1000000)
    (hrevoked : ¬ RevokedIn h mint.tokenId) :
    (((Request.authorizeRuntimeRequest (spelledRequest mint g) correlationId clock).prog P app).run
        (st.exec P) s).1 = .ok (.success 200 (.decision true))
      ↔ mint.ownerSub ≠ "" ∧ normalizeGroupName P g = .ok (strip g) := by
  by_cases hblank : strip g = ""
  · -- a blank group is refused, and has no normal form
    refine iff_of_false (fun hout => ?_) fun h => ?_
    · have hstripped : strippedOrNone (some g) = none := if_pos hblank
      have hrefused : ∃ detail,
          (spelledRequest mint g).validateTarget = .error detail := by
        simp only [RuntimeAuthorizationRequest.validateTarget, spelledRequest, hstripped]
        split_ifs
        · exact ⟨_, rfl⟩
        · exact ⟨_, rfl⟩
        · exact ⟨_, rfl⟩
        · next hsome => exact absurd rfl hsome
      obtain ⟨detail, hdetail⟩ := hrefused
      rw [Request.prog, hdetail] at hout
      cases hout
    · exact absurd hblank (strip_ne_empty h.2)
  have htarget := validateTarget_group mint.tokenId mint.ownerSub hblank
  rw [howner, hid.strip_eq, if_neg hid.isSegment.1] at htarget
  by_cases hempty : mint.ownerSub = ""
  · rw [if_pos hempty] at htarget
    refine iff_of_false (fun hout => ?_) fun h => h.1 hempty
    rw [Request.prog, spelledRequest, htarget] at hout
    cases hout
  rw [if_neg hempty] at htarget
  obtain ⟨record, hrecord, ⟨hsub, hgranted, t, ht, hmicros⟩, hstatus⟩ :=
    hist.stored mint mclock hminted
  have hactive : record.status = "active" :=
    (hstatus.resolve_right fun hrev => hrevoked hrev.2).1
  rw [Request.prog, spelledRequest, htarget]
  dsimp only
  rw [run_respond, authorize_run hrep, hrecord, Option.any_some]
  have hanswer : ∀ allowed : Bool, (answer (fun _ => none) 200
      (fun decision : AuthorizationDecision => .ok (.decision decision.allowed))
      (.ok { allowed := allowed }) = .ok (.success 200 (.decision true))) ↔ allowed = true := by
    intro allowed
    refine ⟨fun h0 => ?_, fun h0 => by rw [h0]; rfl⟩
    exact Body.decision.inj (Response.success.inj (Except.ok.inj h0)).2
  rw [hanswer, permits_iff]
  constructor
  · rintro ⟨target, htarget', -, -, -, -, hmem⟩
    have hrequired : some (strip g) = some target := (if_neg hblank).symm.trans htarget'
    obtain rfl := Option.some.inj hrequired
    obtain ⟨name, hname, hnormal⟩ := (hgranted _).mp hmem
    rw [hgroups, List.mem_singleton] at hname
    exact ⟨hempty, hname ▸ hnormal⟩
  · rintro ⟨-, hnormal⟩
    refine ⟨strip g, if_neg hblank, hblank, by rw [hsub], hactive, fun t' ht' => ?_, ?_⟩
    · obtain rfl := Option.some.inj (ht.symm.trans ht')
      rw [DateTime.lt_def, hmicros]
      exact hexpiry
    · exact (hgranted _).mpr ⟨g, by rw [hgroups]; exact List.mem_singleton_self g, hnormal⟩

end

/-- **When minting and authorizing agree on a spelling.** After every session of
operations from empty stores, on either backend: a token minted with the only group `g`,
not expired and not revoked, is authorized for its owner and `g` exactly when the owner is
not empty and stripping `g` gives its normal form. And a name that can be normalized is
decided as its normal form, on every record, exactly when stripping it gives that form. -/
theorem spellings_agree_iff (P : Platform) (st : Storage) (app : AppState) {s₀ s : st.State}
    {h : OpHistory} (hfresh : st.Fresh s₀) (hsession : Session (st.exec P).graph (Op.prog P) s₀ h s)
    (hids : FreshIds False (h.map Prod.fst)) :
    (∀ (mint : MintRequest) (mclock clock : Clock) (g : String) (correlationId : Option String),
        MintedIn h mint mclock → mint.groups = [g] → strip mint.ownerSub = mint.ownerSub →
        clock.now.micros < mclock.now.micros + mint.lifetimeSeconds * 1000000 →
        ¬ RevokedIn h mint.tokenId →
        ((((Request.authorizeRuntimeRequest (spelledRequest mint g) correlationId clock).prog P
            app).run (st.exec P) s).1 = .ok (.success 200 (.decision true))
          ↔ mint.ownerSub ≠ "" ∧ normalizeGroupName P g = .ok (strip g)))
      ∧ ∀ g n, normalizeGroupName P g = .ok n →
        ((∀ tokenId ownerSub now record,
            decision tokenId ownerSub g now record = decision tokenId ownerSub n now record)
          ↔ strip g = n) := by
  obtain ⟨reg, hrep, hist⟩ := tokenHistory_session hfresh hsession hids
  refine ⟨fun mint mclock clock g correlationId hminted hgroups howner hexpiry hrevoked => ?_,
    fun g n hn => decision_agrees_iff hn⟩
  obtain ⟨v, hmem⟩ := hminted
  have hvalid := hids.valid _ (List.mem_map_of_mem hmem)
  exact authorize_spelled hrep hist ⟨v, hmem⟩ hgroups howner hvalid.1 correlationId hexpiry hrevoked

/-! ### A capital spelling -/

/-- A mint sees the normal forms of its groups only. -/
lemma mintToken_spelling {request : MintRequest} {groups : List String} (clock : Clock)
    (h : groups.mapM (normalizeGroupName P) = request.groups.mapM (normalizeGroupName P)) :
    mintToken P { request with groups := groups } clock = mintToken P request clock := by
  have hgroups : validateGroups P groups = validateGroups P request.groups := by
    rw [validateGroups, validateGroups, ensureRuntimeGroupsAllowed, ensureRuntimeGroupsAllowed, h]
  unfold mintToken mintTokenBody
  simp only [hgroups]
  rfl

/-- `teamMint`, with another spelling of its group. -/
def spelledMint (g : String) : MintRequest := { teamMint with groups := [g] }

/-- `teamDay`, with that spelling in its mint. -/
def spelledDay (g : String) : List Op := .mintToken (spelledMint g) newYear :: teamDay.tail

/-- `teamMint`, with a capital letter. -/
def capitalMint : MintRequest := spelledMint "Team"

/-- `teamDay` with the capital letter in its mint. -/
def capitalDay : List Op := spelledDay "Team"

lemma normalizeGroupName_capital : normalizeGroupName .python "Team" = .ok "team" := by
  decide +kernel

section

variable {g : String}

lemma freshIds_spelledDay : FreshIds False (spelledDay g) := by
  have hid : IsTokenId teamMint.tokenId := by decide
  refine ⟨fun o ho => ?_, List.nodup_singleton teamMint.tokenId⟩
  rcases List.mem_cons.mp ho with rfl | ho
  · exact ⟨hid, fun h => h.elim⟩
  · exact validOps_teamDay o (List.mem_of_mem_tail ho)

/-- A mint with another spelling succeeds as `teamMint` does. -/
lemma mintedIn_spelledDay (hg : normalizeGroupName .python g = .ok "team") :
    MintedIn ((play ((Storage.vault .python .inOrder).exec .python) (Op.prog .python)
      VaultWorld.empty (spelledDay g)).1.map fun m => (m.op, m.outcome)) (spelledMint g)
        newYear := by
  have hteam : ((Op.mintToken teamMint newYear).prog .python |>.run
      ((Storage.vault .python .inOrder).exec .python)
      (play ((Storage.vault .python .inOrder).exec .python) (Op.prog .python)
        VaultWorld.empty teamDay.tail).2).1.isOk := by decide +kernel
  refine mem_play_of_isOk ?_
  have hsame : mintToken .python (spelledMint g) newYear = mintToken .python teamMint newYear := by
    refine mintToken_spelling newYear ?_
    show [g].mapM _ = ["team"].mapM _
    rw [List.mapM_cons, List.mapM_cons, hg, normalizeGroupName_self _ (by decide)]
  rw [Op.prog, hsame]
  exact hteam

/-- What is known of that day, once it is over. -/
lemma played_spelledDay (hg : normalizeGroupName .python g = .ok "team")
    {out : List (Moment Op PyError Value (Storage.vault .python .inOrder).State)
      × (Storage.vault .python .inOrder).State}
    (hplayed : play ((Storage.vault .python .inOrder).exec .python) (Op.prog .python)
      VaultWorld.empty (spelledDay g) = out) :
    Session ((Storage.vault .python .inOrder).exec .python).graph (Op.prog .python)
        VaultWorld.empty (out.1.map fun m => (m.op, m.outcome)) out.2
      ∧ (out.1.map fun m => (m.op, m.outcome)).map Prod.fst = spelledDay g
      ∧ MintedIn (out.1.map fun m => (m.op, m.outcome)) (spelledMint g) newYear := by
  rw [← hplayed]
  exact ⟨(play_trace _ _).session, map_fst_play _ _, mintedIn_spelledDay hg⟩

/-- No revocation is among the calls of that day. -/
lemma not_revokedIn_spelledDay {h : OpHistory} (hops : h.map Prod.fst = spelledDay g)
    (t : String) : ¬ RevokedIn h t := by
  rintro ⟨_, _, _, _, hmem⟩
  have hop := List.mem_map_of_mem (f := Prod.fst) hmem
  rw [hops] at hop
  simp [spelledDay, teamDay, teamWork] at hop

end

/-- The token is minted for the capital spelling, and not authorized for it. -/
theorem capital_denied :
    MintedIn ((play ((Storage.vault .python .inOrder).exec .python) (Op.prog .python)
        VaultWorld.empty capitalDay).1.map fun m => (m.op, m.outcome)) capitalMint newYear
      ∧ (((Request.authorizeRuntimeRequest (spelledRequest capitalMint "Team") none newYear).prog
          .python ⟨true, 60⟩).run ((Storage.vault .python .inOrder).exec .python)
          (play ((Storage.vault .python .inOrder).exec .python) (Op.prog .python)
            VaultWorld.empty capitalDay).2).1 ≠ .ok (.success 200 (.decision true))
      ∧ decision teamRecord.tokenId "alice" "Team" newYear.now teamRecord
        ≠ decision teamRecord.tokenId "alice" "team" newYear.now teamRecord := by
  refine ⟨mintedIn_spelledDay normalizeGroupName_capital, ?_, by decide +kernel⟩
  generalize hplayed : play ((Storage.vault .python .inOrder).exec .python) (Op.prog .python)
    VaultWorld.empty capitalDay = out
  obtain ⟨hsession, hops, hminted⟩ := played_spelledDay normalizeGroupName_capital hplayed
  have hrevoked := not_revokedIn_spelledDay hops capitalMint.tokenId
  obtain ⟨reg, hrep, hist⟩ := tokenHistory_session fresh_vaultEmpty hsession
    (by rw [hops]; exact freshIds_spelledDay)
  intro hallowed
  obtain ⟨-, hnormal⟩ := (authorize_spelled hrep hist hminted rfl (by decide) (by decide) none
    (by decide) hrevoked).mp hallowed
  have hspelled := normalizeGroupName_capital.symm.trans hnormal
  exact absurd (Except.ok.inj hspelled) (by decide)

/-- A token of the group ` team ` is authorized for that spelling. -/
theorem spellings_agree_spacedDay :
    (((Request.authorizeRuntimeRequest (spelledRequest (spelledMint " team ") " team ") none
        newYear).prog .python ⟨true, 60⟩).run ((Storage.vault .python .inOrder).exec .python)
        (play ((Storage.vault .python .inOrder).exec .python) (Op.prog .python)
          VaultWorld.empty (spelledDay " team ")).2).1 = .ok (.success 200 (.decision true)) := by
  have hteam : normalizeGroupName .python " team " = .ok "team" := by decide +kernel
  have hstrip : strip " team " = "team" := by decide +kernel
  generalize hplayed : play ((Storage.vault .python .inOrder).exec .python) (Op.prog .python)
    VaultWorld.empty (spelledDay " team ") = out
  obtain ⟨hsession, hops, hminted⟩ := played_spelledDay hteam hplayed
  have hrevoked := not_revokedIn_spelledDay hops (spelledMint " team ").tokenId
  have hids : FreshIds False ((out.1.map fun m => (m.op, m.outcome)).map Prod.fst) := by
    rw [hops]
    exact freshIds_spelledDay
  obtain ⟨hallowed, -⟩ := spellings_agree_iff .python (.vault .python .inOrder) ⟨true, 60⟩
    fresh_vaultEmpty hsession hids
  refine (hallowed (spelledMint " team ") newYear newYear " team " none hminted rfl (by decide)
    (by decide) hrevoked).mpr ⟨by decide, ?_⟩
  rw [hteam, hstrip]

end GofrSec
