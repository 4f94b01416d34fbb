/-
Membership updates of several processes.

* `secure_membershipOp`: every `add_membership`, `remove_membership` and
  `apply_plan`, run by one process amid the client calls of the others, keeps to
  `membershipProtocol`;
* `no_lost_membership`: when no two processes are about one pair of user and group,
  and every change of a memberships document finds the document as its process has
  last read it, each pair ends as its last operation has made it;
* `membership_lost`: without the second condition it need not.
-/
import GofrSec.Calls.Conclusions
import GofrSec.Properties.MembershipProtocol
import GofrSec.Services.Runs

namespace GofrSec

open Calls Protocol VaultPathLayout

variable {π : Type} {V : SharedVault} {touched : π → String → String → Prop}
  {p : π} {o : Op} {L L' : VaultLedger π}

/-- What an operation leaves behind: its own pairs as it has made them, if it
returned, and the other pairs of the process settled. -/
def MembershipEnd (V : SharedVault) (touched : π → String → String → Prop) (p : π) (o : Op)
    (r : Except PyError Value) (L : VaultLedger π) : Prop :=
  OthersSettled V touched p o L ∧ ∀ u g, o.Touches V.platform u g → r.isOk →
    V.hasMembership (V.after L) u g = .ok o.adds

lemma MembershipEnd.error {e : PyError} (h : OthersSettled V touched p o L) :
    MembershipEnd V touched p o (.error e) L := ⟨h, fun _ _ _ h => nomatch h⟩

/-! ### Operations under the contract -/

/-- The frame of a service method. -/
lemma wp_audited_membership {α : Type} {body : RepoProg α} {failure : AuditEvent}
    {success : α → AuditEvent} {Q : Except PyError α → VaultLedger π → Prop}
    (h : body.wp (membershipContract V touched p o) (fun r L' => OthersSettled V touched p o L'
      ∧ ∀ L'', Kept V touched p o (fun _ _ => False) L' L'' → Q r L'') L) :
    (audited body failure success).wp (membershipContract V touched p o) Q L := by
  refine wp_audited_of_append (Prog.wp_mono (fun r L' hQ event => ?_) h)
  refine (Prog.wp_perform _ _ _).mpr ⟨⟨hQ.1, fun h => h.elim⟩, ?_⟩
  rintro r' L'' ⟨hkept, rfl⟩
  exact ⟨rfl, hQ.2 L'' hkept⟩

lemma Kept.trans {changes changes' : String → String → Prop} {L'' : VaultLedger π}
    (h : Kept V touched p o changes L L') (h' : Kept V touched p o changes' L' L'')
    (hle : ∀ u g, changes' u g → changes u g) : Kept V touched p o changes L L'' :=
  ⟨h'.settled, fun u g b hu hc hb =>
    h'.same u g b hu (fun hc' => hc (hle u g hc')) (h.same u g b hu hc hb)⟩

/-- A part of an operation that changes no membership. -/
lemma wp_keeping {α : Type} {c : RepoProg α}
    (hc : c.Uses fun i => o.Calls V.platform i ∧ ∀ u g, ¬ i.Changes u g)
    {changes : String → String → Prop} (h : Kept V touched p o changes L L') :
    c.wp (membershipContract V touched p o) (fun _ L'' => Kept V touched p o changes L L'') L' := by
  refine Prog.wp_of_uses ?_ hc h
  refine fun i L₁ hi hkept => ⟨⟨hkept.settled, hi.1⟩, fun r L₂ hpost => ?_⟩
  exact hkept.trans hpost.1 fun u g hchange => absurd hchange (hi.2 u g)

/-- A call that stores nothing changes no membership. -/
lemma keeping_of_not_stores {P : Platform} {c : RepoCall} (hc : ¬ c.Stores) :
    o.Calls P c ∧ ∀ u g, ¬ c.Changes u g := by
  refine ⟨fun h => absurd h hc, fun u g hchange => ?_⟩
  cases c with
  | membershipAdd m => exact hc trivial
  | membershipRemove u' g' => exact hc trivial
  | _ => exact hchange

/-- What the body of a service method must leave for its frame. -/
def BodyEnd {α : Type} (V : SharedVault) (touched : π → String → String → Prop) (p : π) (o : Op)
    (f : α → Value) (r : Except PyError α) (L : VaultLedger π) : Prop :=
  OthersSettled V touched p o L ∧ ∀ L', Kept V touched p o (fun _ _ => False) L L' →
    MembershipEnd V touched p o (r.map f) L'

lemma BodyEnd.error {α : Type} {f : α → Value} {e : PyError} (h : OthersSettled V touched p o L) :
    BodyEnd V touched p o f (.error e) L := ⟨h, fun _ hkept => .error hkept.settled⟩

/-- The operation has left `b` as the answer for its one pair. -/
lemma BodyEnd.ok {α : Type} {f : α → Value} {a : α} {u n : String}
    (hruns : ∀ u g, o.Touches V.platform u g → touched p u g)
    (hpair : ∀ u' g', o.Touches V.platform u' g' ↔ u' = u ∧ g' = n)
    (hsettled : OthersSettled V touched p o L)
    (h : touched p u n → V.hasMembership (V.after L) u n = .ok o.adds) :
    BodyEnd V touched p o f (.ok a) L := by
  refine ⟨hsettled, fun L' hkept => ⟨hkept.settled, fun u' g' ht _ => ?_⟩⟩
  have htouched := hruns u' g' ht
  obtain ⟨rfl, rfl⟩ := (hpair u' g').mp ht
  exact hkept.same u' g' _ htouched id (h htouched)

section Operations

variable {u g actorSub : String} {correlationId : Option String} {clock : Clock}

/-- `add_membership`. -/
lemma wp_addMembership (ho : o = .addMembership u g actorSub correlationId clock)
    (hruns : ∀ u g, o.Touches V.platform u g → touched p u g)
    (h : OthersSettled V touched p o L) :
    (o.prog V.platform).wp (membershipContract V touched p o) (MembershipEnd V touched p o) L := by
  have hprog : o.prog V.platform = Value.membership <$>
      addMembership V.platform u g actorSub correlationId clock := by
    rw [ho]
    rfl
  rw [hprog]
  refine (Prog.wp_map _ _ _ _).mpr (wp_audited_membership ?_)
  refine (Prog.wp_bind _ _ _ _).mpr ((Prog.wp_lift _ _ _).mpr ?_)
  have hstart : Kept V touched p o (fun _ _ => False) L L := Kept.refl h
  cases hname : normalizeGroupName V.platform g with
  | error e => exact BodyEnd.error h
  | ok n =>
      have hpair : ∀ u' g', o.Touches V.platform u' g' ↔ u' = u ∧ g' = n := by
        intro u' g'
        rw [ho, Op.Touches, hname, Except.ok.injEq, eq_comm, eq_comm (b := g')]
      have hadds : o.adds = true := by
        rw [ho]
        rfl
      rw [Prog.onReturn_ok, Prog.wp_bind]
      refine Prog.wp_mono (fun r L₁ hkept => ?_) (wp_keeping
        (uses_requireActiveGroup (fun _ h => keeping_of_not_stores h.1) n) hstart)
      rcases r with e | group
      · exact BodyEnd.error hkept.settled
      refine (Prog.wp_bind _ _ _ _).mpr (Prog.wp_mono (fun r L₂ hkept₂ => ?_) (wp_keeping
        (uses_call (keeping_of_not_stores id)) hkept))
      rcases r with e | registered
      · exact BodyEnd.error hkept₂.settled
      rw [Prog.onReturn_ok]
      split_ifs
      · refine (Prog.wp_bind _ _ _ _).mpr ((Prog.wp_bind _ _ _ _).mpr ((Prog.wp_perform _ _ _).mpr
          ⟨⟨hkept₂.settled, fun h => h.elim⟩, fun r L₃ hpost => ?_⟩))
        obtain ⟨hkept₃, htold⟩ := hpost
        rcases r with e | ms
        · exact BodyEnd.error hkept₃.settled
        dsimp only [Prog.onReturn_ok]
        cases hfind : ms.find? fun m => m.groupName = n with
        | some m =>
            -- the user is a member already
            refine BodyEnd.ok hruns hpair hkept₃.settled fun hu => ?_
            rw [htold ms rfl n hu, hadds]
            refine congrArg _ (inGroup_iff.mpr ⟨m, List.mem_of_find?_eq_some hfind, ?_⟩)
            simpa using List.find?_some hfind
        | none =>
            refine (Prog.wp_perform _ _ _).mpr ⟨⟨hkept₃.settled, fun _ => ?_⟩, ?_⟩
            · rw [ho]
              exact ⟨rfl, hname⟩
            · rintro r L₄ ⟨hkept₄, hdone⟩
              cases r with
              | error e => exact BodyEnd.error hkept₄.settled
              | ok m =>
                  refine BodyEnd.ok hruns hpair hkept₄.settled fun hu => ?_
                  rw [hadds]
                  exact hdone rfl hu
      · exact BodyEnd.error hkept₂.settled

/-- The removal itself. -/
lemma wp_removal {n : String} (ho : o = .removeMembership u g actorSub correlationId clock)
    (hname : normalizeGroupName V.platform g = .ok n)
    (hruns : ∀ u g, o.Touches V.platform u g → touched p u g)
    (h : OthersSettled V touched p o L) :
    (do
      let removed ← membershipRemove u n
      if removed then pure n else throw (membershipNotFound u n) : RepoProg String).wp
      (membershipContract V touched p o) (BodyEnd V touched p o fun _ => Value.none) L := by
  have hpair : ∀ u' g', o.Touches V.platform u' g' ↔ u' = u ∧ g' = n := by
    intro u' g'
    rw [ho, Op.Touches, hname, Except.ok.injEq, eq_comm, eq_comm (b := g')]
  refine (Prog.wp_bind _ _ _ _).mpr ((Prog.wp_perform _ _ _).mpr ⟨⟨h, fun _ => ?_⟩, ?_⟩)
  · rw [ho]
    exact ⟨rfl, hname⟩
  · rintro r L' ⟨hkept, hdone⟩
    rcases r with e | removed
    · exact BodyEnd.error hkept.settled
    rw [Prog.onReturn_ok]
    split_ifs
    · refine BodyEnd.ok hruns hpair hkept.settled fun hu => ?_
      rw [hdone rfl hu, ho]
      rfl
    · exact BodyEnd.error hkept.settled

/-- `remove_membership`. -/
lemma wp_removeMembership (ho : o = .removeMembership u g actorSub correlationId clock)
    (hruns : ∀ u g, o.Touches V.platform u g → touched p u g)
    (h : OthersSettled V touched p o L) :
    (o.prog V.platform).wp (membershipContract V touched p o) (MembershipEnd V touched p o) L := by
  have hprog : o.prog V.platform = (fun _ => Value.none) <$>
      removeMembership V.platform u g actorSub correlationId clock := by
    rw [ho]
    rfl
  have hstart : Kept V touched p o (fun _ _ => False) L L := Kept.refl h
  rw [hprog]
  refine (Prog.wp_map _ _ _ _).mpr ((Prog.wp_bind _ _ _ _).mpr (wp_audited_membership ?_))
  have hbody : (removeMembershipBody V.platform u g).wp (membershipContract V touched p o)
      (BodyEnd V touched p o fun _ => Value.none) L := by
    refine (Prog.wp_bind _ _ _ _).mpr ((Prog.wp_lift _ _ _).mpr ?_)
    cases hname : normalizeGroupName V.platform g with
    | error e => exact BodyEnd.error h
    | ok n =>
        rw [Prog.onReturn_ok, Prog.wp_bind]
        refine Prog.wp_mono (fun r L₁ hkept => ?_) (wp_keeping
          (uses_requireActiveGroup (fun _ h => keeping_of_not_stores h.1) n) hstart)
        rcases r with e | group
        · exact BodyEnd.error hkept.settled
        refine (Prog.wp_bind _ _ _ _).mpr (Prog.wp_mono (fun r L₂ hkept₂ => ?_) (wp_keeping
          (uses_findMembership (fun _ h => keeping_of_not_stores h.1) u n) hkept))
        rcases r with e | _ | m
        · exact BodyEnd.error hkept₂.settled
        · refine (Prog.wp_bind _ _ _ _).mpr (Prog.wp_mono (fun r L₃ hkept₃ => ?_) (wp_keeping
            (uses_call (keeping_of_not_stores id)) hkept₂))
          rcases r with e | registered
          · exact BodyEnd.error hkept₃.settled
          rw [Prog.onReturn_ok]
          split_ifs
          · exact BodyEnd.error hkept₃.settled
          · exact BodyEnd.error hkept₃.settled
        · rw [Prog.onReturn_ok]
          dsimp only
          split_ifs
          · refine (Prog.wp_bind _ _ _ _).mpr (Prog.wp_mono (fun r L₃ hkept₃ => ?_) (wp_keeping
              (uses_call (keeping_of_not_stores id)) hkept₂))
            rcases r with e | count
            · exact BodyEnd.error hkept₃.settled
            rw [Prog.onReturn_ok, Prog.wp_bind, Prog.wp_lift]
            cases ensureAdminMembershipRemains ((count : Int) - 1) with
            | error e => exact BodyEnd.error hkept₃.settled
            | ok _ => exact wp_removal ho hname hruns hkept₃.settled
          · exact wp_removal ho hname hruns hkept₂.settled
  refine Prog.wp_mono (fun r L' hend => ⟨hend.1, fun L'' hkept => ?_⟩) hbody
  have := hend.2 L'' hkept
  cases r with
  | error e => exact this
  | ok n => exact this

end Operations

/-! ### Start-up -/

/-- The users have been made admins, and those who were are still. -/
def AdminsMade (V : SharedVault) (touched : π → String → String → Prop) (p : π) (o : Op)
    (subs : List String) (L : VaultLedger π) (r : Except PyError Unit) (L' : VaultLedger π) :
    Prop :=
  OthersSettled V touched p o L'
    ∧ (∀ u, touched p u "admin" → V.hasMembership (V.after L) u "admin" = .ok true →
      V.hasMembership (V.after L') u "admin" = .ok true)
    ∧ (r.isOk → ∀ u ∈ subs, touched p u "admin" → V.hasMembership (V.after L') u "admin" = .ok true)

lemma wp_ensureAdmins {grantedAt : String → DateTime} {subs : List String}
    (hcalls : ∀ m : UserGroupMembership, m.groupName = "admin" → m.keycloakSub ∈ subs →
      o.Calls V.platform (.membershipAdd m)) (h : OthersSettled V touched p o L) :
    (ensureAdminMembers grantedAt subs).wp (membershipContract V touched p o)
      (AdminsMade V touched p o subs L) L := by
  induction subs generalizing L with
  | nil => exact ⟨h, fun _ _ hu => hu, fun _ _ hmem => nomatch hmem⟩
  | cons u subs ih =>
      have hrest := fun L' (h : OthersSettled V touched p o L') =>
        ih (fun m hg hu => hcalls m hg (List.mem_cons_of_mem _ hu)) h
      refine (Prog.wp_bind _ _ _ _).mpr ((Prog.wp_perform _ _ _).mpr ⟨⟨h, fun h => h.elim⟩, ?_⟩)
      rintro r L₁ ⟨hkept, htold⟩
      have hsame : ∀ v, touched p v "admin" → V.hasMembership (V.after L) v "admin" = .ok true →
          V.hasMembership (V.after L₁) v "admin" = .ok true :=
        fun v hv hb => hkept.same v "admin" true hv id hb
      rcases r with e | member
      · exact ⟨hkept.settled, hsame, fun h => nomatch h⟩
      rw [Prog.onReturn_ok]
      split_ifs with hmember
      · have hnot : member = false := by simpa using hmember
        refine (Prog.wp_bind _ _ _ _).mpr ((Prog.wp_perform _ _ _).mpr
          ⟨⟨hkept.settled, hcalls _ rfl List.mem_cons_self⟩, ?_⟩)
        rintro r L₂ ⟨hkept₂, hdone⟩
        have hsame₂ : ∀ v, touched p v "admin" →
            V.hasMembership (V.after L) v "admin" = .ok true →
            V.hasMembership (V.after L₂) v "admin" = .ok true := by
          intro v hv hb
          refine hkept₂.same v "admin" true hv (fun hchange => ?_) (hsame v hv hb)
          obtain rfl : u = v := hchange.1
          have hfalse : V.hasMembership (V.after L₁) u "admin" = .ok member := htold member rfl hv
          rw [hsame u hv hb, hnot] at hfalse
          exact nomatch hfalse
        rcases r with e | m
        · exact ⟨hkept₂.settled, hsame₂, fun h => nomatch h⟩
        refine Prog.wp_mono (fun r L₃ hend => ?_) (hrest L₂ hkept₂.settled)
        obtain ⟨hsettled, hkeep, hall⟩ := hend
        refine ⟨hsettled, fun v hv hb => hkeep v hv (hsame₂ v hv hb), fun hr v hmem hv => ?_⟩
        rcases List.mem_cons.mp hmem with rfl | hmem
        · exact hkeep v hv (hdone rfl hv)
        · exact hall hr v hmem hv
      · have hmade : member = true := by simpa using hmember
        refine Prog.wp_mono (fun r L₃ hend => ?_) (hrest L₁ hkept.settled)
        obtain ⟨hsettled, hkeep, hall⟩ := hend
        refine ⟨hsettled, fun v hv hb => hkeep v hv (hsame v hv hb), fun hr v hmem hv => ?_⟩
        rcases List.mem_cons.mp hmem with rfl | hmem
        · exact hkeep v hv (hmade ▸ htold member rfl hv)
        · exact hall hr v hmem hv

/-- `apply_plan`. -/
lemma wp_applyPlan {subjects : List String} {createdAt : DateTime} {grantedAt : String → DateTime}
    (ho : o = .applyPlan subjects createdAt grantedAt)
    (hruns : ∀ u g, o.Touches V.platform u g → touched p u g)
    (h : OthersSettled V touched p o L) :
    (o.prog V.platform).wp (membershipContract V touched p o) (MembershipEnd V touched p o) L := by
  have hprog : o.prog V.platform = Value.plan <$> applyPlan subjects createdAt grantedAt := by
    rw [ho]
    rfl
  have hstart : Kept V touched p o (fun _ _ => False) L L := Kept.refl h
  have hgroup : ∀ group, o.Calls V.platform (.groupUpsert group)
      ∧ ∀ u g, ¬ (RepoCall.groupUpsert group).Changes u g := by
    intro group
    rw [ho]
    exact ⟨fun _ => trivial, fun _ _ => id⟩
  rw [hprog]
  refine (Prog.wp_map _ _ _ _).mpr ((Prog.wp_bind _ _ _ _).mpr ?_)
  refine Prog.wp_mono (fun r L₁ hkept => ?_) (wp_keeping
    (uses_ensureReservedGroups (fun _ h => keeping_of_not_stores h.1) fun group _ => hgroup group)
    hstart)
  rcases r with e | _
  · exact .error hkept.settled
  have hcalls : ∀ m : UserGroupMembership, m.groupName = "admin" →
      m.keycloakSub ∈ normalizeSubjects subjects → o.Calls V.platform (.membershipAdd m) := by
    intro m hg hu
    rw [ho]
    exact fun _ => ⟨hg, hu⟩
  refine (Prog.wp_bind _ _ _ _).mpr (Prog.wp_mono (fun r L₂ hend => ?_)
    (wp_ensureAdmins hcalls hkept.settled))
  obtain ⟨hsettled, -, hall⟩ := hend
  rcases r with e | _
  · exact .error hsettled
  · refine ⟨hsettled, fun u g ht _ => ?_⟩
    have htouched := hruns u g ht
    rw [ho] at ht
    obtain ⟨hu, rfl⟩ := ht
    rw [hall rfl u hu htouched, ho]
    rfl

/-- **Every operation on memberships stays within its postcondition.** -/
theorem wp_membershipOp (ho : o.IsMembership)
    (hruns : ∀ u g, o.Touches V.platform u g → touched p u g)
    (h : OthersSettled V touched p o L) :
    (o.prog V.platform).wp (membershipContract V touched p o) (MembershipEnd V touched p o) L := by
  cases o with
  | applyPlan subjects createdAt grantedAt => exact wp_applyPlan rfl hruns h
  | addMembership u g actorSub correlationId clock => exact wp_addMembership rfl hruns h
  | removeMembership u g actorSub correlationId clock => exact wp_removeMembership rfl hruns h
  | _ => exact ho.elim

/-! ### Operations amid the steps of others -/

/-- A process between two operations: all its pairs are settled. -/
def AllSettled (V : SharedVault) (touched : π → String → String → Prop) (p : π) (os : List Op)
    (L : VaultLedger π) : Prop :=
  (∀ o ∈ os, o.IsMembership ∧ ∀ u g, o.Touches V.platform u g → touched p u g)
    ∧ ∀ u g, touched p u g → Settled V u g L

section Processes

variable [DecidableEq π] (hdisjoint : ∀ p q u g, touched p u g → touched q u g → p = q)

include hdisjoint

lemma stable_allSettled (os : List Op) :
    (membershipProtocol V touched).Stable p (AllSettled V touched p os) := by
  intro L e h he
  exact ⟨h.1, fun u g hu => stable_settled hdisjoint hu L e (h.2 u g hu) he⟩

lemma stable_membershipEnd (hruns : ∀ u g, o.Touches V.platform u g → touched p u g)
    (r : Except PyError Value) :
    (membershipProtocol V touched).Stable p (MembershipEnd V touched p o r) := by
  intro L e h he
  refine ⟨stable_othersSettled hdisjoint L e h.1 he, fun u g ht hr => ?_⟩
  exact stable_hasMembership hdisjoint (hruns u g ht) _ L e (h.2 u g ht hr) he

/-- **Every operation on memberships keeps to the protocol, whatever the other
processes do meanwhile.** -/
theorem secure_membershipOp (o : Op) (os : List Op) (L : VaultLedger π)
    (hidle : AllSettled V touched p (o :: os) L) :
    (membershipProtocol V touched).Runs p o ∧ (membershipProtocol V touched).Secure p o (V.proc o)
      (fun r L' => (membershipProtocol V touched).Guar L' (.finish p o r)
        ∧ AllSettled V touched p os (.finish p o r :: L')) L := by
  obtain ⟨hops, hsettled⟩ := hidle
  obtain ⟨ho, hruns⟩ := hops o List.mem_cons_self
  refine ⟨⟨ho, hruns⟩, ?_⟩
  have hsecure := secure_translate (secure_membershipCall hdisjoint ho)
    (fun r => stable_membershipEnd hdisjoint hruns r)
    (wp_membershipOp ho hruns fun u g hu _ => hsettled u g hu)
  refine hsecure.mono fun r L' hend => ⟨hend.2, fun o' ho' => ?_, fun u g hu => ?_⟩
  · exact hops o' (List.mem_cons_of_mem _ ho')
  by_cases ht : o.Touches V.platform u g
  · -- this operation is the last about the pair
    intro L₂ q o' v L₁ hL ho' hlast
    rcases List.cons_eq_append_iff.mp hL with ⟨rfl, hcons⟩ | ⟨L₂', rfl, -⟩
    · obtain ⟨heq, -⟩ := List.cons.inj hcons
      obtain ⟨-, rfl, rfl⟩ := Event.finish.inj heq
      exact hend.2 u g ht rfl
    · exact absurd ht (hlast p o r List.mem_cons_self)
  · refine (hend.1 u g hu ht).cons (fun q o' r' heq => ?_) fun b hb => hb
    obtain ⟨-, rfl, -⟩ := Event.finish.inj heq
    exact ht

end Processes

/-! ### No membership is lost -/

/-- What the processes bring: operations on memberships only, and no pair of user
and group that two of them are about. -/
structure SeparatePairs (P : Platform) (todo : π → List Op) : Prop where
  membership : ∀ p, ∀ o ∈ todo p, o.IsMembership
  separate : ∀ p q o o' u g, o ∈ todo p → o' ∈ todo q → o.Touches P u g → o'.Touches P u g → p = q

/-- **No membership is lost between processes that do not race.** Any number of
processes share one Vault and run operations on memberships, no two of them about
one pair of user and group, their client calls interleaved and any of them raising
without effect. If every change of a memberships document finds the document as its
process has last read it, then after all operations each pair is as its last
operation that returned has made it. -/
theorem no_lost_membership [DecidableEq π] {todo : π → List Op}
    (hpairs : SeparatePairs V.platform todo)
    {S : System π Op VaultCall VaultCall.Res PyError Value VaultWorld} (hreach : V.Reaches todo S)
    (hfinished : S.Finished) (hunraced : Meets V.Unraced S.ledger) {v : Value} {u g : String}
    {L₁ L₂ : VaultLedger π} (hledger : S.ledger = L₂ ++ .finish p o (.ok v) :: L₁)
    (ho : o.Touches V.platform u g)
    (hlast : ∀ q o' r, .finish q o' r ∈ L₂ → ¬ o'.Touches V.platform u g) :
    V.hasMembership (V.after S.ledger) u g = .ok o.adds := by
  let touched : π → String → String → Prop := fun p u g => ∃ o ∈ todo p, o.Touches V.platform u g
  have hdisjoint : ∀ p q u g, touched p u g → touched q u g → p = q := by
    rintro p q u g ⟨o, ho, hu⟩ ⟨o', ho', hu'⟩
    exact hpairs.separate p q o o' u g ho ho' hu hu'
  have hstable : ∀ p os, (membershipProtocol V touched).Stable p (AllSettled V touched p os) :=
    fun p os => stable_allSettled hdisjoint os
  have hsound := Reachable.sound hstable (fun _ _ _ _ => trivial) ?_
    (fun p o os L => secure_membershipOp hdisjoint o os L) hreach hunraced
  · obtain ⟨hallowed, hsafe⟩ := hsound
    have hidle : AllSettled V touched p [] S.ledger := by
      have hp := hsafe p
      rwa [hfinished p] at hp
    rw [hledger] at hallowed
    have htouched : touched p u g := hallowed.at.runs.2 u g ho
    exact hidle.2 u g htouched L₂ p o v L₁ hledger ho hlast
  · intro p
    refine ⟨fun o ho => ⟨hpairs.membership p o ho, fun u g hu => ⟨o, ho, hu⟩⟩, fun u g _ => ?_⟩
    intro L₂ q o' v L₁ hL
    exact absurd hL.symm (List.append_ne_nil_of_right_ne_nil _ (List.cons_ne_nil _ _))

/-! ### Two grants on concrete data -/

/-- `root` has made the groups `red` and `blue`, and `alice` and `bob` have
registered. -/
def twoGroups : SharedVault := .afterOps
  [.registerSelf (keycloakUser "bob") none newYear,
    .registerSelf (keycloakUser "alice") none newYear,
    .createGroup "blue" none "root" none newYear,
    .createGroup "red" none "root" none newYear]

/-- One process adds `alice` to `red`, the other adds a user to `blue`. -/
def twoGrants (user : String) : Bool → List Op
  | false => [.addMembership "alice" "red" "root" none newYear]
  | true => [.addMembership user "blue" "root" none newYear]

/-- The second process runs after the first has read the memberships, before it
writes them. -/
def betweenReadAndWrite : List Bool :=
  List.replicate 5 false ++ List.replicate 9 true ++ List.replicate 3 false

lemma separatePairs_twoGrants (user : String) : SeparatePairs .python (twoGrants user) where
  membership p o ho := by
    cases p
    · obtain rfl := List.mem_singleton.mp ho
      exact trivial
    · obtain rfl := List.mem_singleton.mp ho
      exact trivial
  separate p q o o' u g ho ho' hu hu' := by
    have hred : normalizeGroupName .python "red" = .ok "red" := by decide +kernel
    have hblue : normalizeGroupName .python "blue" = .ok "blue" := by decide +kernel
    cases p <;> cases q
    · rfl
    · obtain rfl := List.mem_singleton.mp ho
      obtain rfl := List.mem_singleton.mp ho'
      have hboth := hred.symm.trans (hu.2.trans (hu'.2.symm.trans hblue))
      exact absurd (Except.ok.inj hboth) (by decide)
    · obtain rfl := List.mem_singleton.mp ho
      obtain rfl := List.mem_singleton.mp ho'
      have hboth := hred.symm.trans (hu'.2.trans (hu.2.symm.trans hblue))
      exact absurd (Except.ok.inj hboth) (by decide)
    · rfl

/-- A read of the path. -/
def readsPath (path : String) : VaultCall → Bool
  | .readSecret k => k = path
  | _ => false

/-- The process has read the document in its operation, and no call since has been one that
changes it. -/
def readAndKept (p : Bool) (path : String) : VaultLedger Bool → Bool
  | [] => false
  | .finish q _ _ :: L => q ≠ p && readAndKept p path L
  | .call q _ i r _ :: L =>
      if q = p ∧ readsPath path i then r.isOk
      else i.target ≠ some path && readAndKept p path L

/-- What the process has read is the document still. -/
lemma readsOf_of_readAndKept {p : Bool} {path : String} {L : VaultLedger Bool}
    (hfits : Meets (Fits V.act V.start) L) (h : readAndKept p path L) :
    (readsOf p path L).head? = some (.ok ((V.after L).read path)) := by
  induction L with
  | nil => cases h
  | cons e L ih =>
      obtain ⟨hfit, hbefore⟩ := meets_cons.mp hfits
      cases e with
      | finish q o r =>
          rw [readAndKept, Bool.and_eq_true, decide_eq_true_eq] at h
          have hother : (Event.finish q o r : VaultEvent Bool).process ≠ p := h.1
          rw [readsOf_of_ne hother]
          exact ih hbefore h.2
      | call q o i r w =>
          have hact : V.act i (V.after L) r w := hfit
          rw [readAndKept] at h
          split_ifs at h with hread
          · -- the process itself reads the document
            obtain ⟨rfl, hpath⟩ := hread
            cases i with
            | readSecret k =>
                obtain rfl : k = path := of_decide_eq_true hpath
                obtain ⟨rfl, hfound⟩ := act_readSecret hact
                cases r with
                | error e => cases h
                | ok found =>
                    rw [readsOf_readSecret, List.head?_cons, hfound found rfl]
                    rfl
            | _ => cases hpath
          · rw [Bool.and_eq_true, decide_eq_true_eq] at h
            have hsame : w.read path = (V.after L).read path := read_of_act hact fun _ _ => h.1
            have hreads : readsOf p path (.call q o i r w :: L) = readsOf p path L := by
              by_cases hq : q = p
              · rw [readsOf, readsOf, hq, ongoing_call, List.filterMap_cons]
                cases i with
                | readSecret k =>
                    have hk : k ≠ path := fun hk => hread ⟨hq, decide_eq_true hk⟩
                    rw [readAt, if_neg hk]
                | _ => rfl
              · exact readsOf_of_ne hq
            rw [hreads, ih hbefore h.2]
            exact congrArg (fun d => some (Except.ok d)) hsame.symm

/-- Every change of a document is of one that its process has read and that has been kept. -/
def changesKept : VaultLedger Bool → Bool
  | [] => true
  | .finish _ _ _ :: L => changesKept L
  | .call p _ i _ _ :: L => (i.target.all fun path => readAndKept p path L) && changesKept L

lemma meets_unraced_of_changesKept {L : VaultLedger Bool} (hfits : Meets (Fits V.act V.start) L)
    (h : changesKept L) : Meets V.Unraced L := by
  induction L with
  | nil => exact meets_nil
  | cons e L ih =>
      have hbefore := (meets_cons.mp hfits).2
      cases e with
      | finish p o r => exact meets_cons.mpr ⟨trivial, ih hbefore h⟩
      | call p o i r w =>
          rw [changesKept, Bool.and_eq_true] at h
          refine meets_cons.mpr ⟨fun u v htarget _ => ?_, ih hbefore h.2⟩
          have hkept := h.1
          rw [htarget, Option.all_some] at hkept
          exact readsOf_of_readAndKept hbefore hkept

/-- The second process runs after the first. -/
def oneAfterAnother : List Bool := List.replicate 9 false ++ List.replicate 9 true

/-- Every step of such a run does what its call can do. -/
lemma fits_of_reaches {todo : Bool → List Op}
    {S : System Bool Op VaultCall VaultCall.Res PyError Value VaultWorld}
    (hreach : V.Reaches todo S) : Meets (Fits V.act V.start) S.ledger := by
  have huses : ∀ o, (V.proc o).Uses fun _ => True := fun o =>
    Prog.uses_translate (fun c => (uses_vaultProgram V.platform V.deployment c).mono
      fun _ _ => trivial) _
  exact fun L₂ e L₁ hL => (Reachable.makes huses hreach L₂ e L₁ hL).fits

/-- What an operation that has ended has granted, if it is a grant that returned. -/
def endedGrant : VaultEvent Bool → Option (Option (String × String))
  | .finish _ (.addMembership u g _ _ _) (.ok _) => some (some (u, g))
  | .finish _ _ _ => some none
  | .call _ _ _ _ _ => none

lemma endedGrant_eq_some {e : VaultEvent Bool} {u g : String}
    (h : endedGrant e = some (some (u, g))) : ∃ p actorSub correlationId clock v,
      e = .finish p (.addMembership u g actorSub correlationId clock) (.ok v) := by
  unfold endedGrant at h
  split at h
  · obtain ⟨rfl, rfl⟩ := Prod.mk.inj (Option.some.inj (Option.some.inj h))
    exact ⟨_, _, _, _, _, rfl⟩
  · cases h
  · cases h

lemma endedGrant_ne_none (p : Bool) (o : Op) (r : Except PyError Value) :
    endedGrant (.finish p o r) ≠ none := by
  unfold endedGrant
  split
  · rintro ⟨⟩
  · rintro ⟨⟩
  · next heq => cases heq

/-- Two grants to one user, one after another, leave both as they have made them. -/
theorem no_lost_membership_twoGrants :
    ∃ S, twoGroups.Reaches (twoGrants "alice") S ∧ S.Finished
      ∧ twoGroups.hasMembership (twoGroups.after S.ledger) "alice" "red" = .ok true
      ∧ twoGroups.hasMembership (twoGroups.after S.ledger) "alice" "blue" = .ok true := by
  have hreach := twoGroups.reaches_run (twoGrants "alice") oneAfterAnother
  have hidle : ∀ p, ((twoGroups.run (twoGrants "alice") oneAfterAnother).worker p).isIdle := by
    decide +kernel
  have hkept : changesKept (twoGroups.run (twoGrants "alice") oneAfterAnother).ledger := by
    decide +kernel
  have hgrants : (twoGroups.run (twoGrants "alice") oneAfterAnother).ledger.filterMap endedGrant
      = [some ("alice", "blue"), some ("alice", "red")] := by decide +kernel
  have hred : normalizeGroupName .python "red" = .ok "red" := by decide +kernel
  have hblue : normalizeGroupName .python "blue" = .ok "blue" := by decide +kernel
  generalize twoGroups.run (twoGrants "alice") oneAfterAnother = S at hreach hidle hkept hgrants
  have hunraced := meets_unraced_of_changesKept (fits_of_reaches hreach) hkept
  have hfinished := System.finished_of_isIdle hidle
  obtain ⟨L₃, e, L, hledger, hcalls, hlast, hrest⟩ := List.filterMap_eq_cons_iff.mp hgrants
  obtain ⟨L₂, e', L₁, rfl, hcalls', hfirst, -⟩ := List.filterMap_eq_cons_iff.mp hrest
  obtain ⟨p, actorSub, correlationId, clock, v, rfl⟩ := endedGrant_eq_some hlast
  obtain ⟨p', actorSub', correlationId', clock', v', rfl⟩ := endedGrant_eq_some hfirst
  refine ⟨S, hreach, hfinished, ?_, ?_⟩
  · have hfirst : S.ledger = (L₃ ++ .finish p (.addMembership "alice" "blue" actorSub
        correlationId clock) (.ok v) :: L₂) ++ .finish p' (.addMembership "alice" "red" actorSub'
          correlationId' clock') (.ok v') :: L₁ := by
      rw [hledger, List.append_assoc, List.cons_append]
    refine no_lost_membership (separatePairs_twoGrants "alice") hreach hfinished hunraced hfirst
      ⟨rfl, hred⟩ fun q o r hmem ho => ?_
    rcases List.mem_append.mp hmem with hmem | hmem
    · exact endedGrant_ne_none q o r (hcalls _ hmem)
    rcases List.mem_cons.mp hmem with heq | hmem
    · -- the grant that follows is of another group
      obtain ⟨-, rfl, -⟩ := Event.finish.inj heq
      exact absurd (Except.ok.inj (hblue.symm.trans ho.2)) (by decide)
    · exact endedGrant_ne_none q o r (hcalls' _ hmem)
  · exact no_lost_membership (separatePairs_twoGrants "alice") hreach hfinished hunraced hledger
      ⟨rfl, hblue⟩ fun q o r hmem _ => endedGrant_ne_none q o r (hcalls _ hmem)

/-- The second process has returned from a grant before the first has returned from
another. -/
def grantedBefore : VaultLedger Bool → Option ((String × String) × (String × String))
  | .finish false (.addMembership u g _ _ _) _ :: .call _ _ _ _ _ :: .call _ _ _ _ _
      :: .finish true (.addMembership u' g' _ _ _) (.ok _) :: _ => some ((u, g), (u', g'))
  | _ => none

/-- Without the second condition a membership can be lost: the first process writes
the document of `alice` as it was before the second added her to `blue`. Both
operations return, and she is not in `blue`. -/
theorem membership_lost :
    SeparatePairs twoGroups.platform (twoGrants "alice")
      ∧ ∃ S, twoGroups.Reaches (twoGrants "alice") S ∧ S.Finished
        ∧ ∃ p o v L₂ L₁, S.ledger = L₂ ++ .finish p o (.ok v) :: L₁
          ∧ o.Touches twoGroups.platform "alice" "blue" ∧ o.adds = true
          ∧ (∀ q o' r, .finish q o' r ∈ L₂ → ¬ o'.Touches twoGroups.platform "alice" "blue")
          ∧ twoGroups.hasMembership (twoGroups.after S.ledger) "alice" "blue" = .ok false := by
  have hreach := twoGroups.reaches_run (twoGrants "alice") betweenReadAndWrite
  have hidle : ∀ p, ((twoGroups.run (twoGrants "alice") betweenReadAndWrite).worker p).isIdle := by
    decide +kernel
  have hshape : grantedBefore (twoGroups.run (twoGrants "alice") betweenReadAndWrite).ledger
      = some (("alice", "red"), ("alice", "blue")) := by decide +kernel
  have hanswer : twoGroups.hasMembership (twoGroups.after
      (twoGroups.run (twoGrants "alice") betweenReadAndWrite).ledger) "alice" "blue"
        = .ok false := by decide +kernel
  refine ⟨separatePairs_twoGrants "alice", _, hreach, System.finished_of_isIdle hidle, ?_⟩
  generalize twoGroups.run (twoGrants "alice") betweenReadAndWrite = S at hshape hanswer
  unfold grantedBefore at hshape
  split at hshape
  · next u g actorSub correlationId clock r p₁ o₁ i₁ r₁ w₁ p₂ o₂ i₂ r₂ w₂ u' g' actorSub'
      correlationId' clock' v L heq =>
      obtain ⟨hred, hblue⟩ := Prod.mk.inj (Option.some.inj hshape)
      obtain ⟨rfl, rfl⟩ := Prod.mk.inj hred
      obtain ⟨rfl, rfl⟩ := Prod.mk.inj hblue
      refine ⟨true, _, v, [_, _, _], L, heq, ⟨rfl, by decide +kernel⟩, rfl, ?_, hanswer⟩
      intro q o' r' hmem ho'
      have hop : o' = .addMembership "alice" "red" actorSub correlationId clock := by
        simp only [List.mem_cons, Event.finish.injEq, reduceCtorEq, List.not_mem_nil,
          or_false] at hmem
        exact hmem.2.1
      rw [hop] at ho'
      have hgroup : normalizeGroupName .python "red" = .ok "red" := by decide +kernel
      exact absurd (Except.ok.inj (hgroup.symm.trans ho'.2)) (by decide)
  · exact nomatch hshape

end GofrSec
