/-
Access control by groups, with grants that lend group permissions.

* `AccessControl`: who is registered, which groups there are, who is a member of which
  group, and the grants that were issued: a grant lends groups to its owner until it expires
  or is revoked; the members of the `root` group administer all of it;
* `Command`, `Reply`: what can be asked of it, and what it replies;
* `AccessControl.attempt`, `AccessControl.step`: how it replies to a command, and what
  becomes of it; a command that is refused changes nothing;
* `define_taken`, `define_free` and their siblings: what the commands do, case by case;
* `Grant.Permits`: whether a grant permits its owner to use a group at a time.

Users, groups, grant ids and times are of any types.
-/
import Mathlib.Data.Set.Insert

open scoped Classical

/-- What a grant lends, and until when. -/
structure Terms (G τ : Type) where
  groups : Set G
  expires : Option τ
  revoked : Prop

/-- The terms that an owner was granted. -/
structure Grant (U G τ : Type) extends Terms G τ where
  owner : U

/-- The state of the access control. -/
@[ext] structure AccessControl (U G T τ : Type) where
  users : Set U
  groups : Set G
  members : Set (U × G)
  grants : T → Option (Grant U G τ)

/-- Why a command is refused. -/
inductive Refusal where
  | forbidden
  | missing
  | conflict
  | malformed
  | unavailable
  | failed
  deriving DecidableEq, Repr

/-- A question about a grant: whether it permits `owner` to use `target`. -/
structure Query (U G T : Type) where
  grant : T
  owner : U
  target : G

/-- What can be asked of the access control. A name of a group, or a query, is missing if
its text was malformed; `outside` is what something else answers that is consulted. -/
inductive Command (U G T τ : Type) where
  | boot (subjects : Set U)
  | register (caller : U)
  | define (caller : U) (group : Option G)
  | enrol (caller user : U) (group : Option G)
  | expel (caller user : U) (group : Option G)
  | issue (caller owner : U) (groups : List (Option G)) (expires : Except Refusal τ) (id : T)
      (signing : Bool) (outside : Except Refusal Unit)
  | inspect (caller : U) (id : T)
  | revoke (caller : U) (id : T)
  | profile (caller : U)
  | holdings (caller : U)
  | authorize (query : Option (Query U G T)) (now : τ)
  | consult (outside : Except Refusal Unit)

/-- The caller of a command that only admins may give. -/
def Command.admin {U G T τ : Type} : Command U G T τ → Option U
  | .define caller _ => some caller
  | .enrol caller _ _ => some caller
  | .expel caller _ _ => some caller
  | .issue caller _ _ _ _ _ _ => some caller
  | .inspect caller _ => some caller
  | .revoke caller _ => some caller
  | _ => none

/-- What the access control replies. -/
inductive Reply (U G T τ : Type) where
  | done
  | refused (refusal : Refusal)
  | registered (new : Prop)
  | granted (id : T) (grant : Grant U G τ)
  | profile (registered : Prop) (groups : Set G)
  | holdings (held : Set (T × Terms G τ))
  | decision (allowed : Prop)

variable {U G T τ : Type}

/-- The grant permits `owner` to use `target`, at the time `now`. -/
def Grant.Permits [LT τ] (grant : Grant U G τ) (owner : U) (target : G) (now : τ) : Prop :=
  grant.owner = owner ∧ ¬ grant.revoked ∧ (∀ t, grant.expires = some t → now < t)
    ∧ target ∈ grant.groups

/-- The same grant, revoked. -/
def Grant.revoke (grant : Grant U G τ) : Grant U G τ := { grant with revoked := True }

/-! ### Refusing -/

/-- Refuse unless a condition holds. -/
noncomputable def require (p : Prop) (refusal : Refusal) : Except Refusal Unit :=
  if p then .ok () else .error refusal

/-- Refuse what is malformed. -/
def wellFormed {α : Type} : Option α → Except Refusal α
  | some a => .ok a
  | none => .error .malformed

section

variable {α : Type} {p : Prop} {refusal : Refusal}

lemma require_bind (h : p) (f : Unit → Except Refusal α) : (require p refusal >>= f) = f () := by
  rw [require, if_pos h]
  rfl

lemma require_bind_error (h : ¬ p) (f : Unit → Except Refusal α) :
    (require p refusal >>= f) = .error refusal := by
  rw [require, if_neg h]
  rfl

/-- The names of a list that has no malformed one. -/
lemma mapM_wellFormed (as : List α) : (as.map some).mapM wellFormed = .ok as := by
  induction as with
  | nil => rfl
  | cons a as ih =>
      rw [List.map_cons, List.mapM_cons, ih]
      rfl

/-- One malformed name is enough. -/
lemma mapM_wellFormed_error {as : List (Option α)} (h : none ∈ as) :
    as.mapM wellFormed = .error .malformed := by
  induction as with
  | nil => cases h
  | cons a as ih =>
      rw [List.mapM_cons]
      cases a with
      | none => rfl
      | some a =>
          rw [ih ((List.mem_cons.mp h).resolve_left (by simp))]
          rfl

end

/-- The reply to a command, with what becomes of the access control. -/
abbrev Verdict (U G T τ : Type) : Type := Reply U G T τ × AccessControl U G T τ

namespace AccessControl

/-- Nobody is registered, and nothing is defined or granted. -/
def empty : AccessControl U G T τ := ⟨∅, ∅, ∅, fun _ => none⟩

variable (root : G) (a : AccessControl U G T τ)

/-- A member of the root group. -/
def IsAdmin (u : U) : Prop := (u, root) ∈ a.members

/-! ### Commands -/

/-- Start up: the subjects become admins. -/
def boot (subjects : Set U) : AccessControl U G T τ :=
  { a with
    groups := insert root a.groups
    members := a.members ∪ {p | p.1 ∈ subjects ∧ p.2 = root} }

/-- Register a user. -/
def register (u : U) : AccessControl U G T τ := { a with users := insert u a.users }

/-- File a grant under an id. -/
def file [DecidableEq T] (id : T) (grant : Grant U G τ) : AccessControl U G T τ :=
  { a with grants := Function.update a.grants id (some grant) }

/-- Define a group. -/
noncomputable def define (group : Option G) : Except Refusal (Verdict U G T τ) := do
  let g ← wellFormed group
  require (g ≠ root ∧ g ∉ a.groups) .conflict
  return (.done, { a with groups := insert g a.groups })

/-- Make a registered user a member of a group. -/
noncomputable def enrol (user : U) (group : Option G) : Except Refusal (Verdict U G T τ) := do
  let g ← wellFormed group
  require (g ∈ a.groups ∧ user ∈ a.users) .missing
  return (.done, { a with members := insert (user, g) a.members })

/-- End a membership, unless it is that of the last admin. -/
noncomputable def expel (user : U) (group : Option G) : Except Refusal (Verdict U G T τ) := do
  let g ← wellFormed group
  require (g ∈ a.groups ∧ (user, g) ∈ a.members) .missing
  require (g = root → ∃ v, v ≠ user ∧ a.IsAdmin root v) .conflict
  return (.done, { a with members := a.members \ {(user, g)} })

/-- Lend groups to a user, unless the grant cannot expire or something else refuses. -/
def lend [DecidableEq T] (owner : U) (names : List G) (expires : Except Refusal τ) (id : T)
    (outside : Except Refusal Unit) : Except Refusal (Verdict U G T τ) := do
  let expiry ← expires
  outside
  let grant : Grant U G τ := ⟨⟨{g | g ∈ names}, some expiry, False⟩, owner⟩
  return (.granted id grant, a.file id grant)

/-- Issue a grant of defined groups, none of them the root group, to a registered user. -/
noncomputable def issue [DecidableEq T] (owner : U) (groups : List (Option G))
    (expires : Except Refusal τ) (id : T) (outside : Except Refusal Unit) :
    Except Refusal (Verdict U G T τ) := do
  require (owner ∈ a.users) .missing
  let names ← groups.mapM wellFormed
  require (root ∉ names) .conflict
  require (names ≠ []) .malformed
  require (∀ g ∈ names, g ∈ a.groups) .missing
  a.lend owner names expires id outside

/-- The grant of an id. -/
def find (id : T) : Except Refusal (Grant U G τ) :=
  match a.grants id with
  | some grant => .ok grant
  | none => .error .missing

/-- Show a grant. -/
def inspect (id : T) : Except Refusal (Verdict U G T τ) := do
  return (.granted id (← a.find id), a)

/-- Revoke a grant. -/
noncomputable def revoke [DecidableEq T] (id : T) : Except Refusal (Verdict U G T τ) := do
  let grant ← a.find id
  return (.granted id grant.revoke, a.file id grant.revoke)

/-- The terms that a user holds. -/
def held (u : U) : Set (T × Terms G τ) :=
  {p | ∃ grant, a.grants p.1 = some grant ∧ grant.owner = u ∧ grant.toTerms = p.2}

/-- The query is permitted. -/
def Allows [LT τ] (query : Query U G T) (now : τ) : Prop :=
  ∃ grant, a.grants query.grant = some grant ∧ grant.Permits query.owner query.target now

/-- What a command does, where its caller is an admin if it takes one. -/
noncomputable def perform [DecidableEq T] [LT τ] :
    Command U G T τ → Except Refusal (Verdict U G T τ)
  | .boot subjects => .ok (.done, a.boot root subjects)
  | .register caller => .ok (.registered (caller ∉ a.users), a.register caller)
  | .define _ group => a.define root group
  | .enrol _ user group => a.enrol user group
  | .expel _ user group => a.expel root user group
  | .issue _ owner groups expires id signing outside => do
      require (signing = true) .unavailable
      a.issue root owner groups expires id outside
  | .inspect _ id => a.inspect id
  | .revoke _ id => a.revoke id
  | .profile caller => .ok (.profile (caller ∈ a.users) {g | (caller, g) ∈ a.members}, a)
  | .holdings caller => .ok (.holdings (a.held caller), a)
  | .authorize query now => do
      return (.decision (a.Allows (← wellFormed query) now), a)
  | .consult outside => do
      outside
      return (.done, a)

/-- Attempt a command: those of an admin are forbidden to others. -/
noncomputable def attempt [DecidableEq T] [LT τ] (c : Command U G T τ) :
    Except Refusal (Verdict U G T τ) := do
  require (∀ u, c.admin = some u → a.IsAdmin root u) .forbidden
  a.perform root c

/-- How an attempt ends: what is refused changes nothing. -/
def conclude : Except Refusal (Verdict U G T τ) → Verdict U G T τ
  | .ok out => out
  | .error refusal => (.refused refusal, a)

/-- **The access control as a machine**: the reply to a command, and the next state. -/
noncomputable def step [DecidableEq T] [LT τ] (c : Command U G T τ) : Verdict U G T τ :=
  a.conclude (a.attempt root c)

/-! ### What commands do -/

variable {root a}

/-- A command of an admin. -/
lemma attempt_admin [DecidableEq T] [LT τ] {c : Command U G T τ} {u : U} (h : c.admin = some u) :
    a.attempt root c = (do
      require (a.IsAdmin root u) .forbidden
      a.perform root c) := by
  have hadmin : (∀ v, c.admin = some v → a.IsAdmin root v) ↔ a.IsAdmin root u := by
    rw [h]
    exact ⟨fun hall => hall u rfl, fun hu v hv => Option.some.inj hv ▸ hu⟩
  rw [attempt, hadmin]

/-- A command that is open to everybody. -/
lemma attempt_open [DecidableEq T] [LT τ] {c : Command U G T τ} (h : c.admin = none) :
    a.attempt root c = a.perform root c := by
  refine require_bind (fun u hu => ?_) _
  cases h.symm.trans hu

lemma define_taken {g : G} (h : g = root ∨ g ∈ a.groups) :
    a.define root (some g) = .error .conflict :=
  require_bind_error (fun hfree : g ≠ root ∧ g ∉ a.groups => h.elim hfree.1 hfree.2) _

lemma define_free {g : G} (hroot : g ≠ root) (hg : g ∉ a.groups) :
    a.define root (some g) = .ok (.done, { a with groups := insert g a.groups }) :=
  require_bind ⟨hroot, hg⟩ _

lemma enrol_missing {u : U} {g : G} (h : g ∉ a.groups ∨ u ∉ a.users) :
    a.enrol u (some g) = .error .missing :=
  require_bind_error (fun hall : g ∈ a.groups ∧ u ∈ a.users => h.elim (· hall.1) (· hall.2)) _

lemma enrol_ok {u : U} {g : G} (hg : g ∈ a.groups) (hu : u ∈ a.users) :
    a.enrol u (some g) = .ok (.done, { a with members := insert (u, g) a.members }) :=
  require_bind ⟨hg, hu⟩ _

/-- A user who is a member stays one. -/
lemma enrol_member {u : U} {g : G} (hg : g ∈ a.groups) (hu : u ∈ a.users)
    (hm : (u, g) ∈ a.members) : a.enrol u (some g) = .ok (.done, a) := by
  rw [enrol_ok hg hu, Set.insert_eq_of_mem hm]

lemma expel_missing {u : U} {g : G} (h : g ∉ a.groups ∨ (u, g) ∉ a.members) :
    a.expel root u (some g) = .error .missing :=
  require_bind_error
    (fun hall : g ∈ a.groups ∧ (u, g) ∈ a.members => h.elim (· hall.1) (· hall.2)) _

lemma expel_last {u : U} (hg : root ∈ a.groups) (hu : a.IsAdmin root u)
    (hlast : ∀ v, a.IsAdmin root v → v = u) : a.expel root u (some root) = .error .conflict := by
  refine (require_bind (by exact ⟨hg, hu⟩) _).trans (require_bind_error (fun h => ?_) _)
  obtain ⟨v, hv, hadmin⟩ := h rfl
  exact hv (hlast v hadmin)

lemma expel_ok {u : U} {g : G} (hg : g ∈ a.groups) (hu : (u, g) ∈ a.members)
    (hother : g = root → ∃ v, v ≠ u ∧ a.IsAdmin root v) :
    a.expel root u (some g) = .ok (.done, { a with members := a.members \ {(u, g)} }) :=
  (require_bind (by exact ⟨hg, hu⟩) _).trans (require_bind (by exact hother) _)

section

variable [DecidableEq T] {owner : U} {expires : Except Refusal τ} {id : T}
  {outside : Except Refusal Unit}

lemma issue_unregistered {groups : List (Option G)} (h : owner ∉ a.users) :
    a.issue root owner groups expires id outside = .error .missing :=
  require_bind_error h _

lemma issue_malformed {groups : List (Option G)} (hu : owner ∈ a.users) (h : none ∈ groups) :
    a.issue root owner groups expires id outside = .error .malformed := by
  refine (require_bind hu _).trans ?_
  rw [mapM_wellFormed_error h]
  rfl

lemma issue_root {names : List G} (hu : owner ∈ a.users) (h : root ∈ names) :
    a.issue root owner (names.map some) expires id outside = .error .conflict := by
  refine (require_bind hu _).trans ?_
  rw [mapM_wellFormed]
  exact require_bind_error (not_not_intro h) _

lemma issue_groupless (hu : owner ∈ a.users) :
    a.issue root owner [] expires id outside = .error .malformed := by
  refine (require_bind hu _).trans ?_
  exact (require_bind List.not_mem_nil _).trans (require_bind_error (not_not_intro rfl) _)

lemma issue_missing {names : List G} (hu : owner ∈ a.users) (hroot : root ∉ names)
    (h : ¬ ∀ g ∈ names, g ∈ a.groups) :
    a.issue root owner (names.map some) expires id outside = .error .missing := by
  have hne : names ≠ [] := by
    rintro rfl
    exact h (by rintro _ ⟨⟩)
  refine (require_bind hu _).trans ?_
  rw [mapM_wellFormed]
  exact (require_bind hroot _).trans ((require_bind hne _).trans (require_bind_error h _))

/-- Defined groups other than the root group are lent. -/
lemma issue_eq {names : List G} (hu : owner ∈ a.users) (hroot : root ∉ names) (hne : names ≠ [])
    (hdefined : ∀ g ∈ names, g ∈ a.groups) :
    a.issue root owner (names.map some) expires id outside
      = a.lend owner names expires id outside := by
  refine (require_bind hu _).trans ?_
  rw [mapM_wellFormed]
  exact (require_bind hroot _).trans ((require_bind hne _).trans (require_bind hdefined _))

end

lemma find_some {id : T} {grant : Grant U G τ} (h : a.grants id = some grant) :
    a.find id = .ok grant := by
  rw [find, h]

lemma find_none {id : T} (h : a.grants id = none) : a.find id = .error .missing := by
  rw [find, h]

end AccessControl
