/-
Which documents a Vault client call depends on.

* `vaultFootprint`: the documents that a call touches, and the one that it writes;
* `VaultServer.Sorts`: a listing shows its names in an order that depends on nothing else,
  as `VaultServer.sorted` does;
* `local_vault`: then a call depends on the documents that it touches alone, also where
  calls may raise;
* `run_of_same`: a program answers the same over the same documents.
-/
import GofrSec.Calls.Serial
import GofrSec.Repositories.VaultViews

namespace GofrSec

open Calls Text

/-! ### Footprints -/

/-- The documents that a call depends on or writes: of a listing, all in the folder. -/
def VaultCall.Touches : VaultCall → String → Prop
  | .readSecret path, k => k = path
  | .secretExists path, k => k = path
  | .listSecrets path, k => Under path k
  | .writeSecret path _, k => k = path
  | .deleteSecret path, k => k = path
  | .auditAppend _, _ => False

lemma VaultCall.touches_of_target {i : VaultCall} {k : String} (h : i.target = some k) :
    i.Touches k := by
  cases i with
  | writeSecret path data => exact (Option.some.inj h).symm
  | deleteSecret path => exact (Option.some.inj h).symm
  | _ => cases h

/-- The documents that the calls of the client touch and write. -/
def vaultFootprint : Footprint VaultCall String :=
  { Touches := VaultCall.Touches
    Writes := fun i k => i.target = some k
    touches_of_writes := fun _ _ => VaultCall.touches_of_target }

instance (i : VaultCall) (k : String) : Decidable (i.Touches k) :=
  match i with
  | .readSecret path => inferInstanceAs (Decidable (k = path))
  | .secretExists path => inferInstanceAs (Decidable (k = path))
  | .listSecrets path => inferInstanceAs (Decidable (Under path k))
  | .writeSecret path _ => inferInstanceAs (Decidable (k = path))
  | .deleteSecret path => inferInstanceAs (Decidable (k = path))
  | .auditAppend _ => isFalse id

/-- Two calls conflict when one of them writes a document that the other touches. -/
lemma conflict_iff {i j : VaultCall} : vaultFootprint.Conflict i j
    ↔ (∃ k ∈ i.target, j.Touches k) ∨ ∃ k ∈ j.target, i.Touches k := by
  constructor
  · rintro ⟨k, hi, hj, hwrites | hwrites⟩
    · exact Or.inl ⟨k, hwrites, hj⟩
    · exact Or.inr ⟨k, hwrites, hi⟩
  · rintro (⟨k, hk, hj⟩ | ⟨k, hk, hi⟩)
    · exact ⟨k, VaultCall.touches_of_target hk, hj, Or.inl hk⟩
    · exact ⟨k, hi, VaultCall.touches_of_target hk, Or.inr hk⟩

instance (i j : VaultCall) : Decidable (vaultFootprint.Conflict i j) :=
  decidable_of_iff' _ conflict_iff

/-! ### What calls depend on -/

/-- A listing shows its names in an order that depends on nothing else. -/
def VaultServer.Sorts (server : VaultServer) : Prop :=
  ∀ l l' : List String, l.Perm l' → server.arrange l = server.arrange l'

/-- A server that lists names in their lexicographic order. -/
def VaultServer.sorted : VaultServer :=
  { arrange := fun l => l.insertionSort (· ≤ ·)
    arrange_perm := List.perm_insertionSort (· ≤ ·) }

lemma VaultServer.sorts_sorted : VaultServer.sorted.Sorts := by
  intro l l' hperm
  have hsame : (l.insertionSort (· ≤ ·)).Perm (l'.insertionSort (· ≤ ·)) :=
    (List.perm_insertionSort _ l).trans (hperm.trans (List.perm_insertionSort _ l').symm)
  exact hsame.eq_of_pairwise' (List.pairwise_insertionSort _ l) (List.pairwise_insertionSort _ l')

/-- Over the same documents in a folder, a listing finds the same names. -/
lemma names_perm {w w' : VaultWorld} {path : String}
    (h : ∀ k, Under path k → w'.read k = w.read k) : (w'.names path).Perm (w.names path) := by
  have hfound : ∀ name, name ∈ w'.names path ↔ name ∈ w.names path := by
    intro name
    rw [VaultWorld.mem_names, VaultWorld.mem_names]
    have hread : ∀ k, nextSegment path k = some name → w'.read k = w.read k := by
      intro k hk
      refine h k ?_
      rcases nextSegment_eq_some hk with ⟨-, rfl⟩ | ⟨u, t, -, -, rfl⟩
      · exact under_below path name
      · exact (under_below path u).below t
    constructor
    · rintro ⟨k, d, hd, hk⟩
      exact ⟨k, d, (hread k hk).symm.trans hd, hk⟩
    · rintro ⟨k, d, hd, hk⟩
      exact ⟨k, d, (hread k hk).trans hd, hk⟩
  exact (List.perm_ext_iff_of_nodup (w'.nodup_names path) (w.nodup_names path)).mpr hfound

variable {server : VaultServer}

/-- Over documents that are the same where it touches, a call answers the same. -/
lemma exec_fst_of_touches (hsorts : server.Sorts) {i : VaultCall} {w w' : VaultWorld}
    (h : ∀ k, i.Touches k → w'.read k = w.read k) :
    (server.exec i w').1 = (server.exec i w).1 := by
  cases i with
  | readSecret path => exact congrArg Except.ok (h path rfl)
  | secretExists path => exact congrArg (fun d : Option Doc => Except.ok d.isSome) (h path rfl)
  | listSecrets path => exact congrArg Except.ok (hsorts _ _ (names_perm h))
  | writeSecret path data => rfl
  | deleteSecret path => exact congrArg (fun d : Option Doc => Except.ok d.isSome) (h path rfl)
  | auditAppend event => rfl

/-- Where two Vaults agree, they agree after a call. -/
lemma read_exec_snd {i : VaultCall} {w w' : VaultWorld} {k : String}
    (h : w'.read k = w.read k) :
    ((server.exec i w').2).read k = ((server.exec i w).2).read k := by
  cases i with
  | writeSecret path data =>
      show (w'.write path data).read k = (w.write path data).read k
      rw [VaultWorld.read_write, VaultWorld.read_write, h]
  | deleteSecret path =>
      show (w'.delete path).read k = (w.delete path).read k
      rw [VaultWorld.read_delete, VaultWorld.read_delete, h]
  | _ => exact h

/-- **A call depends on the documents that it touches**, also where it may raise. -/
theorem local_vault (hsorts : server.Sorts) (faults : Prop) :
    Local vaultFootprint VaultWorld.read (server.act faults) := by
  refine ⟨fun {i w r w'} hact k hk => ?_, fun {i w v r w'} hact htouches => ?_⟩
  · rcases hact with hexec | ⟨-, -, rfl⟩
    · have hexec : server.exec i w = (r, w') := hexec
      have hw' : w' = i.effect w := by
        rw [← server.exec_snd, hexec]
      rw [hw']
      exact VaultCall.read_effect w hk
    · rfl
  · rcases hact with hexec | ⟨hmay, herror, rfl⟩
    · have hexec : server.exec i w = (r, w') := hexec
      have hout := exec_fst_of_touches hsorts (i := i) htouches
      rw [hexec] at hout
      refine ⟨(server.exec i v).2, Or.inl (Prod.ext hout rfl), fun k hk => ?_⟩
      have hread : (server.exec i v).2.read k = (server.exec i w).2.read k := read_exec_snd hk
      rw [hexec] at hread
      exact hread
    · exact ⟨v, Or.inr ⟨hmay, herror, rfl⟩, fun k hk => hk⟩

/-- A program answers the same over the same documents. -/
lemma run_of_same (hsorts : server.Sorts) {α : Type} (p : VaultProg α) {w w' : VaultWorld}
    (h : ∀ k, w'.read k = w.read k) :
    (p.run server.exec w').1 = (p.run server.exec w).1 := by
  induction p generalizing w w' with
  | ret a => rfl
  | raise e => rfl
  | call i c ih =>
      simp only [Prog.run]
      rw [exec_fst_of_touches hsorts fun k _ => h k]
      exact ih _ fun k => read_exec_snd (h k)

end GofrSec
