/-
The Vault client, as far as the repositories use it.

* `VaultCall`: the atomic steps of a process on the Vault backend, the methods
  of `VaultClient` and the append to the process's own audit sink;
* `VaultWorld`: the documents by their exact path, and the audit events;
* `VaultServer`: the order in which a listing shows the names it finds, the
  one thing the client leaves open;
* `VaultServer.exec`: a read finds the last document written at the very
  path, a listing shows the distinct next segments below a path, a hard
  delete removes;
* `VaultServer.act`: the same calls when any of them may also raise without
  taking effect; `wp_readSecret` and its siblings are the rules of reasoning
  for one call, `act_ok` and `act_error` what one call has done.
-/
import GofrSec.Calls.Contract
import GofrSec.Domain.Models
import GofrSec.Text
import Mathlib.Data.List.Dedup

namespace GofrSec

open Calls Text

/-- The atomic steps of a process over Vault. -/
inductive VaultCall where
  | readSecret (path : String)
  | secretExists (path : String)
  | listSecrets (path : String)
  | writeSecret (path : String) (data : Doc)
  | deleteSecret (path : String)
  | auditAppend (event : AuditEvent)

/-- What a step returns. -/
abbrev VaultCall.Res : VaultCall → Type
  | .readSecret _ => Option Doc
  | .secretExists _ => Bool
  | .listSecrets _ => List String
  | .writeSecret _ _ => Unit
  | .deleteSecret _ => Bool
  | .auditAppend _ => Unit

/-- The steps that go over the network and may therefore raise. -/
def VaultCall.mayFail : VaultCall → Prop
  | .auditAppend _ => False
  | _ => True

/-- Programs over the Vault client. -/
abbrev VaultProg : Type → Type := Prog VaultCall VaultCall.Res PyError

/-- One step. -/
abbrev VaultCall.perform (c : VaultCall) : VaultProg c.Res := Prog.perform c

/-- `client.read_secret(path)`. -/
abbrev readSecret (path : String) : VaultProg (Option Doc) := VaultCall.perform (.readSecret path)

/-- `client.secret_exists(path)`. -/
abbrev secretExists (path : String) : VaultProg Bool := VaultCall.perform (.secretExists path)

/-- `client.list_secrets(path)`. -/
abbrev listSecrets (path : String) : VaultProg (List String) :=
  VaultCall.perform (.listSecrets path)

/-- `client.write_secret(path, data)`. -/
abbrev writeSecret (path : String) (data : Doc) : VaultProg Unit :=
  VaultCall.perform (.writeSecret path data)

/-- `client.delete_secret(path, hard=True)`. -/
abbrev deleteSecret (path : String) : VaultProg Bool := VaultCall.perform (.deleteSecret path)

/-- The documents in Vault, and the audit events of the processes over it. -/
structure VaultWorld where
  secrets : Dict String Doc
  events : List AuditEvent

namespace VaultWorld

/-- The document at a path. -/
abbrev read (w : VaultWorld) (path : String) : Option Doc := w.secrets.get path

/-- The names that a listing of a path shows, in no particular order. -/
def names (w : VaultWorld) (path : String) : List String :=
  (w.secrets.keys.filterMap (nextSegment path)).dedup

/-- Put a document at a path. -/
def write (w : VaultWorld) (path : String) (data : Doc) : VaultWorld :=
  { w with secrets := w.secrets.set path data }

/-- Remove the document at a path. -/
def delete (w : VaultWorld) (path : String) : VaultWorld :=
  { w with secrets := w.secrets.erase path }

/-- Append an audit event. -/
def append (w : VaultWorld) (event : AuditEvent) : VaultWorld :=
  { w with events := w.events ++ [event] }

lemma read_write (w : VaultWorld) (path k : String) (data : Doc) :
    (w.write path data).read k = if k = path then some data else w.read k :=
  Dict.get_set _ _ _ _

lemma read_delete (w : VaultWorld) (path k : String) :
    (w.delete path).read k = if k = path then none else w.read k :=
  Dict.get_erase _ _ _

@[simp] lemma read_write_self (w : VaultWorld) (path : String) (data : Doc) :
    (w.write path data).read path = some data :=
  Dict.get_set_self _ _ _

@[simp] lemma read_delete_self (w : VaultWorld) (path : String) :
    (w.delete path).read path = none :=
  Dict.get_erase_self _ _

lemma read_write_of_ne (w : VaultWorld) {path k : String} (data : Doc) (h : k ≠ path) :
    (w.write path data).read k = w.read k :=
  Dict.get_set_of_ne _ _ h

lemma read_delete_of_ne (w : VaultWorld) {path k : String} (h : k ≠ path) :
    (w.delete path).read k = w.read k :=
  Dict.get_erase_of_ne _ h

@[simp] lemma read_append (w : VaultWorld) (event : AuditEvent) (k : String) :
    (w.append event).read k = w.read k := rfl

@[simp] lemma events_write (w : VaultWorld) (path : String) (data : Doc) :
    (w.write path data).events = w.events := rfl

@[simp] lemma events_delete (w : VaultWorld) (path : String) :
    (w.delete path).events = w.events := rfl

@[simp] lemma events_append (w : VaultWorld) (event : AuditEvent) :
    (w.append event).events = w.events ++ [event] := rfl

/-- A name is listed below a path exactly when a stored path shows it. -/
lemma mem_names {w : VaultWorld} {path name : String} :
    name ∈ w.names path ↔ ∃ k d, w.read k = some d ∧ nextSegment path k = some name := by
  simp only [names, List.mem_dedup, List.mem_filterMap, Dict.mem_keys_iff, read]
  constructor
  · rintro ⟨k, ⟨d, hd⟩, hk⟩
    exact ⟨k, d, hd, hk⟩
  · rintro ⟨k, d, hd, hk⟩
    exact ⟨k, ⟨d, hd⟩, hk⟩

lemma nodup_names (w : VaultWorld) (path : String) : (w.names path).Nodup := List.nodup_dedup _

end VaultWorld

namespace VaultCall

/-- The path that a step writes or deletes. -/
def target : VaultCall → Option String
  | .writeSecret path _ => some path
  | .deleteSecret path => some path
  | _ => none

lemma mayFail_of_target {c : VaultCall} {k : String} (h : c.target = some k) : c.mayFail := by
  cases c with
  | auditAppend event => exact nomatch h
  | _ => trivial

/-- The effect of a step on the documents and the audit events. -/
def effect : VaultCall → VaultWorld → VaultWorld
  | .writeSecret path data, w => w.write path data
  | .deleteSecret path, w => w.delete path
  | .auditAppend event, w => w.append event
  | _, w => w

/-- The effect of several steps, one after another. -/
def effects (cs : List VaultCall) (w : VaultWorld) : VaultWorld :=
  cs.foldl (fun w c => c.effect w) w

/-- A step leaves the documents alone that are not its target. -/
lemma read_effect {c : VaultCall} {k : String} (w : VaultWorld) (h : c.target ≠ some k) :
    (c.effect w).read k = w.read k := by
  cases c with
  | readSecret path => rfl
  | secretExists path => rfl
  | listSecrets path => rfl
  | writeSecret path data => exact w.read_write_of_ne data fun h0 => h (congrArg some h0.symm)
  | deleteSecret path => exact w.read_delete_of_ne fun h0 => h (congrArg some h0.symm)
  | auditAppend event => rfl

/-- Several steps leave the documents alone that are not their targets. -/
lemma read_effects {cs : List VaultCall} {k : String} (w : VaultWorld)
    (h : ∀ c ∈ cs, c.target ≠ some k) : (effects cs w).read k = w.read k := by
  induction cs generalizing w with
  | nil => rfl
  | cons c cs ih =>
      have hrest := ih (c.effect w) fun c' hc' => h c' (List.mem_cons_of_mem _ hc')
      rw [effects, List.foldl_cons]
      exact hrest.trans (read_effect w (h c List.mem_cons_self))

/-- A document that is there after several steps was there before, or one of
them wrote it. -/
lemma exists_of_read_effects {cs : List VaultCall} {k : String} {d : Doc} {w : VaultWorld}
    (h : (effects cs w).read k = some d) :
    (∃ d', w.read k = some d') ∨ ∃ data, .writeSecret k data ∈ cs := by
  induction cs generalizing w with
  | nil => exact Or.inl ⟨d, h⟩
  | cons c cs ih =>
      rcases ih (w := c.effect w) h with ⟨d', hd'⟩ | ⟨data, hdata⟩
      · by_cases htarget : c.target = some k
        · cases c with
          | writeSecret path data =>
              obtain rfl := Option.some.inj htarget
              exact Or.inr ⟨data, List.mem_cons_self⟩
          | deleteSecret path =>
              obtain rfl := Option.some.inj htarget
              rw [effect, VaultWorld.read_delete_self] at hd'
              exact nomatch hd'
          | _ => simp [target] at htarget
        · rw [read_effect w htarget] at hd'
          exact Or.inl ⟨d', hd'⟩
      · exact Or.inr ⟨data, List.mem_cons_of_mem _ hdata⟩

lemma effects_append (cs ds : List VaultCall) (w : VaultWorld) :
    effects (cs ++ ds) w = effects ds (effects cs w) :=
  List.foldl_append

/-- Steps with a target leave the audit events alone. -/
lemma events_effects {cs : List VaultCall} (w : VaultWorld) (h : ∀ c ∈ cs, c.target.isSome) :
    (effects cs w).events = w.events := by
  induction cs generalizing w with
  | nil => rfl
  | cons c cs ih =>
      have hrest := ih (c.effect w) fun c' hc' => h c' (List.mem_cons_of_mem _ hc')
      rw [effects, List.foldl_cons]
      refine hrest.trans ?_
      have hc := h c List.mem_cons_self
      cases c with
      | writeSecret path data => rfl
      | deleteSecret path => rfl
      | _ => simp [target] at hc

end VaultCall

/-- A Vault server: the order of its listings. -/
structure VaultServer where
  arrange : List String → List String
  arrange_perm : ∀ l, (arrange l).Perm l

namespace VaultServer

/-- The client methods on the documents. -/
def exec (server : VaultServer) : Exec VaultCall VaultCall.Res PyError VaultWorld
  | .readSecret path, w => (.ok (w.read path), w)
  | .secretExists path, w => (.ok (w.read path).isSome, w)
  | .listSecrets path, w => (.ok (server.arrange (w.names path)), w)
  | .writeSecret path data, w => (.ok (), w.write path data)
  | .deleteSecret path, w => (.ok (w.read path).isSome, w.delete path)
  | .auditAppend event, w => (.ok (), w.append event)

lemma exec_snd (server : VaultServer) (c : VaultCall) (w : VaultWorld) :
    (server.exec c w).2 = c.effect w := by
  cases c <;> rfl

/-- The client methods, any of which may raise without taking effect if
`faults` holds. -/
def act (server : VaultServer) (faults : Prop) : Act VaultCall VaultCall.Res PyError VaultWorld :=
  server.exec.graph.faulty fun c => faults ∧ c.mayFail

/-! ### The rules of one call -/

variable {server : VaultServer} {faults : Prop} {w : VaultWorld}

lemma wp_perform_iff (c : VaultCall) (Q : Except PyError c.Res → VaultWorld → Prop) :
    (VaultCall.perform c).wp (server.act faults).contract Q w
      ↔ Q (server.exec c w).1 (server.exec c w).2 ∧ (faults → c.mayFail → ∀ e, Q (.error e) w) := by
  rw [Prog.wp_perform]
  constructor
  · rintro ⟨-, h⟩
    exact ⟨h _ _ (Or.inl rfl), fun hf hc e => h _ _ (Or.inr ⟨⟨hf, hc⟩, ⟨e, rfl⟩, rfl⟩)⟩
  · rintro ⟨hexec, hfail⟩
    refine ⟨trivial, ?_⟩
    rintro r w' (hr | ⟨⟨hf, hc⟩, ⟨e, rfl⟩, rfl⟩)
    · have hr' : server.exec c w = (r, w') := hr
      rw [hr'] at hexec
      exact hexec
    · exact hfail hf hc e

lemma wp_readSecret (path : String) (Q : Except PyError (Option Doc) → VaultWorld → Prop) :
    (readSecret path).wp (server.act faults).contract Q w
      ↔ Q (.ok (w.read path)) w ∧ (faults → ∀ e, Q (.error e) w) :=
  (wp_perform_iff (.readSecret path) Q).trans (by simp [exec, VaultCall.mayFail])

lemma wp_secretExists (path : String) (Q : Except PyError Bool → VaultWorld → Prop) :
    (secretExists path).wp (server.act faults).contract Q w
      ↔ Q (.ok (w.read path).isSome) w ∧ (faults → ∀ e, Q (.error e) w) :=
  (wp_perform_iff (.secretExists path) Q).trans (by simp [exec, VaultCall.mayFail])

lemma wp_listSecrets (path : String) (Q : Except PyError (List String) → VaultWorld → Prop) :
    (listSecrets path).wp (server.act faults).contract Q w
      ↔ Q (.ok (server.arrange (w.names path))) w ∧ (faults → ∀ e, Q (.error e) w) :=
  (wp_perform_iff (.listSecrets path) Q).trans (by simp [exec, VaultCall.mayFail])

lemma wp_writeSecret (path : String) (data : Doc) (Q : Except PyError Unit → VaultWorld → Prop) :
    (writeSecret path data).wp (server.act faults).contract Q w
      ↔ Q (.ok ()) (w.write path data) ∧ (faults → ∀ e, Q (.error e) w) :=
  (wp_perform_iff (.writeSecret path data) Q).trans (by simp [exec, VaultCall.mayFail])

lemma wp_deleteSecret (path : String) (Q : Except PyError Bool → VaultWorld → Prop) :
    (deleteSecret path).wp (server.act faults).contract Q w
      ↔ Q (.ok (w.read path).isSome) (w.delete path) ∧ (faults → ∀ e, Q (.error e) w) :=
  (wp_perform_iff (.deleteSecret path) Q).trans (by simp [exec, VaultCall.mayFail])

lemma wp_auditAppend (event : AuditEvent) (Q : Except PyError Unit → VaultWorld → Prop) :
    (VaultCall.perform (.auditAppend event)).wp (server.act faults).contract Q w
      ↔ Q (.ok ()) (w.append event) :=
  (wp_perform_iff (.auditAppend event) Q).trans (by simp [exec, VaultCall.mayFail])

/-- Steps made one after another: all of them take effect, or, when one raises,
those before it. -/
lemma wp_performAll {cs : List VaultCall} {Q : Except PyError Unit → VaultWorld → Prop}
    (hok : Q (.ok ()) (VaultCall.effects cs w))
    (herr : faults → ∀ ds c es, cs = ds ++ c :: es → ∀ e, Q (.error e) (VaultCall.effects ds w)) :
    (Prog.performAll cs).wp (server.act faults).contract Q w := by
  induction cs generalizing w with
  | nil => exact hok
  | cons c cs ih =>
      have hexec : ∃ v, (server.exec c w).1 = .ok v := by
        cases c <;> exact ⟨_, rfl⟩
      obtain ⟨v, hv⟩ := hexec
      rw [Prog.performAll_cons, Prog.wp_bind, wp_perform_iff, hv, exec_snd]
      refine ⟨?_, fun hf _ e => herr hf [] c cs rfl e⟩
      refine ih hok ?_
      intro hf ds c' es hcs e
      exact herr hf (c :: ds) c' es (by rw [hcs, List.cons_append]) e

/-- What is shown of every run without failures is so of the one that there is. -/
lemma run_eq_of_wp {α : Type} {p : VaultProg α} {o : Except PyError α} {w' : VaultWorld}
    (h : p.wp (server.act False).contract (fun r s => r = o ∧ s = w') w) :
    p.run server.exec w = (o, w') := by
  have hrun : p.Runs (server.act False) w (p.run server.exec w).1 (p.run server.exec w).2 :=
    ((Prog.runs_graph_iff p).mpr rfl).mono fun _ _ _ _ hexec => Or.inl hexec
  obtain ⟨hout, hworld⟩ := (Prog.wp_contract_iff p _ w).mp h _ _ hrun
  exact Prod.ext hout hworld

/-- A name that the server lists is one of the names below the path. -/
lemma mem_arrange {names : List String} {name : String} :
    name ∈ server.arrange names ↔ name ∈ names :=
  (server.arrange_perm names).mem_iff

end VaultServer

/-! ### One client call -/

section

variable {server : VaultServer} {faults : Prop} {i : VaultCall} {w w' : VaultWorld}

/-- A call that returns has taken effect. -/
lemma act_ok {v : i.Res} (h : server.act faults i w (.ok v) w') :
    (server.exec i w).1 = .ok v ∧ w' = i.effect w := by
  rcases h with h | ⟨-, ⟨e, he⟩, -⟩
  · have hexec : server.exec i w = (.ok v, w') := h
    rw [← VaultServer.exec_snd server i w, hexec]
    exact ⟨rfl, rfl⟩
  · exact nomatch he

/-- A call that raises has not. -/
lemma act_error {e : PyError} (h : server.act faults i w (.error e) w') : w' = w := by
  rcases h with h | ⟨-, -, heq⟩
  · have hexec : server.exec i w = (.error e, w') := h
    cases i <;> exact nomatch congrArg Prod.fst hexec
  · exact heq

/-- A document changes only under a call that has it as its target and returns. -/
lemma read_of_act {r : Except PyError i.Res} (h : server.act faults i w r w') {k : String}
    (hk : ∀ v, r = .ok v → i.target ≠ some k) : w'.read k = w.read k := by
  cases r with
  | ok v =>
      rw [(act_ok h).2]
      exact VaultCall.read_effect w (hk v rfl)
  | error e => rw [act_error h]

/-- A read answers with the document, if it returns. -/
lemma act_readSecret {path : String} {r : Except PyError (Option Doc)}
    (h : server.act faults (.readSecret path) w r w') :
    w' = w ∧ ∀ found, r = .ok found → found = w.read path := by
  cases r with
  | ok found =>
      obtain ⟨hout, rfl⟩ := act_ok h
      refine ⟨rfl, ?_⟩
      rintro _ ⟨⟩
      exact (Except.ok.inj hout).symm
  | error e => exact ⟨act_error h, fun _ h => nomatch h⟩

/-- An append to the audit log returns. -/
lemma act_auditAppend {event : AuditEvent} {r : Except PyError Unit}
    (h : server.act faults (.auditAppend event) w r w') : r = .ok () := by
  rcases h with hexec | ⟨⟨-, hfail⟩, -⟩
  · exact (congrArg Prod.fst hexec).symm
  · exact hfail.elim

end

end GofrSec
