/-
Processes whose calls interleave.

* `Event`, `world`: the ledger of a run, newest first: every call with the
  process and the operation that made it, its answer and the state it left, and
  every end of an operation with its outcome; `ongoing` are the calls of a process
  since its last end of an operation;
* `System`, `Step`, `Reachable`: each process runs its operations one after
  another; between any two of its calls the others may make theirs;
* `Protocol`: what every step of a run is assumed to meet (`Ok`), and what every
  step is to guarantee (`Guar`);
* `Secure`: a program, run by one process amid the steps of the others, keeps to
  the guarantee and ends in a postcondition; it is stable under the steps of the
  others by its definition (`Secure.env`), and composes like a weakest
  precondition (`secure_handle`, `secure_bind`, `secure_translate`,
  `secure_of_uses`);
* `Reachable.sound`: if the operations of all processes are secure, every step of
  a run that meets the assumption meets the guarantee; `Keeps.later`: what every
  step keeps holds from then on;
* `tick`, `runSchedule`: the run of a schedule over calls that are functions.
-/
import GofrSec.Calls.Contract
import Mathlib.Logic.Function.Basic
import Mathlib.Logic.Relation

namespace Calls

variable {π Ω ι : Type} {ρ : ι → Type} {ε ν σ α β : Type}

/-- A step that the ledger keeps. -/
inductive Event (π Ω ι : Type) (ρ : ι → Type) (ε ν σ : Type) where
  | call (p : π) (o : Ω) (i : ι) (r : Except ε (ρ i)) (after : σ)
  | finish (p : π) (o : Ω) (r : Except ε ν)

namespace Event

/-- The process that made the step. -/
def process : Event π Ω ι ρ ε ν σ → π
  | .call p _ _ _ _ => p
  | .finish p _ _ => p

/-- The operation that the step belongs to. -/
def op : Event π Ω ι ρ ε ν σ → Ω
  | .call _ o _ _ _ => o
  | .finish _ o _ => o

end Event

/-- The steps of a run, the newest first. -/
abbrev Ledger (π Ω ι : Type) (ρ : ι → Type) (ε ν σ : Type) : Type := List (Event π Ω ι ρ ε ν σ)

/-- The state that a ledger leaves. -/
def world (s₀ : σ) : Ledger π Ω ι ρ ε ν σ → σ
  | [] => s₀
  | .call _ _ _ _ s :: _ => s
  | .finish _ _ _ :: L => world s₀ L

/-- Every step of the ledger, with the steps before it, is as `C` says. -/
def Meets (C : Ledger π Ω ι ρ ε ν σ → Event π Ω ι ρ ε ν σ → Prop)
    (L : Ledger π Ω ι ρ ε ν σ) : Prop :=
  ∀ L₂ e L₁, L = L₂ ++ e :: L₁ → C L₁ e

/-- The calls of the operation that the process is at, the newest first. -/
def ongoing [DecidableEq π] (p : π) : Ledger π Ω ι ρ ε ν σ → Ledger π Ω ι ρ ε ν σ
  | [] => []
  | .call q o i r s :: L => if q = p then .call q o i r s :: ongoing p L else ongoing p L
  | .finish q _ _ :: L => if q = p then [] else ongoing p L

/-- The step does what its call can do. -/
def Fits (act : Act ι ρ ε σ) (s₀ : σ) (L : Ledger π Ω ι ρ ε ν σ) : Event π Ω ι ρ ε ν σ → Prop
  | .call _ _ i r s => act i (world s₀ L) r s
  | .finish _ _ _ => True

section Ongoing

variable [DecidableEq π] {p : π} {L : Ledger π Ω ι ρ ε ν σ}

@[simp] lemma ongoing_call (o : Ω) (i : ι) (r : Except ε (ρ i)) (s : σ) :
    ongoing p (.call p o i r s :: L) = .call p o i r s :: ongoing p L := by
  rw [ongoing, if_pos rfl]

@[simp] lemma ongoing_finish (o : Ω) (r : Except ε ν) : ongoing p (.finish p o r :: L) = [] := by
  rw [ongoing, if_pos rfl]

lemma ongoing_of_ne {e : Event π Ω ι ρ ε ν σ} (h : e.process ≠ p) :
    ongoing p (e :: L) = ongoing p L := by
  cases e with
  | call q o i r s => exact if_neg h
  | finish q o r => exact if_neg h

/-- A call since which the process has not ended an operation is ongoing. -/
lemma mem_ongoing {o : Ω} {i : ι} {r : Except ε (ρ i)} {s : σ}
    {L' : Ledger π Ω ι ρ ε ν σ} (h : ∀ o' r', .finish p o' r' ∉ L') :
    .call p o i r s ∈ ongoing p (L' ++ .call p o i r s :: L) := by
  induction L' with
  | nil =>
      rw [List.nil_append, ongoing_call]
      exact List.mem_cons_self
  | cons e L' ih =>
      have hrest := ih fun o' r' hmem => h o' r' (List.mem_cons_of_mem _ hmem)
      by_cases he : e.process = p
      · cases e with
        | call q o' i' r' s' =>
            obtain rfl : q = p := he
            rw [List.cons_append, ongoing_call]
            exact List.mem_cons_of_mem _ hrest
        | finish q o' r' =>
            obtain rfl : q = p := he
            exact absurd List.mem_cons_self (h o' r')
      · rw [List.cons_append, ongoing_of_ne he]
        exact hrest

end Ongoing

section Meets

variable {C : Ledger π Ω ι ρ ε ν σ → Event π Ω ι ρ ε ν σ → Prop} {L : Ledger π Ω ι ρ ε ν σ}
  {e : Event π Ω ι ρ ε ν σ}

lemma meets_nil : Meets C [] := by
  intro L₂ e L₁ h
  exact absurd h.symm (List.append_ne_nil_of_right_ne_nil _ (List.cons_ne_nil _ _))

lemma meets_cons : Meets C (e :: L) ↔ C L e ∧ Meets C L := by
  constructor
  · intro h
    refine ⟨h [] e L rfl, fun L₂ e' L₁ hL => h (e :: L₂) e' L₁ ?_⟩
    rw [hL, List.cons_append]
  · rintro ⟨he, hL⟩ L₂ e' L₁ h
    rcases List.cons_eq_append_iff.mp h with ⟨rfl, hcons⟩ | ⟨L₂', rfl, hrest⟩
    · obtain ⟨rfl, rfl⟩ := List.cons.inj hcons
      exact he
    · exact hL L₂' e' L₁ hrest

lemma Meets.of_append {L' : Ledger π Ω ι ρ ε ν σ} (h : Meets C (L' ++ L)) : Meets C L := by
  intro L₂ e L₁ hL
  refine h (L' ++ L₂) e L₁ ?_
  rw [hL, List.append_assoc]

/-- A step in the midst of a ledger. -/
lemma Meets.at {L' : Ledger π Ω ι ρ ε ν σ} (h : Meets C (L' ++ e :: L)) : C L e :=
  h L' e L rfl

end Meets

/-! ### Systems of processes -/

/-- A process: the operations it has still to run, and the one it is at, with
the rest of its program. -/
structure Worker (Ω ι : Type) (ρ : ι → Type) (ε ν : Type) where
  todo : List Ω
  current : Option (Ω × Prog ι ρ ε ν)

/-- The processes, and the ledger of what they have done. -/
structure System (π Ω ι : Type) (ρ : ι → Type) (ε ν σ : Type) where
  ledger : Ledger π Ω ι ρ ε ν σ
  worker : π → Worker Ω ι ρ ε ν

/-- Nothing has been done yet. -/
def System.initial (todo : π → List Ω) : System π Ω ι ρ ε ν σ :=
  { ledger := [], worker := fun p => ⟨todo p, none⟩ }

/-- All processes have run all their operations. -/
def System.Finished (S : System π Ω ι ρ ε ν σ) : Prop := ∀ p, S.worker p = ⟨[], none⟩

section

variable [DecidableEq π]

/-- One process moves on. -/
inductive Step (act : Act ι ρ ε σ) (prog : Ω → Prog ι ρ ε ν) (s₀ : σ)
    (S : System π Ω ι ρ ε ν σ) : System π Ω ι ρ ε ν σ → Prop
  | start {p : π} {o : Ω} {os : List Ω} : S.worker p = ⟨o :: os, none⟩ →
      Step act prog s₀ S
        { ledger := S.ledger
          worker := Function.update S.worker p ⟨os, some (o, prog o)⟩ }
  | call {p : π} {o : Ω} {os : List Ω} {i : ι} {k : Except ε (ρ i) → Prog ι ρ ε ν}
      {r : Except ε (ρ i)} {s : σ} : S.worker p = ⟨os, some (o, .call i k)⟩ →
      act i (world s₀ S.ledger) r s →
      Step act prog s₀ S
        { ledger := .call p o i r s :: S.ledger
          worker := Function.update S.worker p ⟨os, some (o, k r)⟩ }
  | finish {p : π} {o : Ω} {os : List Ω} {r : Except ε ν} :
      S.worker p = ⟨os, some (o, Prog.done r)⟩ →
      Step act prog s₀ S
        { ledger := .finish p o r :: S.ledger
          worker := Function.update S.worker p ⟨os, none⟩ }

/-- What the processes can reach, each starting with its list of operations. -/
def Reachable (act : Act ι ρ ε σ) (prog : Ω → Prog ι ρ ε ν) (s₀ : σ) (todo : π → List Ω) :
    System π Ω ι ρ ε ν σ → Prop :=
  Relation.ReflTransGen (Step act prog s₀) (System.initial todo)

end

/-! ### Programs amid the steps of others -/

/-- How processes act on a shared state from `start`: the operations each may
run, what every step is assumed to meet, and what it is to guarantee. -/
structure Protocol (π Ω ι : Type) (ρ : ι → Type) (ε ν σ : Type) where
  act : Act ι ρ ε σ
  start : σ
  Runs : π → Ω → Prop
  Ok : Ledger π Ω ι ρ ε ν σ → Event π Ω ι ρ ε ν σ → Prop
  Guar : Ledger π Ω ι ρ ε ν σ → Event π Ω ι ρ ε ν σ → Prop

namespace Protocol

variable (Γ : Protocol π Ω ι ρ ε ν σ)

/-- The state that a ledger leaves. -/
abbrev now (L : Ledger π Ω ι ρ ε ν σ) : σ := world Γ.start L

/-- A step that a run can take: part of an operation that its process may run,
within what its call can do, the assumption and the guarantee. -/
structure Allowed (L : Ledger π Ω ι ρ ε ν σ) (e : Event π Ω ι ρ ε ν σ) : Prop where
  runs : Γ.Runs e.process e.op
  fits : Fits Γ.act Γ.start L e
  ok : Γ.Ok L e
  guar : Γ.Guar L e

/-- A step of a process other than `p`. -/
def Other (p : π) (L : Ledger π Ω ι ρ ε ν σ) (e : Event π Ω ι ρ ε ν σ) : Prop :=
  e.process ≠ p ∧ Γ.Allowed L e

/-- Any number of steps of processes other than `p`. -/
def Env (p : π) : Ledger π Ω ι ρ ε ν σ → Ledger π Ω ι ρ ε ν σ → Prop :=
  Relation.ReflTransGen fun L L' => ∃ e, Γ.Other p L e ∧ L' = e :: L

/-- No step of another process ends the truth of `A`. -/
def Stable (p : π) (A : Ledger π Ω ι ρ ε ν σ → Prop) : Prop :=
  ∀ L e, A L → Γ.Other p L e → A (e :: L)

/-- No step ends the truth of `A`. -/
def Keeps (A : Ledger π Ω ι ρ ε ν σ → Prop) : Prop :=
  ∀ L e, A L → Γ.Allowed L e → A (e :: L)

variable {Γ} {p : π} {o : Ω} {A : Ledger π Ω ι ρ ε ν σ → Prop} {L L' : Ledger π Ω ι ρ ε ν σ}

lemma Stable.env (hA : Γ.Stable p A) (h : A L) (henv : Γ.Env p L L') : A L' := by
  induction henv with
  | refl => exact h
  | tail _ hstep ih =>
      obtain ⟨e, he, rfl⟩ := hstep
      exact hA _ e ih he

lemma Keeps.stable (hA : Γ.Keeps A) : Γ.Stable p A := fun L e h he => hA L e h he.2

/-- What every step keeps holds from then on. -/
lemma Keeps.later (hA : Γ.Keeps A) (hmeets : Meets Γ.Allowed (L' ++ L)) (h : A L) :
    A (L' ++ L) := by
  induction L' with
  | nil => exact h
  | cons e L' ih =>
      obtain ⟨he, hrest⟩ := meets_cons.mp hmeets
      exact hA _ e (ih hrest) he

lemma stable_and {B : Ledger π Ω ι ρ ε ν σ → Prop} (hA : Γ.Stable p A) (hB : Γ.Stable p B) :
    Γ.Stable p fun L => A L ∧ B L :=
  fun L e h he => ⟨hA L e h.1 he, hB L e h.2 he⟩

lemma stable_const (q : Prop) : Γ.Stable p fun _ => q := fun _ _ h _ => h

lemma stable_imp (q : Prop) (hA : Γ.Stable p A) : Γ.Stable p fun L => q → A L :=
  fun L e h he hq => hA L e (h hq) he

lemma stable_forall {κ : Type} {B : κ → Ledger π Ω ι ρ ε ν σ → Prop}
    (hB : ∀ x, Γ.Stable p (B x)) : Γ.Stable p fun L => ∀ x, B x L :=
  fun L e h he x => hB x L e (h x) he

lemma stable_exists {κ : Type} {B : κ → Ledger π Ω ι ρ ε ν σ → Prop}
    (hB : ∀ x, Γ.Stable p (B x)) : Γ.Stable p fun L => ∃ x, B x L :=
  fun L e ⟨x, hx⟩ he => ⟨x, hB x L e hx he⟩

variable (Γ p o) in
/-- The program, run by `p` as part of `o` from any later moment, keeps to the
guarantee as long as the assumption is met, and ends with `Q`, at its end and
from then on. -/
def Secure : Prog ι ρ ε α → (Except ε α → Ledger π Ω ι ρ ε ν σ → Prop) →
    Ledger π Ω ι ρ ε ν σ → Prop
  | .ret a, Q, L => ∀ L', Γ.Env p L L' → Q (.ok a) L'
  | .raise e, Q, L => ∀ L', Γ.Env p L L' → Q (.error e) L'
  | .call i k, Q, L => ∀ L', Γ.Env p L L' → ∀ r s, Γ.act i (Γ.now L') r s →
      Γ.Ok L' (.call p o i r s) →
        Γ.Guar L' (.call p o i r s) ∧ Secure (k r) Q (.call p o i r s :: L')

variable {c : Prog ι ρ ε α} {Q Q' : Except ε α → Ledger π Ω ι ρ ε ν σ → Prop}

lemma secure_done (out : Except ε α) :
    Γ.Secure p o (Prog.done out) Q L ↔ ∀ L', Γ.Env p L L' → Q out L' := by
  cases out <;> rfl

lemma secure_call (i : ι) (k : Except ε (ρ i) → Prog ι ρ ε α) :
    Γ.Secure p o (.call i k) Q L ↔ ∀ L', Γ.Env p L L' → ∀ r s, Γ.act i (Γ.now L') r s →
      Γ.Ok L' (.call p o i r s) →
        Γ.Guar L' (.call p o i r s) ∧ Γ.Secure p o (k r) Q (.call p o i r s :: L') := Iff.rfl

/-- Steps of the others do not harm a secure program. -/
lemma Secure.env (h : Γ.Secure p o c Q L) (henv : Γ.Env p L L') : Γ.Secure p o c Q L' := by
  cases c with
  | ret a => exact fun L'' henv' => h L'' (henv.trans henv')
  | raise e => exact fun L'' henv' => h L'' (henv.trans henv')
  | call i k => exact fun L'' henv' => h L'' (henv.trans henv')

/-- The postcondition holds in the end, whatever the others do. -/
lemma Secure.mono (h : Γ.Secure p o c Q L) (hQ : ∀ r L', Q r L' → Q' r L') :
    Γ.Secure p o c Q' L := by
  induction c generalizing L with
  | ret a => exact fun L' henv => hQ _ _ (h L' henv)
  | raise e => exact fun L' henv => hQ _ _ (h L' henv)
  | call i k ih =>
      intro L' henv r s hact hok
      obtain ⟨hguar, hrest⟩ := h L' henv r s hact hok
      exact ⟨hguar, ih r hrest⟩

/-- Sequencing. -/
lemma secure_handle {Q : Except ε β → Ledger π Ω ι ρ ε ν σ → Prop}
    (k : Except ε α → Prog ι ρ ε β) :
    Γ.Secure p o (c.handle k) Q L ↔ Γ.Secure p o c (fun r L' => Γ.Secure p o (k r) Q L') L := by
  induction c generalizing L with
  | ret a =>
      constructor
      · exact fun h L' henv => Secure.env h henv
      · exact fun h => h L .refl
  | raise e =>
      constructor
      · exact fun h L' henv => Secure.env h henv
      · exact fun h => h L .refl
  | call i c ih => simp only [Prog.handle, secure_call, ih]

lemma secure_bind {Q : Except ε β → Ledger π Ω ι ρ ε ν σ → Prop} (f : α → Prog ι ρ ε β) :
    Γ.Secure p o (c >>= f) Q L
      ↔ Γ.Secure p o c (fun r L' => Γ.Secure p o (Prog.onReturn f r) Q L') L :=
  secure_handle _

/-- One call. -/
lemma secure_perform (i : ι) {Q : Except ε (ρ i) → Ledger π Ω ι ρ ε ν σ → Prop} :
    Γ.Secure p o (Prog.perform i) Q L ↔ ∀ L', Γ.Env p L L' → ∀ r s, Γ.act i (Γ.now L') r s →
      Γ.Ok L' (.call p o i r s) → Γ.Guar L' (.call p o i r s)
        ∧ ∀ L'', Γ.Env p (.call p o i r s :: L') L'' → Q r L'' := by
  simp only [Prog.perform, secure_call, secure_done]

/-- A program that has ended. -/
lemma secure_done_of {x : Except ε α} (hQ : Γ.Stable p (Q x)) (h : Q x L) :
    Γ.Secure p o (Prog.done x) Q L :=
  (secure_done x).mpr fun _ henv => hQ.env h henv

/-- One call, from a stable precondition to a stable postcondition. -/
lemma secure_perform_of {i : ι} {Q : Except ε (ρ i) → Ledger π Ω ι ρ ε ν σ → Prop}
    (hA : Γ.Stable p A) (hQ : ∀ r, Γ.Stable p (Q r)) (h : A L)
    (hcall : ∀ L' r s, A L' → Γ.act i (Γ.now L') r s → Γ.Ok L' (.call p o i r s) →
      Γ.Guar L' (.call p o i r s) ∧ Q r (.call p o i r s :: L')) :
    Γ.Secure p o (Prog.perform i) Q L := by
  refine (secure_perform i).mpr fun L' henv r s hact hok => ?_
  obtain ⟨hguar, hpost⟩ := hcall L' r s (hA.env h henv) hact hok
  exact ⟨hguar, fun L'' henv' => (hQ r).env hpost henv'⟩

/-- A program that only makes calls which keep `A` keeps `A`. -/
lemma secure_of_uses {U : ι → Prop} (hA : Γ.Stable p A)
    (hcall : ∀ i L r s, U i → A L → Γ.act i (Γ.now L) r s → Γ.Ok L (.call p o i r s) →
      Γ.Guar L (.call p o i r s) ∧ A (.call p o i r s :: L))
    (hc : c.Uses U) (h : A L) : Γ.Secure p o c (fun _ L' => A L') L := by
  induction c generalizing L with
  | ret a => exact fun L' henv => hA.env h henv
  | raise e => exact fun L' henv => hA.env h henv
  | call i k ih =>
      intro L' henv r s hact hok
      obtain ⟨hguar, hkept⟩ := hcall i L' r s hc.1 (hA.env h henv) hact hok
      exact ⟨hguar, ih r (hc.2 r) hkept⟩

/-- A program over calls that are programs themselves: it is enough that each of
these is secure by its contract. -/
lemma secure_translate {κ : Type} {θ : κ → Type} {C : Contract κ θ ε (Ledger π Ω ι ρ ε ν σ)}
    {h : (j : κ) → Prog ι ρ ε (θ j)}
    (hC : ∀ j L, C.pre j L → Γ.Secure p o (h j) (fun r L' => C.post j L r L') L)
    {c : Prog κ θ ε α} (hQ : ∀ r, Γ.Stable p (Q r)) (hwp : c.wp C Q L) :
    Γ.Secure p o (c.translate h) Q L := by
  induction c generalizing L with
  | ret a => exact fun L' henv => (hQ _).env hwp henv
  | raise e => exact fun L' henv => (hQ _).env hwp henv
  | call j k ih =>
      rw [Prog.translate, secure_handle]
      exact (hC j L hwp.1).mono fun r L' hpost => ih r (hwp.2 r L' hpost)

end Protocol

/-! ### Soundness -/

section Soundness

variable {Γ : Protocol π Ω ι ρ ε ν σ} {prog : Ω → Prog ι ρ ε ν}
  {todo : π → List Ω} {Idle : π → List Ω → Ledger π Ω ι ρ ε ν σ → Prop}

/-- What holds of a process between its operations, or while it runs one. -/
def Protocol.Safe (Γ : Protocol π Ω ι ρ ε ν σ)
    (Idle : π → List Ω → Ledger π Ω ι ρ ε ν σ → Prop) (p : π) (L : Ledger π Ω ι ρ ε ν σ) :
    Worker Ω ι ρ ε ν → Prop
  | ⟨os, none⟩ => Idle p os L
  | ⟨os, some (o, c)⟩ => Γ.Runs p o ∧ Γ.Secure p o c
      (fun r L' => Γ.Guar L' (.finish p o r) ∧ Idle p os (.finish p o r :: L')) L

lemma Protocol.Safe.other (hstable : ∀ p os, Γ.Stable p (Idle p os)) {p : π}
    {L : Ledger π Ω ι ρ ε ν σ} {e : Event π Ω ι ρ ε ν σ} {v : Worker Ω ι ρ ε ν}
    (h : Γ.Safe Idle p L v) (he : Γ.Other p L e) : Γ.Safe Idle p (e :: L) v := by
  obtain ⟨os, _ | ⟨o, c⟩⟩ := v
  · exact hstable p os L e h he
  · exact ⟨h.1, h.2.env (.single ⟨e, he, rfl⟩)⟩

/-- A step adds at most one event to the ledger. -/
lemma Step.ledger [DecidableEq π] {act : Act ι ρ ε σ} {s₀ : σ} {S S' : System π Ω ι ρ ε ν σ}
    (h : Step act prog s₀ S S') : S'.ledger = S.ledger ∨ ∃ e, S'.ledger = e :: S.ledger := by
  cases h with
  | start _ => exact Or.inl rfl
  | call _ _ => exact Or.inr ⟨_, rfl⟩
  | finish _ => exact Or.inr ⟨_, rfl⟩

variable [DecidableEq π]

/-- One step of a process keeps all processes safe and the guarantee met. -/
lemma Step.safe (hstable : ∀ p os, Γ.Stable p (Idle p os))
    (hfinish : ∀ L p o r, Γ.Ok L (.finish p o r))
    (hop : ∀ p o os L, Idle p (o :: os) L → Γ.Runs p o ∧ Γ.Secure p o (prog o)
      (fun r L' => Γ.Guar L' (.finish p o r) ∧ Idle p os (.finish p o r :: L')) L)
    {S S' : System π Ω ι ρ ε ν σ} (hstep : Step Γ.act prog Γ.start S S')
    (hok : Meets Γ.Ok S'.ledger) (hallowed : Meets Γ.Allowed S.ledger)
    (hsafe : ∀ p, Γ.Safe Idle p S.ledger (S.worker p)) :
    Meets Γ.Allowed S'.ledger ∧ ∀ p, Γ.Safe Idle p S'.ledger (S'.worker p) := by
  -- an event of `p` leaves the others safe, and `p` with what its program says
  have hevent : ∀ p (e : Event π Ω ι ρ ε ν σ) v, e.process = p → Γ.Allowed S.ledger e →
      Γ.Safe Idle p (e :: S.ledger) v → Meets Γ.Allowed (e :: S.ledger)
        ∧ ∀ q, Γ.Safe Idle q (e :: S.ledger) (Function.update S.worker p v q) := by
    intro p e v hp he hv
    refine ⟨meets_cons.mpr ⟨he, hallowed⟩, fun q => ?_⟩
    by_cases hq : q = p
    · rw [hq, Function.update_self]
      exact hv
    · rw [Function.update_of_ne hq]
      refine Protocol.Safe.other hstable (hsafe q) ⟨?_, he⟩
      rw [hp]
      exact Ne.symm hq
  cases hstep with
  | @start p o os hworker =>
      refine ⟨hallowed, fun q => ?_⟩
      show Γ.Safe Idle q S.ledger (Function.update S.worker p ⟨os, some (o, prog o)⟩ q)
      by_cases hq : q = p
      · have hidle := hsafe p
        rw [hworker] at hidle
        rw [hq, Function.update_self]
        exact hop p o os _ hidle
      · rw [Function.update_of_ne hq]
        exact hsafe q
  | @call p o os i k r s hworker hact =>
      have hrunning := hsafe p
      rw [hworker] at hrunning
      obtain ⟨hruns, hsecure⟩ := hrunning
      have hokcall := (meets_cons.mp hok).1
      obtain ⟨hguar, hrest⟩ := hsecure _ .refl r s hact hokcall
      exact hevent p (.call p o i r s) _ rfl ⟨hruns, hact, hokcall, hguar⟩ ⟨hruns, hrest⟩
  | @finish p o os r hworker =>
      have hrunning := hsafe p
      rw [hworker] at hrunning
      obtain ⟨hruns, hsecure⟩ := hrunning
      obtain ⟨hguar, hidle⟩ := (Protocol.secure_done r).mp hsecure _ .refl
      exact hevent p (.finish p o r) _ rfl ⟨hruns, trivial, hfinish _ _ _ _, hguar⟩ hidle

/-- **Soundness.** If every operation is secure from the idle states of its
process, and these are stable, then in every run that meets the assumption every
step meets the guarantee, and every process is idle or secure. -/
theorem Reachable.sound (hstable : ∀ p os, Γ.Stable p (Idle p os))
    (hfinish : ∀ L p o r, Γ.Ok L (.finish p o r)) (hinit : ∀ p, Idle p (todo p) [])
    (hop : ∀ p o os L, Idle p (o :: os) L → Γ.Runs p o ∧ Γ.Secure p o (prog o)
      (fun r L' => Γ.Guar L' (.finish p o r) ∧ Idle p os (.finish p o r :: L')) L)
    {S : System π Ω ι ρ ε ν σ} (hreach : Reachable Γ.act prog Γ.start todo S)
    (hok : Meets Γ.Ok S.ledger) :
    Meets Γ.Allowed S.ledger ∧ ∀ p, Γ.Safe Idle p S.ledger (S.worker p) := by
  induction hreach with
  | refl => exact ⟨meets_nil, hinit⟩
  | @tail S₁ S₂ _ hstep ih =>
      have hbefore : Meets Γ.Ok S₁.ledger := by
        rcases hstep.ledger with heq | ⟨e, heq⟩
        · rw [← heq]
          exact hok
        · rw [heq] at hok
          exact (meets_cons.mp hok).2
      obtain ⟨hallowed, hsafe⟩ := ih hbefore
      exact Step.safe hstable hfinish hop hstep hok hallowed hsafe

end Soundness

/-! ### Schedules -/

section Schedules

variable [DecidableEq π]

/-- The next step of one process, over calls that are functions. -/
def tick (exec : Exec ι ρ ε σ) (prog : Ω → Prog ι ρ ε ν) (s₀ : σ) (S : System π Ω ι ρ ε ν σ)
    (p : π) : System π Ω ι ρ ε ν σ :=
  match S.worker p with
  | ⟨[], none⟩ => S
  | ⟨o :: os, none⟩ =>
      { ledger := S.ledger
        worker := Function.update S.worker p ⟨os, some (o, prog o)⟩ }
  | ⟨os, some (o, .ret a)⟩ =>
      { ledger := .finish p o (.ok a) :: S.ledger
        worker := Function.update S.worker p ⟨os, none⟩ }
  | ⟨os, some (o, .raise e)⟩ =>
      { ledger := .finish p o (.error e) :: S.ledger
        worker := Function.update S.worker p ⟨os, none⟩ }
  | ⟨os, some (o, .call i k)⟩ =>
      { ledger := .call p o i (exec i (world s₀ S.ledger)).1 (exec i (world s₀ S.ledger)).2
          :: S.ledger
        worker := Function.update S.worker p ⟨os, some (o, k (exec i (world s₀ S.ledger)).1)⟩ }

/-- The run in which the processes move on in the order of the schedule. -/
def runSchedule (exec : Exec ι ρ ε σ) (prog : Ω → Prog ι ρ ε ν) (s₀ : σ) (todo : π → List Ω)
    (schedule : List π) : System π Ω ι ρ ε ν σ :=
  schedule.foldl (tick exec prog s₀) (System.initial todo)

/-- The process has nothing more to do. -/
def Worker.isIdle : Worker Ω ι ρ ε ν → Bool
  | ⟨[], none⟩ => true
  | _ => false

omit [DecidableEq π] in
lemma System.finished_of_isIdle {S : System π Ω ι ρ ε ν σ} (h : ∀ p, (S.worker p).isIdle) :
    S.Finished := by
  intro p
  have hp := h p
  rcases hw : S.worker p with ⟨_ | ⟨o, os⟩, _ | running⟩
  · rfl
  · rw [hw] at hp
    exact nomatch hp
  · rw [hw] at hp
    exact nomatch hp
  · rw [hw] at hp
    exact nomatch hp

lemma step_tick (exec : Exec ι ρ ε σ) (prog : Ω → Prog ι ρ ε ν) (s₀ : σ)
    (S : System π Ω ι ρ ε ν σ) (p : π) :
    tick exec prog s₀ S p = S ∨ Step exec.graph prog s₀ S (tick exec prog s₀ S p) := by
  rw [tick]
  split
  · exact Or.inl rfl
  · next hworker => exact Or.inr (.start hworker)
  · next o os a hworker => exact Or.inr (.finish (r := .ok a) hworker)
  · next o os e hworker => exact Or.inr (.finish (r := .error e) hworker)
  · next hworker => exact Or.inr (.call hworker rfl)

/-- More actions give more runs. -/
lemma Reachable.mono {act act' : Act ι ρ ε σ} (hle : ∀ i s r s', act i s r s' → act' i s r s')
    {prog : Ω → Prog ι ρ ε ν} {s₀ : σ} {todo : π → List Ω} {S : System π Ω ι ρ ε ν σ}
    (h : Reachable act prog s₀ todo S) : Reachable act' prog s₀ todo S := by
  have hstep : ∀ S₁ S₂ : System π Ω ι ρ ε ν σ, Step act prog s₀ S₁ S₂ →
      Step act' prog s₀ S₁ S₂ := by
    intro S₁ S₂ hstep
    cases hstep with
    | start hworker => exact .start hworker
    | call hworker hact => exact .call hworker (hle _ _ _ _ hact)
    | finish hworker => exact .finish hworker
  exact Relation.ReflTransGen.mono hstep _ _ h

/-- A schedule is a run. -/
theorem reachable_runSchedule (exec : Exec ι ρ ε σ) (prog : Ω → Prog ι ρ ε ν) (s₀ : σ)
    (todo : π → List Ω) (schedule : List π) :
    Reachable exec.graph prog s₀ todo (runSchedule exec prog s₀ todo schedule) := by
  have key : ∀ S, Reachable exec.graph prog s₀ todo S →
      Reachable exec.graph prog s₀ todo (schedule.foldl (tick exec prog s₀) S) := by
    induction schedule with
    | nil => exact fun S h => h
    | cons p schedule ih =>
        intro S hS
        rw [List.foldl_cons]
        refine ih _ ?_
        rcases step_tick exec prog s₀ S p with heq | hstep
        · rw [heq]
          exact hS
        · exact hS.tail hstep
  exact key _ .refl

end Schedules

end Calls
