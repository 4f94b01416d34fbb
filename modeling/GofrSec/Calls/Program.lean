/-
Programs over a set of atomic calls, and what it means to run them.

* `Prog ι ρ ε α`: a program that makes calls `i : ι`, each answered by a value
  of `ρ i` or by an exception of `ε`, and that ends by returning an `α` or by
  raising; the continuation of a call sees the exception, so a handler can
  catch it;
* `Prog.handle`: sequencing on the outcome of a program, from which `>>=`,
  `tryCatch` and the translation of calls into programs are all derived;
* `Prog.Runs`: the runs of a program when each call is a relation between
  states (`Act`), so that calls may fail, or answer in several ways;
* `Prog.run`: the run of a program when each call is a function (`Exec`);
  `runs_graph_iff` says that the two agree;
* `runs_translate_iff`: running a translated program is running the program
  with every call replaced by the runs of its translation.
-/
import Mathlib.Logic.Basic

namespace Calls

variable {ι κ : Type} {ρ : ι → Type} {τ : κ → Type} {ε σ α β : Type}

/-- A program over the calls `ι`: call `i` is answered in `ρ i`. -/
inductive Prog (ι : Type) (ρ : ι → Type) (ε α : Type) : Type where
  | ret : α → Prog ι ρ ε α
  | raise : ε → Prog ι ρ ε α
  | call : (i : ι) → (Except ε (ρ i) → Prog ι ρ ε α) → Prog ι ρ ε α

namespace Prog

/-- The program that stops with a given outcome. -/
def done : Except ε α → Prog ι ρ ε α
  | .ok a => .ret a
  | .error e => .raise e

/-- Run `p`, then continue with its outcome, whether returned or raised. -/
def handle : Prog ι ρ ε α → (Except ε α → Prog ι ρ ε β) → Prog ι ρ ε β
  | .ret a, k => k (.ok a)
  | .raise e, k => k (.error e)
  | .call i c, k => .call i fun r => (c r).handle k

/-- What follows a returned value; a raised exception passes through. -/
def onReturn (f : α → Prog ι ρ ε β) : Except ε α → Prog ι ρ ε β
  | .ok a => f a
  | .error e => .raise e

/-- What follows a raised exception; a returned value passes through. -/
def onRaise (h : ε → Prog ι ρ ε α) : Except ε α → Prog ι ρ ε α
  | .ok a => .ret a
  | .error e => h e

instance : Monad (Prog ι ρ ε) where
  pure := .ret
  bind p f := p.handle (onReturn f)

instance : MonadExceptOf ε (Prog ι ρ ε) where
  throw := .raise
  tryCatch p h := p.handle (onRaise h)

/-- One call. -/
def perform (i : ι) : Prog ι ρ ε (ρ i) := .call i done

/-- A computation of `Except`, as a program without calls. -/
def lift (x : Except ε α) : Prog ι ρ ε α := done x

/-- Make the calls of a list one after another, ignoring their answers. -/
def performAll : List ι → Prog ι ρ ε Unit
  | [] => .ret ()
  | i :: is => .call i fun
      | .ok _ => performAll is
      | .error e => .raise e

/-- Replace each call by a program over another set of calls. -/
def translate (h : (i : ι) → Prog κ τ ε (ρ i)) : Prog ι ρ ε α → Prog κ τ ε α
  | .ret a => .ret a
  | .raise e => .raise e
  | .call i k => (h i).handle fun r => (k r).translate h

@[simp] lemma onReturn_ok (f : α → Prog ι ρ ε β) (a : α) : onReturn f (.ok a) = f a := rfl

@[simp] lemma onReturn_error (f : α → Prog ι ρ ε β) (e : ε) :
    onReturn f (.error e) = .raise e := rfl

lemma bind_eq (p : Prog ι ρ ε α) (f : α → Prog ι ρ ε β) :
    p >>= f = p.handle (onReturn f) := rfl

@[simp] lemma done_handle (o : Except ε α) (k : Except ε α → Prog ι ρ ε β) :
    (done o : Prog ι ρ ε α).handle k = k o := by
  cases o <;> rfl

lemma handle_assoc {γ : Type} (p : Prog ι ρ ε α) (k : Except ε α → Prog ι ρ ε β)
    (l : Except ε β → Prog ι ρ ε γ) :
    (p.handle k).handle l = p.handle fun r => (k r).handle l := by
  induction p with
  | ret a => rfl
  | raise e => rfl
  | call i c ih => simp only [handle, ih]

lemma handle_done (p : Prog ι ρ ε α) : p.handle done = p := by
  induction p with
  | ret a => rfl
  | raise e => rfl
  | call i c ih => simp only [handle, ih]

lemma bind_ret (p : Prog ι ρ ε α) : p.handle (onReturn .ret) = p := by
  have hdone : (onReturn .ret : Except ε α → Prog ι ρ ε α) = done := by
    funext r
    cases r <;> rfl
  rw [hdone, handle_done]

lemma bind_bind {γ : Type} (p : Prog ι ρ ε α) (f : α → Prog ι ρ ε β) (g : β → Prog ι ρ ε γ) :
    (p.handle (onReturn f)).handle (onReturn g)
      = p.handle (onReturn fun a => (f a).handle (onReturn g)) := by
  rw [handle_assoc]
  congr 1
  funext r
  cases r <;> rfl

instance : LawfulMonad (Prog ι ρ ε) :=
  LawfulMonad.mk' _ bind_ret (fun _ _ => rfl) bind_bind

lemma performAll_cons (i : ι) (is : List ι) :
    (performAll (i :: is) : Prog ι ρ ε Unit) = perform i >>= fun _ => performAll is := by
  rw [performAll, bind_eq, perform, handle]
  congr 1
  funext r
  cases r <;> rfl

lemma performAll_append (is js : List ι) :
    (performAll (is ++ js) : Prog ι ρ ε Unit) = performAll is >>= fun _ => performAll js := by
  induction is with
  | nil => rfl
  | cons i is ih => simp only [List.cons_append, performAll_cons, ih, bind_assoc]

end Prog

/-! ### Calls as relations between states -/

/-- How calls act on a state: `act i s r s'` when call `i`, made in `s`, may
be answered by `r` and leave `s'`. -/
abbrev Act (ι : Type) (ρ : ι → Type) (ε σ : Type) : Type :=
  (i : ι) → σ → Except ε (ρ i) → σ → Prop

/-- Calls that have exactly one answer and effect in each state. -/
abbrev Exec (ι : Type) (ρ : ι → Type) (ε σ : Type) : Type :=
  (i : ι) → σ → Except ε (ρ i) × σ

/-- The graph of a function on states, as a relation. -/
def Exec.graph (exec : Exec ι ρ ε σ) : Act ι ρ ε σ := fun i s r s' => exec i s = (r, s')

/-- Calls that act as `act`, or that raise without effect where `may` allows it. -/
def Act.faulty (may : ι → Prop) (act : Act ι ρ ε σ) : Act ι ρ ε σ := fun i s r s' =>
  act i s r s' ∨ (may i ∧ (∃ e, r = .error e) ∧ s' = s)

namespace Prog

/-- `p.Runs act s o s'`: from `s`, the program may end with outcome `o` in `s'`. -/
def Runs (act : Act ι ρ ε σ) : Prog ι ρ ε α → σ → Except ε α → σ → Prop
  | .ret a, s, o, s' => o = .ok a ∧ s' = s
  | .raise e, s, o, s' => o = .error e ∧ s' = s
  | .call i k, s, o, s' => ∃ r s₁, act i s r s₁ ∧ (k r).Runs act s₁ o s'

/-- The run of a program over calls that are functions. -/
def run (exec : Exec ι ρ ε σ) : Prog ι ρ ε α → σ → Except ε α × σ
  | .ret a, s => (.ok a, s)
  | .raise e, s => (.error e, s)
  | .call i k, s => (k (exec i s).1).run exec (exec i s).2

lemma runs_handle_iff {act : Act ι ρ ε σ} (p : Prog ι ρ ε α)
    (k : Except ε α → Prog ι ρ ε β) {s s' : σ} {o : Except ε β} :
    (p.handle k).Runs act s o s' ↔ ∃ r s₁, p.Runs act s r s₁ ∧ (k r).Runs act s₁ o s' := by
  induction p generalizing s with
  | ret a => simp [handle, Runs, and_assoc]
  | raise e => simp [handle, Runs, and_assoc]
  | call i c ih =>
      simp only [handle, Runs, ih]
      constructor
      · rintro ⟨r, s₁, hact, r', s₂, hc, hk⟩
        exact ⟨r', s₂, ⟨r, s₁, hact, hc⟩, hk⟩
      · rintro ⟨r', s₂, ⟨r, s₁, hact, hc⟩, hk⟩
        exact ⟨r, s₁, hact, r', s₂, hc, hk⟩

lemma runs_done_iff {act : Act ι ρ ε σ} {o o' : Except ε α} {s s' : σ} :
    (done o : Prog ι ρ ε α).Runs act s o' s' ↔ o' = o ∧ s' = s := by
  cases o <;> rfl

lemma runs_perform_iff {act : Act ι ρ ε σ} {i : ι} {r : Except ε (ρ i)} {s s' : σ} :
    (perform i : Prog ι ρ ε (ρ i)).Runs act s r s' ↔ act i s r s' := by
  constructor
  · rintro ⟨r', s₁, hact, hdone⟩
    obtain ⟨rfl, rfl⟩ := runs_done_iff.mp hdone
    exact hact
  · exact fun hact => ⟨r, s', hact, runs_done_iff.mpr ⟨rfl, rfl⟩⟩

lemma run_handle {exec : Exec ι ρ ε σ} (p : Prog ι ρ ε α) (k : Except ε α → Prog ι ρ ε β)
    (s : σ) : (p.handle k).run exec s = (k (p.run exec s).1).run exec (p.run exec s).2 := by
  induction p generalizing s with
  | ret a => rfl
  | raise e => rfl
  | call i c ih => simp only [handle, run, ih]

@[simp] lemma run_done {exec : Exec ι ρ ε σ} (o : Except ε α) (s : σ) :
    (done o : Prog ι ρ ε α).run exec s = (o, s) := by
  cases o <;> rfl

lemma run_lift {exec : Exec ι ρ ε σ} (x : Except ε α) (s : σ) :
    (lift x : Prog ι ρ ε α).run exec s = (x, s) := run_done x s

lemma run_perform {exec : Exec ι ρ ε σ} (i : ι) (s : σ) :
    (perform i : Prog ι ρ ε (ρ i)).run exec s = exec i s := by
  simp [perform, run]

lemma run_bind {exec : Exec ι ρ ε σ} (p : Prog ι ρ ε α) (f : α → Prog ι ρ ε β) (s : σ) :
    (p >>= f).run exec s = (onReturn f (p.run exec s).1).run exec (p.run exec s).2 :=
  run_handle p _ s

/-- Over functional calls, the only run is the one that `run` computes. -/
theorem runs_graph_iff {exec : Exec ι ρ ε σ} (p : Prog ι ρ ε α) {s s' : σ} {o : Except ε α} :
    p.Runs exec.graph s o s' ↔ p.run exec s = (o, s') := by
  induction p generalizing s with
  | ret a => simp [Runs, run, eq_comm]
  | raise e => simp [Runs, run, eq_comm]
  | call i c ih =>
      simp only [Runs, run, ih, Exec.graph]
      constructor
      · rintro ⟨r, s₁, hexec, hrun⟩
        rw [hexec]
        exact hrun
      · intro hrun
        exact ⟨_, _, rfl, hrun⟩

/-- Running a translation is running the program with each call acting as the
runs of its translation. -/
theorem runs_translate_iff {act : Act κ τ ε σ} (h : (i : ι) → Prog κ τ ε (ρ i))
    (p : Prog ι ρ ε α) {s s' : σ} {o : Except ε α} :
    (p.translate h).Runs act s o s' ↔ p.Runs (fun i => (h i).Runs act) s o s' := by
  induction p generalizing s with
  | ret a => rfl
  | raise e => rfl
  | call i k ih => simp only [translate, Runs, runs_handle_iff, ih]

/-- More actions give more runs. -/
lemma Runs.mono {act act' : Act ι ρ ε σ} (hle : ∀ i s r s', act i s r s' → act' i s r s')
    {p : Prog ι ρ ε α} {s s' : σ} {o : Except ε α} (h : p.Runs act s o s') :
    p.Runs act' s o s' := by
  induction p generalizing s with
  | ret a => exact h
  | raise e => exact h
  | call i c ih =>
      obtain ⟨r, s₁, hact, hrest⟩ := h
      exact ⟨r, s₁, hle _ _ _ _ hact, ih r hrest⟩

end Prog

end Calls
