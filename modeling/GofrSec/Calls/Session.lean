/-
Operations run one after another.

* `Session act prog s h t`: from the state `s`, the operations of the history
  `h` were run to their end, one at a time, with the outcomes it records, and
  left `t`; the newest operation stands first;
* `Session.refine`: an invariant between history and abstract state that every
  valid operation keeps holds after every session over an implementation of the
  contract;
* `Trace`: the same runs with the state before each operation kept, so that what
  held when an operation was made can be spoken of;
* `play`: the run of a list of operations over calls that are functions.
-/
import GofrSec.Calls.Contract

namespace Calls

variable {ι : Type} {ρ : ι → Type} {ε σ τ ν Ω : Type}

/-- Operations with their outcomes, the newest first. -/
abbrev History (Ω ε ν : Type) : Type := List (Ω × Except ε ν)

/-- The sessions of operations over the calls `act`. -/
inductive Session (act : Act ι ρ ε σ) (prog : Ω → Prog ι ρ ε ν) (s : σ) :
    History Ω ε ν → σ → Prop
  | start : Session act prog s [] s
  | step {h : History Ω ε ν} {t t' : σ} {o : Ω} {r : Except ε ν} :
      Session act prog s h t → (prog o).Runs act t r t' → Session act prog s ((o, r) :: h) t'

namespace Session

variable {act : Act ι ρ ε σ} {prog : Ω → Prog ι ρ ε ν} {C : Contract ι ρ ε τ}
  {R : σ → τ → Prop}

/-- **Sessions refine.** What every valid operation keeps under the contract
holds, of the whole history, after every session over an implementation. -/
theorem refine (himp : Prog.Implements R act C) {Valid : List Ω → Prop}
    (hvalid : ∀ o os, Valid (o :: os) → Valid os) {I : History Ω ε ν → τ → Prop}
    (hstep : ∀ o h a, Valid (o :: h.map Prod.fst) → I h a →
      (prog o).wp C (fun r a' => I ((o, r) :: h) a') a)
    {s t : σ} {a : τ} {h : History Ω ε ν} (hR : R s a) (hI : I [] a)
    (hsession : Session act prog s h t) (hops : Valid (h.map Prod.fst)) :
    ∃ b, R t b ∧ I h b := by
  induction hsession with
  | start => exact ⟨a, hR, hI⟩
  | @step h t t' o r hses hrun ih =>
      obtain ⟨b, hRb, hIb⟩ := ih (hvalid _ _ hops)
      exact Prog.Runs.refine himp hRb (hstep o h b hops hIb) hrun

/-- More actions give more sessions. -/
lemma mono {act' : Act ι ρ ε σ} (hle : ∀ i s r s', act i s r s' → act' i s r s') {s t : σ}
    {h : History Ω ε ν} (hsession : Session act prog s h t) : Session act' prog s h t := by
  induction hsession with
  | start => exact .start
  | step _ hrun ih => exact .step ih (hrun.mono hle)

end Session

/-- An operation of a run: the state it found, and its outcome. -/
structure Moment (Ω ε ν σ : Type) where
  before : σ
  op : Ω
  outcome : Except ε ν

/-- The runs of operations over the calls `act`, moment by moment, the newest
first. -/
inductive Trace (act : Act ι ρ ε σ) (prog : Ω → Prog ι ρ ε ν) (s : σ) :
    List (Moment Ω ε ν σ) → σ → Prop
  | start : Trace act prog s [] s
  | step {ms : List (Moment Ω ε ν σ)} {t t' : σ} {o : Ω} {r : Except ε ν} :
      Trace act prog s ms t → (prog o).Runs act t r t' →
        Trace act prog s ({ before := t, op := o, outcome := r } :: ms) t'

/-- A session, with the states that its operations found, is a run. -/
lemma Session.trace {act : Act ι ρ ε σ} {prog : Ω → Prog ι ρ ε ν} {s t : σ}
    {h : History Ω ε ν} (hsession : Session act prog s h t) :
    ∃ ms, Trace act prog s ms t ∧ (ms.map fun m => (m.op, m.outcome)) = h := by
  induction hsession with
  | start => exact ⟨[], .start, rfl⟩
  | step _ hrun ih =>
      obtain ⟨ms, htrace, hms⟩ := ih
      exact ⟨_ :: ms, .step htrace hrun, congrArg (_ :: ·) hms⟩

namespace Trace

variable {act : Act ι ρ ε σ} {prog : Ω → Prog ι ρ ε ν}

/-- A run, without the states, is a session. -/
lemma session {s t : σ} {ms : List (Moment Ω ε ν σ)} (h : Trace act prog s ms t) :
    Session act prog s (ms.map fun m => (m.op, m.outcome)) t := by
  induction h with
  | start => exact .start
  | step _ hrun ih => exact .step ih hrun

/-- More actions give more runs. -/
lemma mono {act' : Act ι ρ ε σ} (hle : ∀ i s r s', act i s r s' → act' i s r s') {s t : σ}
    {ms : List (Moment Ω ε ν σ)} (h : Trace act prog s ms t) : Trace act' prog s ms t := by
  induction h with
  | start => exact .start
  | step _ hrun ih => exact .step ih (hrun.mono hle)

end Trace

/-! ### Runs over functional calls -/

/-- The run of a list of operations, the newest first, over calls that are
functions: its moments, and the state it leaves. -/
def play (exec : Exec ι ρ ε σ) (prog : Ω → Prog ι ρ ε ν) (s : σ) :
    List Ω → List (Moment Ω ε ν σ) × σ
  | [] => ([], s)
  | o :: os =>
      let before := play exec prog s os
      let out := (prog o).run exec before.2
      ({ before := before.2, op := o, outcome := out.1 } :: before.1, out.2)

variable {exec : Exec ι ρ ε σ} {prog : Ω → Prog ι ρ ε ν}

lemma play_trace (s : σ) (os : List Ω) :
    Trace exec.graph prog s (play exec prog s os).1 (play exec prog s os).2 := by
  induction os with
  | nil => exact .start
  | cons o os ih => exact .step ih ((Prog.runs_graph_iff (prog o)).mpr rfl)

/-- The moments are of the operations that were played. -/
lemma map_op_play (s : σ) (os : List Ω) : (play exec prog s os).1.map Moment.op = os := by
  induction os with
  | nil => rfl
  | cons o os ih => rw [play, List.map_cons, ih]

/-- An operation that succeeds is in the run with its result. -/
lemma mem_play_of_isOk {s : σ} {o : Ω} {os : List Ω}
    (h : ((prog o).run exec (play exec prog s os).2).1.isOk) :
    ∃ v, (o, .ok v) ∈ (play exec prog s (o :: os)).1.map fun m => (m.op, m.outcome) := by
  cases hout : ((prog o).run exec (play exec prog s os).2).1 with
  | error e =>
      rw [hout] at h
      exact nomatch h
  | ok v =>
      refine ⟨v, ?_⟩
      rw [← hout]
      exact List.mem_cons_self

end Calls
