/-
Runs that follow a machine.

* `replay`: the run of a machine, which answers each command and goes on to a next state,
  on a list of commands;
* `Trace.tracks`: if every operation answers as the machine does to the command that it
  stands for in the state that it finds, then every run of operations is a run of the
  machine: the same answers, and the state that is reached.
-/
import GofrSec.Calls.Session

namespace Calls

/-- The answers of a machine to a list of commands, the newest first, and the state that it
reaches. -/
def replay {κ σ ω : Type} (step : σ → κ → ω × σ) (s : σ) : List κ → List ω × σ
  | [] => ([], s)
  | c :: cs =>
      let before := replay step s cs
      let out := step before.2 c
      (out.1 :: before.1, out.2)

variable {ι : Type} {ρ : ι → Type} {ε σ τ ν Ω κ υ ω : Type}
  {act : Act ι ρ ε σ} {prog : Ω → Prog ι ρ ε ν}

/-- **Runs track a machine**, of which the states related by `R` show a part. -/
theorem Trace.tracks {Valid : Ω → Prop} {R : σ → τ → Prop} (view : τ → υ)
    (step : υ → κ → ω × υ) (command : σ → Ω → κ) (observe : Except ε ν → ω)
    (hstep : ∀ o s a r s', Valid o → R s a → (prog o).Runs act s r s' →
      ∃ a', R s' a' ∧ step (view a) (command s o) = (observe r, view a'))
    {s t : σ} {a : τ} {ms : List (Moment Ω ε ν σ)} (hR : R s a)
    (htrace : Trace act prog s ms t) (hvalid : ∀ m ∈ ms, Valid m.op) :
    ∃ b, R t b ∧ replay step (view a) (ms.map fun m => command m.before m.op)
      = (ms.map fun m => observe m.outcome, view b) := by
  induction htrace with
  | start => exact ⟨a, hR, rfl⟩
  | @step ms t t' o r _ hrun ih =>
      obtain ⟨b, hb, hreplay⟩ := ih fun m hm => hvalid m (List.mem_cons_of_mem _ hm)
      obtain ⟨b', hb', hcommand⟩ := hstep o t b r t' (hvalid _ List.mem_cons_self) hb hrun
      refine ⟨b', hb', ?_⟩
      rw [List.map_cons, replay, hreplay]
      dsimp only
      rw [hcommand, List.map_cons]

end Calls
