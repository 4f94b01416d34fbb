/-
Runs in which calls raise.

* `Exec.failing exec e`: the calls over states with a counter; the call at which
  the counter stands at zero raises `e` without taking effect, and all others are
  those of `exec`;
* `run_failing_performAll`: of calls made one after another, those before the
  failing one take effect;
* `Prog.Strict`: a program that never returns once a call has raised;
  `Strict.runs`: the runs in which it returns are runs in which no call raises;
* `Act.recording`: the calls with a record of them and of their answers;
  `runs_recording_performAll`: what the record says of calls of which one raised.
-/
import GofrSec.Calls.Contract
import Mathlib.Data.List.Basic
import Mathlib.Data.Nat.Notation

namespace Calls

variable {ι : Type} {ρ : ι → Type} {ε σ α β : Type}

/-- The calls `exec`, of which the one numbered by the counter raises `e`; `none` when no
call is to raise any more. -/
def Exec.failing (exec : Exec ι ρ ε σ) (e : ε) : Exec ι ρ ε (σ × Option ℕ)
  | _, (s, some 0) => (.error e, s, none)
  | i, (s, some (n + 1)) => ((exec i s).1, (exec i s).2, some n)
  | i, (s, none) => ((exec i s).1, (exec i s).2, none)

namespace Prog

variable {exec : Exec ι ρ ε σ} {e : ε}

/-- Of calls made one after another the first ones take effect, as many as the counter
says. -/
lemma run_failing_performAll {is : List ι} (hok : ∀ i ∈ is, ∀ s, ((exec i s).1).isOk) (n : ℕ)
    (s : σ) : ((performAll is : Prog ι ρ ε Unit).run (exec.failing e) (s, some n)).2.1
      = (is.take n).foldl (fun s i => (exec i s).2) s := by
  induction is generalizing n s with
  | nil =>
      rw [List.take_nil]
      rfl
  | cons i is ih =>
      rw [performAll_cons, run_bind, run_perform]
      cases n with
      | zero => rfl
      | succ n =>
          have hi := hok i List.mem_cons_self s
          cases hexec : (exec i s).1 with
          | error e' =>
              rw [hexec] at hi
              cases hi
          | ok v =>
              simp only [Exec.failing, hexec, onReturn_ok, List.take_succ_cons, List.foldl_cons]
              exact ih (fun j hj => hok j (List.mem_cons_of_mem _ hj)) n _

/-! ### Programs that a raised exception ends -/

/-- The program never returns. -/
abbrev Never (p : Prog ι ρ ε α) : Prop := p.Returns fun _ => False

/-- Once a call has raised, the program does not return any more. -/
def Strict : Prog ι ρ ε α → Prop
  | .ret _ => True
  | .raise _ => True
  | .call _ k => (∀ e, (k (.error e)).Never) ∧ ∀ v, (k (.ok v)).Strict

@[simp] lemma strict_done (o : Except ε α) : (done o : Prog ι ρ ε α).Strict := by
  cases o <;> trivial

@[simp] lemma strict_lift (o : Except ε α) : (lift o : Prog ι ρ ε α).Strict := strict_done o

@[simp] lemma strict_pure (a : α) : (pure a : Prog ι ρ ε α).Strict := trivial

@[simp] lemma strict_throw (e : ε) : (throw e : Prog ι ρ ε α).Strict := trivial

@[simp] lemma strict_perform (i : ι) : (perform i : Prog ι ρ ε (ρ i)).Strict :=
  ⟨fun _ => trivial, fun _ => trivial⟩

lemma Never.handle {p : Prog ι ρ ε α} {k : Except ε α → Prog ι ρ ε β} (hp : p.Never)
    (hk : ∀ e, (k (.error e)).Never) : (p.handle k).Never := by
  induction p with
  | ret a => exact hp.elim
  | raise e => exact hk e
  | call i c ih => exact fun r => ih r (hp r)

/-- A program that never returns is strict. -/
lemma Never.strict {p : Prog ι ρ ε α} (hp : p.Never) : p.Strict := by
  induction p with
  | ret a => exact hp.elim
  | raise e => trivial
  | call i c ih => exact ⟨fun e => hp (.error e), fun v => ih (.ok v) (hp (.ok v))⟩

/-- Sequencing, when what follows an exception does not return. -/
lemma Strict.handle {p : Prog ι ρ ε α} {k : Except ε α → Prog ι ρ ε β} (hp : p.Strict)
    (hok : ∀ a, (k (.ok a)).Strict) (herr : ∀ e, (k (.error e)).Never) :
    (p.handle k).Strict := by
  induction p with
  | ret a => exact hok a
  | raise e => exact (herr e).strict
  | call i c ih =>
      exact ⟨fun e => (hp.1 e).handle herr, fun v => ih (.ok v) (hp.2 v)⟩

lemma Strict.bind {p : Prog ι ρ ε α} {f : α → Prog ι ρ ε β} (hp : p.Strict)
    (hf : ∀ a, (f a).Strict) : (p >>= f).Strict :=
  hp.handle hf fun _ => trivial

lemma strict_performAll (is : List ι) : (performAll is : Prog ι ρ ε Unit).Strict := by
  induction is with
  | nil => trivial
  | cons i is ih =>
      rw [performAll_cons]
      exact (strict_perform i).bind fun _ => ih

/-- **A strict program returns only where no call raises**: its runs that return are runs
over any calls that answer as these do when they do not raise. -/
theorem Strict.runs {act act' : Act ι ρ ε σ}
    (hact : ∀ i s v s', act i s (.ok v) s' → act' i s (.ok v) s') {p : Prog ι ρ ε α}
    (hp : p.Strict) {s s' : σ} {a : α} (hrun : p.Runs act s (.ok a) s') :
    p.Runs act' s (.ok a) s' := by
  induction p generalizing s with
  | ret b => exact hrun
  | raise e => exact hrun
  | call i k ih =>
      obtain ⟨r, s₁, hcall, hrest⟩ := hrun
      cases r with
      | error e => exact ((hp.1 e).of_runs hrest).elim
      | ok v => exact ⟨.ok v, s₁, hact i s v s₁ hcall, ih (.ok v) (hp.2 v) hrest⟩

end Prog

/-! ### The record of a run -/

/-- A call and its answer. -/
abbrev Answered (ι : Type) (ρ : ι → Type) (ε : Type) : Type := (i : ι) × Except ε (ρ i)

/-- The calls `act`, with a record of the calls made and of their answers, the oldest
first. -/
def Act.recording (act : Act ι ρ ε σ) : Act ι ρ ε (σ × List (Answered ι ρ ε)) :=
  fun i s r s' => act i s.1 r s'.1 ∧ s'.2 = s.2 ++ [⟨i, r⟩]

namespace Prog

variable {act : Act ι ρ ε σ}

/-- The record of a run takes no part in it. -/
lemma Runs.of_recording {p : Prog ι ρ ε α} {s s' : σ × List (Answered ι ρ ε)} {o : Except ε α}
    (hrun : p.Runs act.recording s o s') : p.Runs act s.1 o s'.1 := by
  induction p generalizing s with
  | ret a => exact ⟨hrun.1, congrArg Prod.fst hrun.2⟩
  | raise e => exact ⟨hrun.1, congrArg Prod.fst hrun.2⟩
  | call i k ih =>
      obtain ⟨r, s₁, hact, hrest⟩ := hrun
      exact ⟨r, s₁.1, hact.1, ih r hrest⟩

/-- Every run can be recorded. -/
lemma Runs.recorded {p : Prog ι ρ ε α} {s s' : σ} {o : Except ε α} (hrun : p.Runs act s o s')
    (before : List (Answered ι ρ ε)) :
    ∃ record, p.Runs act.recording (s, before) o (s', record) := by
  induction p generalizing s before with
  | ret a =>
      obtain ⟨rfl, rfl⟩ := hrun
      exact ⟨before, rfl, rfl⟩
  | raise e =>
      obtain ⟨rfl, rfl⟩ := hrun
      exact ⟨before, rfl, rfl⟩
  | call i k ih =>
      obtain ⟨r, s₁, hact, hrest⟩ := hrun
      obtain ⟨record, hrecord⟩ := ih r hrest (before ++ [⟨i, r⟩])
      exact ⟨record, r, (s₁, before ++ [⟨i, r⟩]), ⟨hact, rfl⟩, hrecord⟩

/-- Of calls made one after another that raise, the last one on record raised the
exception, and those before it have returned. -/
lemma runs_recording_performAll {is : List ι} {s s' : σ × List (Answered ι ρ ε)} {e : ε}
    (hrun : (performAll is : Prog ι ρ ε Unit).Runs act.recording s (.error e) s') :
    ∃ answered i js s₁, is = answered.map Sigma.fst ++ i :: js ∧ (∀ a ∈ answered, a.2.isOk)
      ∧ (performAll (answered.map Sigma.fst) : Prog ι ρ ε Unit).Runs act s.1 (.ok ()) s₁
      ∧ act i s₁ (.error e) s'.1 ∧ s'.2 = s.2 ++ answered ++ [⟨i, .error e⟩] := by
  induction is generalizing s with
  | nil => exact nomatch hrun.1
  | cons i is ih =>
      obtain ⟨r, s₁, ⟨hact, hrecord⟩, hrest⟩ := hrun
      cases r with
      | error e' =>
          obtain ⟨heq, rfl⟩ := hrest
          obtain rfl := Except.error.inj heq
          refine ⟨[], i, is, s.1, rfl, by rintro _ ⟨⟩, ⟨rfl, rfl⟩, hact, ?_⟩
          rw [hrecord, List.append_nil]
      | ok v =>
          obtain ⟨answered, j, js, t, his, hok, hruns, hraised, hlog⟩ := ih hrest
          refine ⟨⟨i, .ok v⟩ :: answered, j, js, t, ?_, ?_, ⟨.ok v, s₁.1, hact, hruns⟩, hraised, ?_⟩
          · rw [his, List.map_cons, List.cons_append]
          · exact List.forall_mem_cons.mpr ⟨rfl, hok⟩
          · rw [hlog, hrecord]
            simp

end Prog

end Calls
