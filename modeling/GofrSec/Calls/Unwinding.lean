/-
Processes that do not notice others.

* `Event.Alike`: the same step, made in two runs whose states look alike;
* `Unwinds View act act' Own Other`: the calls of kind `Own` answer alike in states that
  look alike and leave such states, and the calls of kind `Other` change nothing that is
  looked at;
* `Mirrors`: what a run without the other processes has in common with one amid them;
  `Step.mirrored` is its step, and `Reachable.unwind` says that whatever some processes do
  amid the others, they can do alone.
-/
import GofrSec.Calls.Interleave
import Mathlib.Data.List.Forall2

namespace Calls

variable {π Ω ι : Type} {ρ : ι → Type} {ε ν σ τ : Type}

/-- What every call is translated to is what the whole program uses. -/
lemma Prog.uses_translate {κ : Type} {θ : κ → Type} {α : Type} {U : ι → Prop}
    {h : (j : κ) → Prog ι ρ ε (θ j)} (hU : ∀ j, (h j).Uses U) (p : Prog κ θ ε α) :
    (p.translate h).Uses U := by
  induction p with
  | ret a => trivial
  | raise e => trivial
  | call j k ih => exact (hU j).handle ih

/-- The same step in two runs, whose states look alike after it. -/
inductive Event.Alike (View : σ → τ → Prop) :
    Event π Ω ι ρ ε ν σ → Event π Ω ι ρ ε ν τ → Prop
  | call (p : π) (o : Ω) (i : ι) (r : Except ε (ρ i)) {s : σ} {t : τ} : View s t →
      Event.Alike View (.call p o i r s) (.call p o i r t)
  | finish (p : π) (o : Ω) (r : Except ε ν) : Event.Alike View (.finish p o r) (.finish p o r)

/-- Own calls act alike in states that look alike, and others leave the looks as they
are. -/
structure Unwinds (View : σ → τ → Prop) (act : Act ι ρ ε σ) (act' : Act ι ρ ε τ)
    (Own Other : ι → Prop) : Prop where
  own : ∀ i s t r s', Own i → View s t → act i s r s' → ∃ t', act' i t r t' ∧ View s' t'
  other : ∀ i s t r s', Other i → View s t → act i s r s' → View s' t

/-- What a process has still to run makes calls of kind `U` only. -/
structure Worker.Uses (prog : Ω → Prog ι ρ ε ν) (U : ι → Prop) (v : Worker Ω ι ρ ε ν) :
    Prop where
  todo : ∀ o ∈ v.todo, (prog o).Uses U
  current : ∀ o c, v.current = some (o, c) → c.Uses U

section

variable {View : σ → τ → Prop} {act : Act ι ρ ε σ} {act' : Act ι ρ ε τ} {Own Other : ι → Prop}
  {prog : Ω → Prog ι ρ ε ν} {s₀ : σ} {t₀ : τ} {mine : π → Prop} [DecidablePred mine]

/-- The steps of some processes. -/
def stepsOf (mine : π → Prop) [DecidablePred mine] (L : Ledger π Ω ι ρ ε ν σ) :
    Ledger π Ω ι ρ ε ν σ := L.filter fun e => mine e.process

lemma stepsOf_cons_mine {e : Event π Ω ι ρ ε ν σ} (L : Ledger π Ω ι ρ ε ν σ)
    (h : mine e.process) : stepsOf mine (e :: L) = e :: stepsOf mine L :=
  List.filter_cons_of_pos (decide_eq_true h)

lemma stepsOf_cons_other {e : Event π Ω ι ρ ε ν σ} (L : Ledger π Ω ι ρ ε ν σ)
    (h : ¬ mine e.process) : stepsOf mine (e :: L) = stepsOf mine L :=
  List.filter_cons_of_neg (by simpa using h)

variable (View Own Other prog s₀ t₀ mine) in
/-- The run `T`, of the processes `mine` alone, does what they do in the run `S`. -/
structure Mirrors (S : System π Ω ι ρ ε ν σ) (T : System π Ω ι ρ ε ν τ) : Prop where
  ledger : List.Forall₂ (Event.Alike View) (stepsOf mine S.ledger) T.ledger
  worker : ∀ p, mine p → T.worker p = S.worker p
  now : View (world s₀ S.ledger) (world t₀ T.ledger)
  own : ∀ p, mine p → (S.worker p).Uses prog Own
  other : ∀ p, ¬ mine p → (S.worker p).Uses prog Other

lemma Worker.Uses.start {U : ι → Prop} {o : Ω} {os : List Ω}
    (h : (⟨o :: os, none⟩ : Worker Ω ι ρ ε ν).Uses prog U) :
    (⟨os, some (o, prog o)⟩ : Worker Ω ι ρ ε ν).Uses prog U := by
  refine ⟨fun o' ho' => h.todo o' (List.mem_cons_of_mem _ ho'), fun o' c hc => ?_⟩
  obtain ⟨rfl, rfl⟩ := Prod.mk.inj (Option.some.inj hc)
  exact h.todo o List.mem_cons_self

lemma Worker.Uses.answer {U : ι → Prop} {o : Ω} {os : List Ω} {i : ι}
    {k : Except ε (ρ i) → Prog ι ρ ε ν}
    (h : (⟨os, some (o, .call i k)⟩ : Worker Ω ι ρ ε ν).Uses prog U) (r : Except ε (ρ i)) :
    (⟨os, some (o, k r)⟩ : Worker Ω ι ρ ε ν).Uses prog U := by
  refine ⟨h.todo, fun o' c hc => ?_⟩
  obtain ⟨rfl, rfl⟩ := Prod.mk.inj (Option.some.inj hc)
  exact (h.current _ _ rfl).2 r

lemma Worker.Uses.finish {U : ι → Prop} {v : Worker Ω ι ρ ε ν} (h : v.Uses prog U) :
    (⟨v.todo, none⟩ : Worker Ω ι ρ ε ν).Uses prog U := by
  refine ⟨h.todo, fun o c hc => ?_⟩
  cases hc

variable [DecidableEq π]

omit [DecidablePred mine] in
/-- After a step of one process, what the others have still to run is the same. -/
lemma uses_update {U : ι → Prop} {w : π → Worker Ω ι ρ ε ν} {p q : π} {v : Worker Ω ι ρ ε ν}
    (h : (w q).Uses prog U) (hv : q = p → v.Uses prog U) :
    (Function.update w p v q).Uses prog U := by
  by_cases hq : q = p
  · rw [hq, Function.update_self]
    exact hv hq
  · rw [Function.update_of_ne hq]
    exact h

/-- A process that is mirrored moves on alike. -/
lemma Mirrors.own_step {S : System π Ω ι ρ ε ν σ} {T : System π Ω ι ρ ε ν τ}
    (h : Mirrors View Own Other prog s₀ t₀ mine S T) {p : π} (hp : mine p)
    {v : Worker Ω ι ρ ε ν} (hv : v.Uses prog Own) {L : Ledger π Ω ι ρ ε ν σ}
    {L' : Ledger π Ω ι ρ ε ν τ} (hledger : List.Forall₂ (Event.Alike View) (stepsOf mine L) L')
    (hnow : View (world s₀ L) (world t₀ L')) :
    Mirrors View Own Other prog s₀ t₀ mine ⟨L, Function.update S.worker p v⟩
      ⟨L', Function.update T.worker p v⟩ := by
  refine ⟨hledger, fun q hq => ?_, hnow, fun q hq => uses_update (h.own q hq) fun _ => hv,
    fun q hq => uses_update (h.other q hq) fun heq => absurd (heq ▸ hp) hq⟩
  show Function.update T.worker p v q = Function.update S.worker p v q
  by_cases heq : q = p
  · rw [heq, Function.update_self, Function.update_self]
  · rw [Function.update_of_ne heq, Function.update_of_ne heq]
    exact h.worker q hq

/-- A process that is not mirrored moves on unnoticed. -/
lemma Mirrors.other_step {S : System π Ω ι ρ ε ν σ} {T : System π Ω ι ρ ε ν τ}
    (h : Mirrors View Own Other prog s₀ t₀ mine S T) {p : π} (hp : ¬ mine p)
    {v : Worker Ω ι ρ ε ν} (hv : v.Uses prog Other) {L : Ledger π Ω ι ρ ε ν σ}
    (hledger : stepsOf mine L = stepsOf mine S.ledger)
    (hnow : View (world s₀ L) (world t₀ T.ledger)) :
    Mirrors View Own Other prog s₀ t₀ mine ⟨L, Function.update S.worker p v⟩ T := by
  refine ⟨?_, fun q hq => ?_, hnow, fun q hq => uses_update (h.own q hq) fun heq =>
    absurd (heq ▸ hq) hp, fun q hq => uses_update (h.other q hq) fun _ => hv⟩
  · show List.Forall₂ (Event.Alike View) (stepsOf mine L) T.ledger
    rw [hledger]
    exact h.ledger
  · show T.worker q = Function.update S.worker p v q
    have hne : q ≠ p := fun heq => hp (heq ▸ hq)
    rw [Function.update_of_ne hne]
    exact h.worker q hq

/-- **One step.** What a process of `mine` does, the run without the others does too, and
what any other process does leaves that run as it is. -/
theorem Step.mirrored (hunwinds : Unwinds View act act' Own Other)
    {S S' : System π Ω ι ρ ε ν σ} {T : System π Ω ι ρ ε ν τ}
    (h : Mirrors View Own Other prog s₀ t₀ mine S T) (hstep : Step act prog s₀ S S') :
    ∃ T', (T' = T ∨ Step act' prog t₀ T T') ∧ Mirrors View Own Other prog s₀ t₀ mine S' T' := by
  cases hstep with
  | @start p o os hworker =>
      by_cases hp : mine p
      · have hT : T.worker p = ⟨o :: os, none⟩ := (h.worker p hp).trans hworker
        have hv := h.own p hp
        rw [hworker] at hv
        exact ⟨_, Or.inr (.start hT), h.own_step hp hv.start h.ledger h.now⟩
      · have hv := h.other p hp
        rw [hworker] at hv
        exact ⟨T, Or.inl rfl, h.other_step hp hv.start rfl h.now⟩
  | @call p o os i k r s hworker hact =>
      by_cases hp : mine p
      · have hT : T.worker p = ⟨os, some (o, .call i k)⟩ := (h.worker p hp).trans hworker
        have hv := h.own p hp
        rw [hworker] at hv
        obtain ⟨t, hact', hview⟩ := hunwinds.own i _ _ r s (hv.current _ _ rfl).1 h.now hact
        refine ⟨_, Or.inr (.call hT hact'), h.own_step hp (hv.answer r) ?_ hview⟩
        rw [stepsOf_cons_mine _ (by exact hp)]
        exact .cons (.call p o i r hview) h.ledger
      · have hv := h.other p hp
        rw [hworker] at hv
        have hview := hunwinds.other i _ _ r s (hv.current _ _ rfl).1 h.now hact
        exact ⟨T, Or.inl rfl, h.other_step hp (hv.answer r) (stepsOf_cons_other _ hp) hview⟩
  | @finish p o os r hworker =>
      by_cases hp : mine p
      · have hT : T.worker p = ⟨os, some (o, Prog.done r)⟩ := (h.worker p hp).trans hworker
        have hv := h.own p hp
        rw [hworker] at hv
        refine ⟨_, Or.inr (.finish hT), h.own_step hp hv.finish ?_ h.now⟩
        rw [stepsOf_cons_mine _ (by exact hp)]
        exact .cons (.finish p o r) h.ledger
      · have hv := h.other p hp
        rw [hworker] at hv
        exact ⟨T, Or.inl rfl, h.other_step hp hv.finish (stepsOf_cons_other _ hp) h.now⟩

/-- **Unwinding.** Whatever the processes of `mine` do amid the others, they can do
alone. -/
theorem Reachable.unwind (hunwinds : Unwinds View act act' Own Other) {todo : π → List Ω}
    (hown : ∀ p, mine p → ∀ o ∈ todo p, (prog o).Uses Own)
    (hother : ∀ p, ¬ mine p → ∀ o ∈ todo p, (prog o).Uses Other) (hstart : View s₀ t₀)
    {S : System π Ω ι ρ ε ν σ} (hreach : Reachable act prog s₀ todo S) :
    ∃ T : System π Ω ι ρ ε ν τ,
      Reachable act' prog t₀ (fun p => if mine p then todo p else []) T
        ∧ Mirrors View Own Other prog s₀ t₀ mine S T := by
  induction hreach with
  | refl =>
      refine ⟨_, .refl, .nil, fun p hp => ?_, hstart, fun p hp => ⟨hown p hp, ?_⟩,
        fun p hp => ⟨hother p hp, ?_⟩⟩
      · show (⟨if mine p then todo p else [], none⟩ : Worker Ω ι ρ ε ν) = ⟨todo p, none⟩
        rw [if_pos hp]
      · rintro o c ⟨⟩
      · rintro o c ⟨⟩
  | tail _ hstep ih =>
      obtain ⟨T, hT, hmirrors⟩ := ih
      obtain ⟨T', hstep', hmirrors'⟩ := Step.mirrored hunwinds hmirrors hstep
      refine ⟨T', ?_, hmirrors'⟩
      rcases hstep' with rfl | hstep'
      · exact hT
      · exact hT.tail hstep'

end

end Calls
