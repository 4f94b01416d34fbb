/-
Runs without some of their operations.

* `ended`, `kept`, `without`: the operations that a process has ended, the steps of a run
  that do not belong to dropped operations, and a list of operations without these;
* `Reachable.erase`: operations that only make quiet calls, which change nothing that is
  looked at, can be dropped from a run: the other processes and operations do what they did;
* `mem_ongoing_of_ended`: a call and an end with as many operations ended before them belong to
  one operation.
-/
import GofrSec.Calls.Unwinding

namespace Calls

variable {π Ω ι : Type} {ρ : ι → Type} {ε ν σ τ : Type} [DecidableEq π]

/-! ### Dropped operations -/

/-- The operations that a process has ended. -/
def ended (p : π) : Ledger π Ω ι ρ ε ν σ → ℕ
  | [] => 0
  | .call _ _ _ _ _ :: L => ended p L
  | .finish q _ _ :: L => if q = p then ended p L + 1 else ended p L

/-- The steps of the operations that are not dropped; `drop p n` drops the one that the
process `p` runs after `n` others. -/
def kept (drop : π → ℕ → Bool) : Ledger π Ω ι ρ ε ν σ → Ledger π Ω ι ρ ε ν σ
  | [] => []
  | e :: L => if drop e.process (ended e.process L) then kept drop L else e :: kept drop L

/-- The operations that are not dropped, of those that come after `n` others. -/
def without (drop : ℕ → Bool) (n : ℕ) : List Ω → List Ω
  | [] => []
  | o :: os => if drop n then without drop (n + 1) os else o :: without drop (n + 1) os

@[simp] lemma ended_call (p q : π) (o : Ω) (i : ι) (r : Except ε (ρ i)) (s : σ)
    (L : Ledger π Ω ι ρ ε ν σ) : ended p (.call q o i r s :: L) = ended p L := rfl

@[simp] lemma ended_finish_self (p : π) (o : Ω) (r : Except ε ν) (L : Ledger π Ω ι ρ ε ν σ) :
    ended p (.finish p o r :: L) = ended p L + 1 := if_pos rfl

lemma ended_finish_of_ne {p q : π} (h : q ≠ p) (o : Ω) (r : Except ε ν)
    (L : Ledger π Ω ι ρ ε ν σ) : ended p (.finish q o r :: L) = ended p L := if_neg h

lemma ended_append_le (p : π) (L L' : Ledger π Ω ι ρ ε ν σ) :
    ended p L ≤ ended p (L' ++ L) := by
  induction L' with
  | nil => exact Nat.le_refl _
  | cons e L' ih =>
      cases e with
      | call q o i r s => exact ih
      | finish q o r =>
          rw [List.cons_append, ended]
          split_ifs
          · omega
          · exact ih

/-- The step is no call, or one of kind `U`. -/
def Event.IsOf (U : ι → Prop) : Event π Ω ι ρ ε ν σ → Prop
  | .call _ _ i _ _ => U i
  | .finish _ _ _ => True

/-- What a process has to run, `n` operations having ended, without the dropped ones. -/
def Worker.without (drop : ℕ → Bool) (n : ℕ) : Worker Ω ι ρ ε ν → Worker Ω ι ρ ε ν
  | ⟨os, none⟩ => ⟨Calls.without drop n os, none⟩
  | ⟨os, some oc⟩ => ⟨Calls.without drop (n + 1) os, if drop n then none else some oc⟩

section

variable {View : σ → τ → Prop} {act : Act ι ρ ε σ} {act' : Act ι ρ ε τ} {Quiet : ι → Prop}
  {prog : Ω → Prog ι ρ ε ν} {s₀ : σ} {t₀ : τ} {drop : π → ℕ → Bool}

variable (View s₀ t₀ drop) in
/-- The run `T` is the run `S` without the dropped operations. -/
structure Erased (S : System π Ω ι ρ ε ν σ) (T : System π Ω ι ρ ε ν τ) : Prop where
  ledger : List.Forall₂ (Event.Alike View) (kept drop S.ledger) T.ledger
  worker : ∀ p, T.worker p = (S.worker p).without (drop p) (ended p S.ledger)
  now : View (world s₀ S.ledger) (world t₀ T.ledger)

/-- A process moves on within a dropped operation, or starts or ends one. -/
lemma Erased.dropped_step {S : System π Ω ι ρ ε ν σ} {T : System π Ω ι ρ ε ν τ}
    (h : Erased View s₀ t₀ drop S T) {p : π} {v : Worker Ω ι ρ ε ν} {L : Ledger π Ω ι ρ ε ν σ}
    (hv : v.without (drop p) (ended p L) = (S.worker p).without (drop p) (ended p S.ledger))
    (hended : ∀ q, q ≠ p → ended q L = ended q S.ledger) (hkept : kept drop L = kept drop S.ledger)
    (hnow : View (world s₀ L) (world t₀ T.ledger)) :
    Erased View s₀ t₀ drop ⟨L, Function.update S.worker p v⟩ T := by
  refine ⟨?_, fun q => ?_, hnow⟩
  · show List.Forall₂ _ (kept drop L) T.ledger
    rw [hkept]
    exact h.ledger
  · show T.worker q = (Function.update S.worker p v q).without (drop q) (ended q L)
    by_cases hq : q = p
    · rw [hq, Function.update_self, hv]
      exact h.worker p
    · rw [Function.update_of_ne hq, hended q hq]
      exact h.worker q

/-- A process moves on within an operation that is kept. -/
lemma Erased.kept_step {S : System π Ω ι ρ ε ν σ} {T : System π Ω ι ρ ε ν τ}
    (h : Erased View s₀ t₀ drop S T) {p : π} {v : Worker Ω ι ρ ε ν} {w : Worker Ω ι ρ ε ν}
    {L : Ledger π Ω ι ρ ε ν σ} {L' : Ledger π Ω ι ρ ε ν τ}
    (hv : w = v.without (drop p) (ended p L))
    (hended : ∀ q, q ≠ p → ended q L = ended q S.ledger)
    (hledger : List.Forall₂ (Event.Alike View) (kept drop L) L')
    (hnow : View (world s₀ L) (world t₀ L')) :
    Erased View s₀ t₀ drop ⟨L, Function.update S.worker p v⟩
      ⟨L', Function.update T.worker p w⟩ := by
  refine ⟨hledger, fun q => ?_, hnow⟩
  show Function.update T.worker p w q
    = (Function.update S.worker p v q).without (drop q) (ended q L)
  by_cases hq : q = p
  · rw [hq, Function.update_self, Function.update_self, hv]
  · rw [Function.update_of_ne hq, Function.update_of_ne hq, hended q hq]
    exact h.worker q

/-- **One step.** What belongs to a dropped operation leaves the other run as it is, and
anything else it does too. -/
theorem Step.erased (hunwinds : Unwinds View act act' (fun _ => True) Quiet)
    {S S' : System π Ω ι ρ ε ν σ} {T : System π Ω ι ρ ε ν τ} (h : Erased View s₀ t₀ drop S T)
    (hstep : Step act prog s₀ S S')
    (hquiet : Meets (fun L e => drop e.process (ended e.process L) = true → e.IsOf Quiet)
      S'.ledger) :
    ∃ T', (T' = T ∨ Step act' prog t₀ T T') ∧ Erased View s₀ t₀ drop S' T' := by
  cases hstep with
  | @start p o os hworker =>
      have hT := h.worker p
      rw [hworker] at hT
      cases hdrop : drop p (ended p S.ledger) with
      | true =>
          refine ⟨T, Or.inl rfl, h.dropped_step ?_ (fun _ _ => rfl) rfl h.now⟩
          rw [hworker]
          simp [Worker.without, Calls.without, hdrop]
      | false =>
          have hT : T.worker p
              = ⟨o :: Calls.without (drop p) (ended p S.ledger + 1) os, none⟩ := by
            simpa [Worker.without, Calls.without, hdrop] using hT
          refine ⟨_, Or.inr (.start hT), h.kept_step ?_ (fun _ _ => rfl) h.ledger h.now⟩
          simp [Worker.without, hdrop]
  | @call p o os i k r s hworker hact =>
      have hT := h.worker p
      rw [hworker] at hT
      cases hdrop : drop p (ended p S.ledger) with
      | true =>
          have hi : Quiet i := (meets_cons.mp hquiet).1 hdrop
          have hview := hunwinds.other i _ _ r s hi h.now hact
          refine ⟨T, Or.inl rfl, h.dropped_step ?_ (fun _ _ => rfl) ?_ hview⟩
          · rw [hworker]
            simp [Worker.without, hdrop]
          · rw [kept]
            exact if_pos hdrop
      | false =>
          have hT : T.worker p
              = ⟨Calls.without (drop p) (ended p S.ledger + 1) os, some (o, .call i k)⟩ := by
            simpa [Worker.without, hdrop] using hT
          obtain ⟨t, hact', hview⟩ := hunwinds.own i _ _ r s trivial h.now hact
          refine ⟨_, Or.inr (.call hT hact'), h.kept_step ?_ (fun _ _ => rfl) ?_ hview⟩
          · simp [Worker.without, hdrop]
          · have hkept : kept drop (.call p o i r s :: S.ledger)
                = .call p o i r s :: kept drop S.ledger := by
              rw [kept]
              exact if_neg (by simp [Event.process, hdrop])
            rw [hkept]
            exact .cons (.call p o i r hview) h.ledger
  | @finish p o os r hworker =>
      have hT := h.worker p
      rw [hworker] at hT
      have hended : ∀ q, q ≠ p → ended q (.finish p o r :: S.ledger) = ended q S.ledger :=
        fun q hq => ended_finish_of_ne (Ne.symm hq) o r S.ledger
      cases hdrop : drop p (ended p S.ledger) with
      | true =>
          refine ⟨T, Or.inl rfl, h.dropped_step ?_ hended ?_ h.now⟩
          · rw [hworker]
            simp [Worker.without, hdrop]
          · rw [kept]
            exact if_pos hdrop
      | false =>
          have hT : T.worker p
              = ⟨Calls.without (drop p) (ended p S.ledger + 1) os, some (o, Prog.done r)⟩ := by
            simpa [Worker.without, hdrop] using hT
          refine ⟨_, Or.inr (.finish hT), h.kept_step ?_ hended ?_ h.now⟩
          · simp [Worker.without]
          · have hkept : kept drop (.finish p o r :: S.ledger)
                = .finish p o r :: kept drop S.ledger := by
              rw [kept]
              exact if_neg (by simp [Event.process, hdrop])
            rw [hkept]
            exact .cons (.finish p o r) h.ledger

/-- **Erasure.** Operations whose calls change nothing that is looked at can be dropped from
a run; everything else is done as before. -/
theorem Reachable.erase (hunwinds : Unwinds View act act' (fun _ => True) Quiet)
    {todo : π → List Ω} (hstart : View s₀ t₀) {S : System π Ω ι ρ ε ν σ}
    (hreach : Reachable act prog s₀ todo S)
    (hquiet : Meets (fun L e => drop e.process (ended e.process L) = true → e.IsOf Quiet)
      S.ledger) :
    ∃ T : System π Ω ι ρ ε ν τ, Reachable act' prog t₀ (fun p => without (drop p) 0 (todo p)) T
      ∧ Erased View s₀ t₀ drop S T := by
  induction hreach with
  | refl => exact ⟨_, .refl, .nil, fun p => rfl, hstart⟩
  | @tail S₁ S₂ _ hstep ih =>
      have hbefore : Meets (fun L e => drop e.process (ended e.process L) = true →
          e.IsOf Quiet) S₁.ledger := by
        rcases hstep.ledger with heq | ⟨e, heq⟩
        · rw [← heq]
          exact hquiet
        · rw [heq] at hquiet
          exact (meets_cons.mp hquiet).2
      obtain ⟨T, hT, herased⟩ := ih hbefore
      obtain ⟨T', hstep', herased'⟩ := Step.erased hunwinds herased hstep hquiet
      refine ⟨T', ?_, herased'⟩
      rcases hstep' with rfl | hstep'
      · exact hT
      · exact hT.tail hstep'

end

/-! ### Which operation a call belongs to -/

/-- No operation of a process ends in steps that leave their number as it is. -/
lemma not_mem_of_ended {p : π} {L L' : Ledger π Ω ι ρ ε ν σ}
    (h : ended p (L' ++ L) = ended p L) (o : Ω) (r : Except ε ν) : .finish p o r ∉ L' := by
  induction L' with
  | nil => exact List.not_mem_nil
  | cons e L' ih =>
      have hle := ended_append_le p L L'
      cases e with
      | call q o' i r' s =>
          intro hmem
          rcases List.mem_cons.mp hmem with heq | hmem
          · cases heq
          · exact ih h hmem
      | finish q o' r' =>
          rw [List.cons_append, ended] at h
          split_ifs at h with hq
          · omega
          · intro hmem
            rcases List.mem_cons.mp hmem with heq | hmem
            · cases heq
              exact hq rfl
            · exact ih h hmem

/-- The ongoing calls of a process are calls. -/
lemma mem_of_mem_ongoing {p : π} {e : Event π Ω ι ρ ε ν σ} {L : Ledger π Ω ι ρ ε ν σ}
    (h : e ∈ ongoing p L) : e ∈ L := by
  induction L with
  | nil => cases h
  | cons e' L ih =>
      by_cases he' : e'.process = p
      · cases e' with
        | call q o i r s =>
            obtain rfl : q = p := he'
            rw [ongoing_call] at h
            rcases List.mem_cons.mp h with rfl | h
            · exact List.mem_cons_self
            · exact List.mem_cons_of_mem _ (ih h)
        | finish q o r =>
            obtain rfl : q = p := he'
            rw [ongoing_finish] at h
            cases h
      · rw [ongoing_of_ne he'] at h
        exact List.mem_cons_of_mem _ (ih h)

/-- A call and an end of operations of one number belong to one operation. -/
lemma mem_ongoing_of_ended {p : π} {o o' : Ω} {i : ι} {r : Except ε (ρ i)} {r' : Except ε ν}
    {s : σ} {A B L L' : Ledger π Ω ι ρ ε ν σ}
    (h : A ++ .call p o i r s :: L = B ++ .finish p o' r' :: L') (hended : ended p L = ended p L') :
    .call p o i r s ∈ ongoing p L' := by
  rcases List.append_eq_append_iff.mp h with ⟨D, rfl, hD⟩ | ⟨D, rfl, hD⟩
  · -- the end would be before the call
    cases D with
    | nil => cases (List.cons.inj hD).1
    | cons e D =>
        obtain ⟨-, rfl⟩ := List.cons.inj hD
        have hle := ended_append_le p (.finish p o' r' :: L') D
        have hsame : ended p (D ++ .finish p o' r' :: L') = ended p L' := hended
        rw [ended_finish_self, hsame] at hle
        omega
  · cases D with
    | nil => cases (List.cons.inj hD).1
    | cons e D =>
        obtain ⟨-, rfl⟩ := List.cons.inj hD
        have hsame : ended p (D ++ .call p o i r s :: L) = ended p (.call p o i r s :: L) := by
          rw [ended_call]
          exact hended.symm
        exact mem_ongoing (not_mem_of_ended hsame)

end Calls
