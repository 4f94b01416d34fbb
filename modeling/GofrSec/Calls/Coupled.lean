/-
Programs that run in step, over calls that correspond.

* `Coupling`: which calls of two programs correspond, and which of their answers do;
* `Prog.Coupled`: two programs that make corresponding calls and go on so after
  corresponding answers; `Likewise` are outcomes with corresponding values, or one error;
  the rules follow how programs are built (`Coupled.handle`, `Coupled.bind`,
  `Coupled.translate`);
* `Couples`: in states that look alike corresponding calls have corresponding answers, and
  leave such states;
* `InStep`, `Reachable.coupled`: whatever processes do that run the one programs, processes
  that run the others do in step, call by call.
-/
import GofrSec.Calls.Interleave
import Mathlib.Data.List.Forall2

namespace Calls

variable {π Ω ι κ : Type} {ρ : ι → Type} {θ : κ → Type} {ε ν μ σ τ α β γ δ : Type}

/-- Calls of two programs that correspond, and the answers to them that do. -/
structure Coupling (ι : Type) (ρ : ι → Type) (κ : Type) (θ : κ → Type) (ε : Type) where
  Call : ι → κ → Prop
  Answer : (i : ι) → (j : κ) → Except ε (ρ i) → Except ε (θ j) → Prop

/-- Outcomes with corresponding values, or with the same error. -/
inductive Likewise (W : α → β → Prop) : Except ε α → Except ε β → Prop
  | ok {a : α} {b : β} : W a b → Likewise W (.ok a) (.ok b)
  | error (e : ε) : Likewise W (.error e) (.error e)

lemma Likewise.mono {W W' : α → β → Prop} (hW : ∀ a b, W a b → W' a b) {o : Except ε α}
    {o' : Except ε β} (h : Likewise W o o') : Likewise W' o o' := by
  cases h with
  | ok hab => exact .ok (hW _ _ hab)
  | error e => exact .error e

lemma likewise_refl {W : α → α → Prop} (hW : ∀ a, W a a) (o : Except ε α) : Likewise W o o := by
  cases o with
  | ok a => exact .ok (hW a)
  | error e => exact .error e

lemma likewise_eq {o o' : Except ε α} : Likewise Eq o o' ↔ o = o' := by
  constructor
  · rintro (⟨rfl⟩ | e)
    · rfl
    · rfl
  · rintro rfl
    exact likewise_refl (fun _ => rfl) o

namespace Prog

/-- Two programs that make corresponding calls and, on corresponding answers, go on so; their
outcomes are related by `V`. -/
inductive Coupled (K : Coupling ι ρ κ θ ε) (V : Except ε α → Except ε β → Prop) :
    Prog ι ρ ε α → Prog κ θ ε β → Prop
  | stop {o : Except ε α} {o' : Except ε β} : V o o' → Coupled K V (done o) (done o')
  | call {i : ι} {j : κ} {k : Except ε (ρ i) → Prog ι ρ ε α} {l : Except ε (θ j) → Prog κ θ ε β} :
      K.Call i j → (∀ r r', K.Answer i j r r' → Coupled K V (k r) (l r')) →
      Coupled K V (call i k) (call j l)

variable {K : Coupling ι ρ κ θ ε} {V : Except ε α → Except ε β → Prop}

lemma Coupled.handle {W : Except ε γ → Except ε δ → Prop} {p : Prog ι ρ ε α} {q : Prog κ θ ε β}
    {k : Except ε α → Prog ι ρ ε γ} {l : Except ε β → Prog κ θ ε δ} (h : Coupled K V p q)
    (hkl : ∀ r r', V r r' → Coupled K W (k r) (l r')) :
    Coupled K W (p.handle k) (q.handle l) := by
  induction h with
  | @stop o o' hV =>
      rw [done_handle, done_handle]
      exact hkl o o' hV
  | call hcall _ ih => exact .call hcall fun r r' hE => ih r r' hE

lemma Coupled.mono {V' : Except ε α → Except ε β → Prop} {p : Prog ι ρ ε α} {q : Prog κ θ ε β}
    (h : Coupled K V p q) (hV : ∀ r r', V r r' → V' r r') : Coupled K V' p q := by
  induction h with
  | stop hstop => exact .stop (hV _ _ hstop)
  | call hcall _ ih => exact .call hcall ih

lemma coupled_lift {o : Except ε α} {o' : Except ε β} (h : V o o') :
    Coupled K V (lift o) (lift o') :=
  .stop h

lemma coupled_pure {W : α → β → Prop} {a : α} {b : β} (h : W a b) :
    Coupled K (Likewise W) (pure a) (pure b) := by
  have hstop : Coupled K (Likewise W) (done (.ok a)) (done (.ok b)) := .stop (.ok h)
  exact hstop

lemma coupled_throw {W : α → β → Prop} (e : ε) : Coupled K (Likewise W) (throw e) (throw e) := by
  have hstop : Coupled K (Likewise W) (done (.error e)) (done (.error e)) := .stop (.error e)
  exact hstop

lemma coupled_perform {i : ι} {j : κ} (h : K.Call i j) :
    Coupled K (K.Answer i j) (perform i) (perform j) :=
  .call h fun _ _ hanswer => .stop hanswer

/-- Sequencing, after values that correspond. -/
lemma Coupled.bind {W : α → β → Prop} {X : γ → δ → Prop} {p : Prog ι ρ ε α} {q : Prog κ θ ε β}
    {f : α → Prog ι ρ ε γ} {g : β → Prog κ θ ε δ} (h : Coupled K (Likewise W) p q)
    (hfg : ∀ a b, W a b → Coupled K (Likewise X) (f a) (g b)) :
    Coupled K (Likewise X) (p >>= f) (q >>= g) := by
  refine Coupled.handle h fun r r' hW => ?_
  cases hW with
  | ok hab => exact hfg _ _ hab
  | error e => exact coupled_throw e

lemma Coupled.map {W : α → β → Prop} {X : γ → δ → Prop} {p : Prog ι ρ ε α} {q : Prog κ θ ε β}
    {f : α → γ} {g : β → δ} (h : Coupled K (Likewise W) p q) (hfg : ∀ a b, W a b → X (f a) (g b)) :
    Coupled K (Likewise X) (f <$> p) (g <$> q) :=
  h.bind fun a b hab => coupled_pure (hfg a b hab)

/-- A program is coupled to itself when its calls are, and corresponding answers to them
are the same. -/
lemma coupled_of_uses {K : Coupling ι ρ ι ρ ε} {U : ι → Prop}
    (hU : ∀ i, U i → K.Call i i ∧ ∀ r r', K.Answer i i r r' → r = r') {p : Prog ι ρ ε α}
    (hp : p.Uses U) : Coupled K Eq p p := by
  have hdone : ∀ o : Except ε α, Coupled K Eq (done o) (done o) := fun o => .stop rfl
  induction p with
  | ret a => exact hdone (.ok a)
  | raise e => exact hdone (.error e)
  | call i k ih =>
      refine .call (hU i hp.1).1 fun r r' hanswer => ?_
      obtain rfl := (hU i hp.1).2 r r' hanswer
      exact ih r (hp.2 r)

/-- If corresponding calls are translated to programs that are coupled, so are programs. -/
theorem Coupled.translate {ι' κ' : Type} {ρ' : ι' → Type} {θ' : κ' → Type}
    {K' : Coupling ι' ρ' κ' θ' ε} {h : (i : ι) → Prog ι' ρ' ε (ρ i)}
    {h' : (j : κ) → Prog κ' θ' ε (θ j)}
    (hcall : ∀ i j, K.Call i j → Coupled K' (K.Answer i j) (h i) (h' j)) {p : Prog ι ρ ε α}
    {q : Prog κ θ ε β} (hpq : Coupled K V p q) :
    Coupled K' V (p.translate h) (q.translate h') := by
  induction hpq with
  | @stop o o' hV =>
      cases o <;> cases o' <;> exact .stop hV
  | call hc _ ih => exact (hcall _ _ hc).handle ih

/-- A program that is coupled to a call is a call. -/
lemma Coupled.of_call {i : ι} {k : Except ε (ρ i) → Prog ι ρ ε α} {q : Prog κ θ ε β}
    (h : Coupled K V (Prog.call i k) q) : ∃ j l, q = Prog.call j l ∧ K.Call i j
      ∧ ∀ r r', K.Answer i j r r' → Coupled K V (k r) (l r') := by
  generalize hp : Prog.call i k = p at h
  cases h with
  | @stop o o' _ => cases o <;> cases hp
  | @call i' j k' l hcall hrest =>
      obtain ⟨rfl, hk⟩ := Prog.call.inj hp
      obtain rfl := eq_of_heq hk
      exact ⟨j, l, rfl, hcall, hrest⟩

/-- A program that is coupled to an outcome is an outcome. -/
lemma Coupled.of_done {o : Except ε α} {q : Prog κ θ ε β} (h : Coupled K V (done o) q) :
    ∃ o', q = done o' ∧ V o o' := by
  generalize hp : (done o : Prog ι ρ ε α) = p at h
  cases h with
  | @stop o₁ o' hV =>
      refine ⟨o', rfl, ?_⟩
      cases o <;> cases o₁ <;> cases hp <;> exact hV
  | call _ _ => cases o <;> cases hp

end Prog

/-! ### States -/

/-- In states that look alike, corresponding calls have corresponding answers and leave
states that look alike. -/
def Couples (K : Coupling ι ρ κ θ ε) (View : σ → τ → Prop) (act : Act ι ρ ε σ)
    (act' : Act κ θ ε τ) : Prop :=
  ∀ i j s t r s', K.Call i j → View s t → act i s r s' →
    ∃ r' t', act' j t r' t' ∧ K.Answer i j r r' ∧ View s' t'

/-! ### Processes -/

/-- Corresponding steps of one process. -/
inductive Event.Coupled (K : Coupling ι ρ κ θ ε) (View : σ → τ → Prop)
    (V : Ω → Except ε ν → Except ε μ → Prop) :
    Event π Ω ι ρ ε ν σ → Event π Ω κ θ ε μ τ → Prop
  | call (p : π) (o : Ω) {i : ι} {j : κ} {r : Except ε (ρ i)} {r' : Except ε (θ j)} {s : σ}
      {t : τ} :
      K.Call i j → K.Answer i j r r' → View s t →
      Event.Coupled K View V (.call p o i r s) (.call p o j r' t)
  | finish (p : π) (o : Ω) {r : Except ε ν} {r' : Except ε μ} : V o r r' →
      Event.Coupled K View V (.finish p o r) (.finish p o r')

variable {K : Coupling ι ρ κ θ ε} {View : σ → τ → Prop} {V : Ω → Except ε ν → Except ε μ → Prop}
  {act : Act ι ρ ε σ} {act' : Act κ θ ε τ} {prog : Ω → Prog ι ρ ε ν} {prog' : Ω → Prog κ θ ε μ}
  {s₀ : σ} {t₀ : τ}

/-- Runs of corresponding steps leave states that look alike. -/
lemma view_world {L : Ledger π Ω ι ρ ε ν σ} {L' : Ledger π Ω κ θ ε μ τ} (hstart : View s₀ t₀)
    (h : List.Forall₂ (Event.Coupled K View V) L L') : View (world s₀ L) (world t₀ L') := by
  induction h with
  | nil => exact hstart
  | cons he _ ih =>
      cases he with
      | call p o _ _ hview => exact hview
      | finish p o _ => exact ih

/-- What two processes have still to run is coupled. -/
structure Worker.Coupled (K : Coupling ι ρ κ θ ε) (V : Ω → Except ε ν → Except ε μ → Prop)
    (v : Worker Ω ι ρ ε ν) (w : Worker Ω κ θ ε μ) : Prop where
  todo : w.todo = v.todo
  current : Option.Rel (fun x y => x.1 = y.1 ∧ x.2.Coupled K (V x.1) y.2) v.current w.current

/-- Two runs in step: what has been done corresponds, and what is still to be done is
coupled. -/
structure InStep (K : Coupling ι ρ κ θ ε) (View : σ → τ → Prop)
    (V : Ω → Except ε ν → Except ε μ → Prop) (S : System π Ω ι ρ ε ν σ)
    (T : System π Ω κ θ ε μ τ) : Prop where
  ledger : List.Forall₂ (Event.Coupled K View V) S.ledger T.ledger
  worker : ∀ p, (S.worker p).Coupled K V (T.worker p)

variable [DecidableEq π]

lemma coupled_update {S : System π Ω ι ρ ε ν σ} {T : System π Ω κ θ ε μ τ}
    (h : ∀ p, (S.worker p).Coupled K V (T.worker p)) {p : π} {v : Worker Ω ι ρ ε ν}
    {w : Worker Ω κ θ ε μ} (hvw : v.Coupled K V w) (q : π) :
    (Function.update S.worker p v q).Coupled K V (Function.update T.worker p w q) := by
  by_cases hq : q = p
  · rw [hq, Function.update_self, Function.update_self]
    exact hvw
  · rw [Function.update_of_ne hq, Function.update_of_ne hq]
    exact h q

/-- What corresponds to a process at a program is a process at one. -/
lemma Worker.Coupled.busy {os : List Ω} {o : Ω} {c : Prog ι ρ ε ν} {w : Worker Ω κ θ ε μ}
    (h : (⟨os, some (o, c)⟩ : Worker Ω ι ρ ε ν).Coupled K V w) :
    ∃ c', w = ⟨os, some (o, c')⟩ ∧ c.Coupled K (V o) c' := by
  obtain ⟨htodo, hcurrent⟩ := h
  obtain ⟨todo, current⟩ := w
  obtain rfl : todo = os := htodo
  cases hcurrent with
  | @some x y hxy =>
      obtain ⟨o', c'⟩ := y
      obtain ⟨rfl, hc⟩ := hxy
      exact ⟨c', rfl, hc⟩

/-- **One step.** What the one run does, the other does in step. -/
theorem Step.coupled (hK : Couples K View act act')
    (hprog : ∀ o, (prog o).Coupled K (V o) (prog' o)) (hstart : View s₀ t₀)
    {S S' : System π Ω ι ρ ε ν σ} {T : System π Ω κ θ ε μ τ} (h : InStep K View V S T)
    (hstep : Step act prog s₀ S S') :
    ∃ T', Step act' prog' t₀ T T' ∧ InStep K View V S' T' := by
  cases hstep with
  | @start p o os hworker =>
      have hp := h.worker p
      rw [hworker] at hp
      have hT : T.worker p = ⟨o :: os, none⟩ := by
        obtain ⟨htodo, hcurrent⟩ := hp
        cases hw : T.worker p with
        | mk todo current =>
            rw [hw] at htodo hcurrent
            obtain rfl : todo = o :: os := htodo
            cases hcurrent
            rfl
      exact ⟨_, .start hT, h.ledger, coupled_update h.worker ⟨rfl, .some ⟨rfl, hprog o⟩⟩⟩
  | @call p o os i k r s hworker hact =>
      have hp := h.worker p
      rw [hworker] at hp
      obtain ⟨c', hT, hc⟩ := hp.busy
      obtain ⟨j, l, rfl, hcall, hrest⟩ := hc.of_call
      obtain ⟨r', t, hact', hanswer, hview⟩ :=
        hK i j _ _ r s hcall (view_world hstart h.ledger) hact
      exact ⟨_, .call hT hact', .cons (.call p o hcall hanswer hview) h.ledger,
        coupled_update h.worker ⟨rfl, .some ⟨rfl, hrest r r' hanswer⟩⟩⟩
  | @finish p o os r hworker =>
      have hp := h.worker p
      rw [hworker] at hp
      obtain ⟨c', hT, hc⟩ := hp.busy
      obtain ⟨r', rfl, hV⟩ := hc.of_done
      exact ⟨_, .finish hT, .cons (.finish p o hV) h.ledger,
        coupled_update h.worker ⟨rfl, .none⟩⟩

/-- **Runs in step.** Whatever processes do that run the one programs, processes that run
the others do in step. -/
theorem Reachable.coupled (hK : Couples K View act act')
    (hprog : ∀ o, (prog o).Coupled K (V o) (prog' o)) (hstart : View s₀ t₀) {todo : π → List Ω}
    {S : System π Ω ι ρ ε ν σ} (hreach : Reachable act prog s₀ todo S) :
    ∃ T : System π Ω κ θ ε μ τ, Reachable act' prog' t₀ todo T ∧ InStep K View V S T := by
  induction hreach with
  | refl => exact ⟨_, .refl, .nil, fun p => ⟨rfl, .none⟩⟩
  | tail _ hstep ih =>
      obtain ⟨T, hT, hinstep⟩ := ih
      obtain ⟨T', hstep', hinstep'⟩ := Step.coupled hK hprog hstart hinstep hstep
      exact ⟨T', hT.tail hstep', hinstep'⟩

end Calls
