/-
Reasoning about programs of atomic calls, one call at a time.

* `Contract`: what a caller owes before each call (`pre`) and may assume of
  its answer and effect (`post`); `Prog.wp` is the weakest precondition of a
  program under a contract, with the rules `wp_handle`, `wp_bind`, `wp_map` and
  `wp_mono`; `wp_contract_iff` and `wp_graph_iff` read it as a statement about runs;
* `Prog.Uses`: every call a program can ever make, whatever the answers, is of
  a given kind; `wp_of_uses`: an invariant that every such call keeps is kept
  by the program; `Prog.Returns`: so is every value that it can ever return;
* `Runs.refine`: if concrete calls simulate a contract on abstract states,
  what is proved under the contract holds of every concrete run;
* `Prog.Similar` and `Runs.agree`: two runs of similar programs over two
  implementations of one functional contract have similar outcomes and end in
  the same abstract state.
-/
import GofrSec.Calls.Program

namespace Calls

variable {ι : Type} {ρ : ι → Type} {ε σ τ α β : Type}

/-- The contract of a set of calls on states `σ`: what the caller owes before
call `i`, and what it may assume afterwards. -/
structure Contract (ι : Type) (ρ : ι → Type) (ε σ : Type) where
  pre : ι → σ → Prop
  post : Act ι ρ ε σ

/-- The contract that promises just what an action relation does. -/
def Act.contract (act : Act ι ρ ε σ) : Contract ι ρ ε σ := ⟨fun _ _ => True, act⟩

namespace Prog

/-- The weakest precondition of a program for `Q` under a contract. -/
def wp (C : Contract ι ρ ε σ) : Prog ι ρ ε α → (Except ε α → σ → Prop) → σ → Prop
  | .ret a, Q, s => Q (.ok a) s
  | .raise e, Q, s => Q (.error e) s
  | .call i k, Q, s => C.pre i s ∧ ∀ r s', C.post i s r s' → (k r).wp C Q s'

variable {C : Contract ι ρ ε σ}

@[simp] lemma wp_ret (a : α) (Q : Except ε α → σ → Prop) (s : σ) :
    (ret a : Prog ι ρ ε α).wp C Q s ↔ Q (.ok a) s := Iff.rfl

@[simp] lemma wp_raise (e : ε) (Q : Except ε α → σ → Prop) (s : σ) :
    (raise e : Prog ι ρ ε α).wp C Q s ↔ Q (.error e) s := Iff.rfl

@[simp] lemma wp_pure (a : α) (Q : Except ε α → σ → Prop) (s : σ) :
    (pure a : Prog ι ρ ε α).wp C Q s ↔ Q (.ok a) s := Iff.rfl

@[simp] lemma wp_throw (e : ε) (Q : Except ε α → σ → Prop) (s : σ) :
    (throw e : Prog ι ρ ε α).wp C Q s ↔ Q (.error e) s := Iff.rfl

@[simp] lemma wp_done (o : Except ε α) (Q : Except ε α → σ → Prop) (s : σ) :
    (done o : Prog ι ρ ε α).wp C Q s ↔ Q o s := by
  cases o <;> rfl

@[simp] lemma wp_lift (x : Except ε α) (Q : Except ε α → σ → Prop) (s : σ) :
    (lift x : Prog ι ρ ε α).wp C Q s ↔ Q x s := wp_done x Q s

lemma wp_call (i : ι) (k : Except ε (ρ i) → Prog ι ρ ε α) (Q : Except ε α → σ → Prop) (s : σ) :
    (call i k).wp C Q s ↔ C.pre i s ∧ ∀ r s', C.post i s r s' → (k r).wp C Q s' := Iff.rfl

lemma wp_perform (i : ι) (Q : Except ε (ρ i) → σ → Prop) (s : σ) :
    (perform i : Prog ι ρ ε (ρ i)).wp C Q s
      ↔ C.pre i s ∧ ∀ r s', C.post i s r s' → Q r s' := by
  simp [perform, wp_call]

/-- Sequencing: the first program must establish the precondition of the rest. -/
lemma wp_handle (p : Prog ι ρ ε α) (k : Except ε α → Prog ι ρ ε β)
    (Q : Except ε β → σ → Prop) (s : σ) :
    (p.handle k).wp C Q s ↔ p.wp C (fun r s' => (k r).wp C Q s') s := by
  induction p generalizing s with
  | ret a => rfl
  | raise e => rfl
  | call i c ih => simp only [handle, wp_call, ih]

lemma wp_bind (p : Prog ι ρ ε α) (f : α → Prog ι ρ ε β) (Q : Except ε β → σ → Prop) (s : σ) :
    (p >>= f).wp C Q s ↔ p.wp C (fun r s' => (onReturn f r).wp C Q s') s :=
  wp_handle p _ Q s

lemma wp_map (f : α → β) (p : Prog ι ρ ε α) (Q : Except ε β → σ → Prop) (s : σ) :
    (f <$> p).wp C Q s ↔ p.wp C (fun r s' => Q (r.map f) s') s := by
  have hout : (fun r s' => (onReturn (pure ∘ f) r : Prog ι ρ ε β).wp C Q s')
      = fun r s' => Q (r.map f) s' := by
    funext r s'
    cases r <;> rfl
  rw [← hout]
  exact wp_bind p (pure ∘ f) Q s

/-- Consequence: a weaker postcondition has a weaker precondition. -/
lemma wp_mono {p : Prog ι ρ ε α} {Q Q' : Except ε α → σ → Prop} (hQ : ∀ r s, Q r s → Q' r s)
    {s : σ} (h : p.wp C Q s) : p.wp C Q' s := by
  induction p generalizing s with
  | ret a => exact hQ _ _ h
  | raise e => exact hQ _ _ h
  | call i c ih => exact ⟨h.1, fun r s' hp => ih r (h.2 r s' hp)⟩

/-- Under the contract of an action relation, the weakest precondition speaks
of exactly the runs. -/
theorem wp_contract_iff {act : Act ι ρ ε σ} (p : Prog ι ρ ε α) (Q : Except ε α → σ → Prop)
    (s : σ) : p.wp act.contract Q s ↔ ∀ o s', p.Runs act s o s' → Q o s' := by
  induction p generalizing s with
  | ret a => simp [Runs]
  | raise e => simp [Runs]
  | call i c ih =>
      simp only [wp_call, Act.contract, true_and, Runs] at ih ⊢
      constructor
      · rintro h o s' ⟨r, s₁, hact, hrest⟩
        exact (ih r s₁).mp (h r s₁ hact) o s' hrest
      · intro h r s₁ hact
        exact (ih r s₁).mpr fun o s' hrest => h o s' ⟨r, s₁, hact, hrest⟩

/-- Over calls that are functions, it speaks of the one run there is. -/
theorem wp_graph_iff {exec : Exec ι ρ ε σ} (p : Prog ι ρ ε α) (Q : Except ε α → σ → Prop)
    (s : σ) : p.wp exec.graph.contract Q s ↔ Q (p.run exec s).1 (p.run exec s).2 := by
  rw [wp_contract_iff]
  constructor
  · exact fun h => h _ _ ((runs_graph_iff p).mpr rfl)
  · intro h o s' hrun
    rw [(runs_graph_iff p).mp hrun] at h
    exact h

/-! ### The calls a program can make -/

/-- Every call that the program can ever make satisfies `P`. -/
def Uses (P : ι → Prop) : Prog ι ρ ε α → Prop
  | .ret _ => True
  | .raise _ => True
  | .call i k => P i ∧ ∀ r, (k r).Uses P

variable {P P' : ι → Prop}

@[simp] lemma uses_ret (a : α) : (ret a : Prog ι ρ ε α).Uses P := trivial

@[simp] lemma uses_raise (e : ε) : (raise e : Prog ι ρ ε α).Uses P := trivial

@[simp] lemma uses_done (o : Except ε α) : (done o : Prog ι ρ ε α).Uses P := by
  cases o <;> trivial

@[simp] lemma uses_lift (o : Except ε α) : (lift o : Prog ι ρ ε α).Uses P := uses_done o

@[simp] lemma uses_pure (a : α) : (pure a : Prog ι ρ ε α).Uses P := trivial

@[simp] lemma uses_throw (e : ε) : (throw e : Prog ι ρ ε α).Uses P := trivial

@[simp] lemma uses_perform (i : ι) : (perform i : Prog ι ρ ε (ρ i)).Uses P ↔ P i := by
  simp [perform, Uses]

lemma Uses.handle {p : Prog ι ρ ε α} {k : Except ε α → Prog ι ρ ε β} (hp : p.Uses P)
    (hk : ∀ r, (k r).Uses P) : (p.handle k).Uses P := by
  induction p with
  | ret a => exact hk _
  | raise e => exact hk _
  | call i c ih => exact ⟨hp.1, fun r => ih r (hp.2 r)⟩

lemma Uses.bind {p : Prog ι ρ ε α} {f : α → Prog ι ρ ε β} (hp : p.Uses P)
    (hf : ∀ a, (f a).Uses P) : (p >>= f).Uses P :=
  hp.handle fun r => by cases r with
    | ok a => exact hf a
    | error e => exact uses_raise e

lemma Uses.mono {p : Prog ι ρ ε α} (h : p.Uses P) (hle : ∀ i, P i → P' i) : p.Uses P' := by
  induction p with
  | ret a => trivial
  | raise e => trivial
  | call i c ih => exact ⟨hle i h.1, fun r => ih r (h.2 r)⟩

lemma Uses.and {p : Prog ι ρ ε α} (h : p.Uses P) (h' : p.Uses P') :
    p.Uses fun i => P i ∧ P' i := by
  induction p with
  | ret a => trivial
  | raise e => trivial
  | call i c ih => exact ⟨⟨h.1, h'.1⟩, fun r => ih r (h.2 r) (h'.2 r)⟩

lemma uses_performAll {is : List ι} (h : ∀ i ∈ is, P i) :
    (performAll is : Prog ι ρ ε Unit).Uses P := by
  induction is with
  | nil => trivial
  | cons i is ih =>
      rw [performAll_cons]
      refine Uses.bind ((uses_perform i).mpr (h i List.mem_cons_self)) fun _ => ?_
      exact ih fun j hj => h j (List.mem_cons_of_mem _ hj)

/-- An invariant that every call of kind `P` keeps is kept by every program
that makes only such calls. -/
theorem wp_of_uses {I : σ → Prop}
    (hI : ∀ i s, P i → I s → C.pre i s ∧ ∀ r s', C.post i s r s' → I s')
    {p : Prog ι ρ ε α} (hp : p.Uses P) {s : σ} (hs : I s) : p.wp C (fun _ s' => I s') s := by
  induction p generalizing s with
  | ret a => exact hs
  | raise e => exact hs
  | call i c ih =>
      obtain ⟨hpre, hpost⟩ := hI i s hp.1 hs
      exact ⟨hpre, fun r s' h => ih r (hp.2 r) (hpost r s' h)⟩

/-- Every value that the program can return satisfies `V`, whatever its calls
answer. -/
def Returns (V : α → Prop) : Prog ι ρ ε α → Prop
  | .ret a => V a
  | .raise _ => True
  | .call _ k => ∀ r, (k r).Returns V

lemma returns_lift {V : α → Prop} {o : Except ε α} (h : ∀ a, o = .ok a → V a) :
    (lift o : Prog ι ρ ε α).Returns V := by
  cases o with
  | ok a => exact h a rfl
  | error e => trivial

lemma returns_true (p : Prog ι ρ ε α) : p.Returns fun _ => True := by
  induction p with
  | ret a => trivial
  | raise e => trivial
  | call i c ih => exact ih

lemma Returns.bind {V : α → Prop} {W : β → Prop} {p : Prog ι ρ ε α} {f : α → Prog ι ρ ε β}
    (hp : p.Returns V) (hf : ∀ a, V a → (f a).Returns W) : (p >>= f).Returns W := by
  rw [bind_eq]
  induction p with
  | ret a => exact hf a hp
  | raise e => trivial
  | call i c ih => exact fun r => ih r (hp r)

lemma Uses.bind_returns {V : α → Prop} {p : Prog ι ρ ε α} {f : α → Prog ι ρ ε β}
    (hp : p.Uses P) (hret : p.Returns V) (hf : ∀ a, V a → (f a).Uses P) : (p >>= f).Uses P := by
  rw [bind_eq]
  induction p with
  | ret a => exact hf a hret
  | raise e => trivial
  | call i c ih => exact ⟨hp.1, fun r => ih r (hp.2 r) (hret r)⟩

/-- The program keeps what its calls keep, and returns what it returns whatever
they answer. -/
theorem wp_of_uses_returns {I : σ → Prop} {V : α → Prop}
    (hI : ∀ i s, P i → I s → C.pre i s ∧ ∀ r s', C.post i s r s' → I s')
    {p : Prog ι ρ ε α} (hp : p.Uses P) (hret : p.Returns V) {s : σ} (hs : I s) :
    p.wp C (fun r s' => I s' ∧ ∀ a, r = .ok a → V a) s := by
  induction p generalizing s with
  | ret a => exact ⟨hs, fun _ h => Except.ok.inj h ▸ hret⟩
  | raise e => exact ⟨hs, fun _ h => nomatch h⟩
  | call i c ih =>
      obtain ⟨hpre, hpost⟩ := hI i s hp.1 hs
      exact ⟨hpre, fun r s' h => ih r (hp.2 r) (hret r) (hpost r s' h)⟩

lemma Returns.mono {V W : α → Prop} {p : Prog ι ρ ε α} (hp : p.Returns V)
    (hle : ∀ a, V a → W a) : p.Returns W := by
  induction p with
  | ret a => exact hle a hp
  | raise e => trivial
  | call i c ih => exact fun r => ih r (hp r)

/-- What a program returns whatever its calls answer, it returns under any contract. -/
lemma Returns.wp {V : α → Prop} {p : Prog ι ρ ε α} {Q : Except ε α → σ → Prop}
    (hret : p.Returns V) {s : σ} (h : p.wp C Q s) :
    p.wp C (fun r s' => Q r s' ∧ ∀ a, r = .ok a → V a) s := by
  induction p generalizing s with
  | ret a => exact ⟨h, fun _ heq => Except.ok.inj heq ▸ hret⟩
  | raise e => exact ⟨h, fun _ heq => nomatch heq⟩
  | call i c ih => exact ⟨h.1, fun r s' hpost => ih r (hret r) (h.2 r s' hpost)⟩

/-- What every call of kind `P` leaves as it is, a run of such calls leaves as it
is. -/
lemma Runs.keeps {κ : Type} {act : Act ι ρ ε σ} {p : Prog ι ρ ε α} {o : Except ε α} {s s' : σ}
    {f : σ → κ} (hrun : p.Runs act s o s') (hp : p.Uses P)
    (hf : ∀ i s r s', P i → act i s r s' → f s' = f s) : f s' = f s := by
  refine (wp_contract_iff p (fun _ t => f t = f s) s).mp ?_ o s' hrun
  refine wp_of_uses (fun i t hi ht => ⟨trivial, fun r t' hact => ?_⟩) hp rfl
  rw [hf i t r t' hi hact, ht]

/-- A map of the states that every call of kind `P` commutes with, and that changes no answer,
commutes with a program of such calls and changes no outcome. -/
lemma Uses.run_map {exec : Exec ι ρ ε σ} {p : Prog ι ρ ε α} (hp : p.Uses P) {f : σ → σ}
    (hf : ∀ i s, P i → exec i (f s) = ((exec i s).1, f (exec i s).2)) (s : σ) :
    p.run exec (f s) = ((p.run exec s).1, f (p.run exec s).2) := by
  induction p generalizing s with
  | ret a => rfl
  | raise e => rfl
  | call i c ih =>
      show (c (exec i (f s)).1).run exec (exec i (f s)).2 = _
      rw [hf i s hp.1]
      exact ih _ (hp.2 _) _

lemma Returns.of_runs {V : α → Prop} {act : Act ι ρ ε σ} {p : Prog ι ρ ε α} (hp : p.Returns V)
    {s s' : σ} {a : α} (hrun : p.Runs act s (.ok a) s') : V a := by
  induction p generalizing s with
  | ret b =>
      obtain ⟨heq, -⟩ := hrun
      rw [Except.ok.inj heq]
      exact hp
  | raise e => exact nomatch hrun.1
  | call i c ih =>
      obtain ⟨r, s₁, -, hrest⟩ := hrun
      exact ih r (hp r) hrest

/-! ### Refinement -/

/-- `act` on concrete states implements the contract `C` on abstract ones
along `R`: a call whose precondition holds abstractly has, for each concrete
answer, an abstract effect that `C` allows. -/
def Implements (R : σ → τ → Prop) (act : Act ι ρ ε σ) (C : Contract ι ρ ε τ) : Prop :=
  ∀ i c a, R c a → C.pre i a → ∀ r c', act i c r c' → ∃ a', R c' a' ∧ C.post i a r a'

/-- **Refinement.** What is proved of a program under a contract holds of every
run over an implementation of the contract. -/
theorem Runs.refine {R : σ → τ → Prop} {act : Act ι ρ ε σ} {C : Contract ι ρ ε τ}
    (himp : Implements R act C) {p : Prog ι ρ ε α} {Q : Except ε α → τ → Prop} {c c' : σ}
    {a : τ} {o : Except ε α} (hR : R c a) (hwp : p.wp C Q a) (hrun : p.Runs act c o c') :
    ∃ a', R c' a' ∧ Q o a' := by
  induction p generalizing c a with
  | ret x =>
      obtain ⟨rfl, rfl⟩ := hrun
      exact ⟨a, hR, hwp⟩
  | raise e =>
      obtain ⟨rfl, rfl⟩ := hrun
      exact ⟨a, hR, hwp⟩
  | call i k ih =>
      obtain ⟨r, c₁, hact, hrest⟩ := hrun
      obtain ⟨a₁, hR₁, hpost⟩ := himp i c a hR hwp.1 r c₁ hact
      exact ih r hR₁ (hwp.2 r a₁ hpost) hrest

/-- In a run of a program whose precondition holds, every call is made where its own
precondition holds, and acts as the contract says. -/
lemma Runs.guarded {C : Contract ι ρ ε σ} {p : Prog ι ρ ε α} {Q : Except ε α → σ → Prop}
    {s s' : σ} {o : Except ε α} (hwp : p.wp C Q s) (hrun : p.Runs C.post s o s') :
    p.Runs (fun i s r s' => C.pre i s ∧ C.post i s r s') s o s' := by
  induction p generalizing s with
  | ret a => exact hrun
  | raise e => exact hrun
  | call i k ih =>
      obtain ⟨r, s₁, hact, hrest⟩ := hrun
      exact ⟨r, s₁, ⟨hwp.1, hact⟩, ih r (hwp.2 r s₁ hact) hrest⟩

/-! ### Two runs of similar programs -/

/-- Two programs that make the same calls and, on answers related by `E`,
continue similarly; their outcomes are related by `V`. -/
inductive Similar (E : (i : ι) → Except ε (ρ i) → Except ε (ρ i) → Prop)
    (V : Except ε α → Except ε β → Prop) : Prog ι ρ ε α → Prog ι ρ ε β → Prop
  | stop {o : Except ε α} {o' : Except ε β} : V o o' → Similar E V (done o) (done o')
  | call {i : ι} {k : Except ε (ρ i) → Prog ι ρ ε α} {l : Except ε (ρ i) → Prog ι ρ ε β} :
      (∀ r r', E i r r' → Similar E V (k r) (l r')) → Similar E V (call i k) (call i l)

/-- A contract whose effect is determined by the call, and whose answer is
determined up to `E`. -/
def Contract.Functional (C : Contract ι ρ ε σ)
    (E : (i : ι) → Except ε (ρ i) → Except ε (ρ i) → Prop) : Prop :=
  ∀ i a r₁ a₁ r₂ a₂, C.pre i a → C.post i a r₁ a₁ → C.post i a r₂ a₂ → E i r₁ r₂ ∧ a₁ = a₂

lemma similar_done {E : (i : ι) → Except ε (ρ i) → Except ε (ρ i) → Prop}
    {V : Except ε α → Except ε β → Prop} (o : Except ε α) (o' : Except ε β) (h : V o o') :
    Similar E V (done o) (done o') :=
  .stop h

lemma Similar.handle {γ δ : Type} {E : (i : ι) → Except ε (ρ i) → Except ε (ρ i) → Prop}
    {V : Except ε α → Except ε β → Prop} {W : Except ε γ → Except ε δ → Prop}
    {p : Prog ι ρ ε α} {q : Prog ι ρ ε β} {k : Except ε α → Prog ι ρ ε γ}
    {l : Except ε β → Prog ι ρ ε δ} (h : Similar E V p q)
    (hkl : ∀ r r', V r r' → Similar E W (k r) (l r')) :
    Similar E W (p.handle k) (q.handle l) := by
  induction h with
  | @stop o o' hV =>
      rw [done_handle, done_handle]
      exact hkl o o' hV
  | call _ ih => exact .call fun r r' hE => ih r r' hE

lemma Similar.mono {E : (i : ι) → Except ε (ρ i) → Except ε (ρ i) → Prop}
    {V V' : Except ε α → Except ε β → Prop} {p : Prog ι ρ ε α} {q : Prog ι ρ ε β}
    (h : Similar E V p q) (hV : ∀ r r', V r r' → V' r r') : Similar E V' p q := by
  induction h with
  | stop hstop => exact .stop (hV _ _ hstop)
  | call _ ih => exact .call ih

/-- One call is similar to itself, up to its answers. -/
lemma similar_perform {E : (i : ι) → Except ε (ρ i) → Except ε (ρ i) → Prop} (i : ι) :
    Similar E (E i) (perform i) (perform i) :=
  .call fun _ _ h => .stop h

/-- Sequencing, after an outcome that is the same. -/
lemma Similar.bind_eq {γ δ : Type} {E : (i : ι) → Except ε (ρ i) → Except ε (ρ i) → Prop}
    {W : Except ε γ → Except ε δ → Prop} {p q : Prog ι ρ ε α} {f : α → Prog ι ρ ε γ}
    {g : α → Prog ι ρ ε δ} (h : Similar E Eq p q) (hfg : ∀ a, Similar E W (f a) (g a))
    (herror : ∀ e, W (.error e) (.error e)) : Similar E W (p >>= f) (q >>= g) := by
  refine Similar.handle h ?_
  rintro r _ rfl
  cases r with
  | ok a => exact hfg a
  | error e => exact similar_done (.error e) (.error e) (herror e)

/-- **Agreement.** Two implementations of one functional contract, run on
similar programs from the same abstract state, end with related outcomes in
the same abstract state. -/
theorem Runs.agree {σ₁ σ₂ : Type} {R₁ : σ₁ → τ → Prop} {R₂ : σ₂ → τ → Prop}
    {act₁ : Act ι ρ ε σ₁} {act₂ : Act ι ρ ε σ₂} {C : Contract ι ρ ε τ}
    {E : (i : ι) → Except ε (ρ i) → Except ε (ρ i) → Prop} (himp₁ : Implements R₁ act₁ C)
    (himp₂ : Implements R₂ act₂ C) (hfun : Contract.Functional C E)
    {V : Except ε α → Except ε β → Prop} {p : Prog ι ρ ε α} {q : Prog ι ρ ε β}
    (hsim : Similar E V p q) {P : Except ε α → τ → Prop} {Q : Except ε β → τ → Prop}
    {s s' : σ₁} {t t' : σ₂} {a : τ} {o : Except ε α} {o' : Except ε β}
    (hs : R₁ s a) (ht : R₂ t a) (hp : p.wp C P a) (hq : q.wp C Q a)
    (hrun₁ : p.Runs act₁ s o s') (hrun₂ : q.Runs act₂ t o' t') :
    V o o' ∧ ∃ a', R₁ s' a' ∧ R₂ t' a' ∧ P o a' ∧ Q o' a' := by
  induction hsim generalizing s t a with
  | stop hV =>
      obtain ⟨rfl, rfl⟩ := runs_done_iff.mp hrun₁
      obtain ⟨rfl, rfl⟩ := runs_done_iff.mp hrun₂
      exact ⟨hV, a, hs, ht, (wp_done _ _ _).mp hp, (wp_done _ _ _).mp hq⟩
  | @call i k l _ ih =>
      obtain ⟨r₁, s₁, hact₁, hrest₁⟩ := hrun₁
      obtain ⟨r₂, t₁, hact₂, hrest₂⟩ := hrun₂
      obtain ⟨a₁, hs₁, hpost₁⟩ := himp₁ i s a hs hp.1 r₁ s₁ hact₁
      obtain ⟨a₂, ht₁, hpost₂⟩ := himp₂ i t a ht hp.1 r₂ t₁ hact₂
      obtain ⟨hE, rfl⟩ := hfun i a r₁ a₁ r₂ a₂ hp.1 hpost₁ hpost₂
      exact ih r₁ r₂ hE hs₁ ht₁ (hp.2 r₁ a₁ hpost₁) (hq.2 r₂ a₁ hpost₂) hrest₁ hrest₂

end Prog

end Calls
