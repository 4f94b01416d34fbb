/-
Facts that last through the steps of a run.

* `OwnCall`: a call of the operation that a process is at; `Once`: what has held at some
  moment of a run;
* `Protocol.KeepsWithin`: what lasts until the process ends its operation;
* `Protocol.Leads`: allowed steps, of whatever processes, but no end of the operation that
  the process is at, lead from one ledger to another; what lasts through them holds at the
  end (`KeepsWithin.leads`);
* `Secure.leads`: a secure program leads from where it starts to where it ends;
* `Protocol.telling`: the contract of calls that each owe a fact before and tell one
  after, the facts of the past being kept (`wp_telling_bind`, `secure_of_telling`);
* `secure_of_uses_lasting`: a program that makes only calls it may make, and may make
  from then on, keeps the invariant;
* `Reachable.keeps`: if every operation is secure from the states of an invariant that
  all steps keep, all reachable ledgers meet the protocol and the invariant.
-/
import GofrSec.Calls.Interleave

namespace Calls

variable {π Ω ι : Type} {ρ : ι → Type} {ε ν σ α β : Type}

/-- The step ends an operation of the process. -/
def Event.Ends (p : π) : Event π Ω ι ρ ε ν σ → Prop
  | .call _ _ _ _ _ => False
  | .finish q _ _ => q = p

/-- The call is one of the operation that the process is at: it has ended none since.
`L₁` are the steps before the call. -/
def OwnCall (p : π) (o : Ω) (i : ι) (r : Except ε (ρ i)) (s : σ)
    (L₁ L : Ledger π Ω ι ρ ε ν σ) : Prop :=
  ∃ L₂, L = L₂ ++ .call p o i r s :: L₁ ∧ ∀ e ∈ L₂, ¬ e.Ends p

/-- `A` held at some moment, now or before. -/
def Once (A : Ledger π Ω ι ρ ε ν σ → Prop) (L : Ledger π Ω ι ρ ε ν σ) : Prop :=
  ∃ L₂ L₁, L = L₂ ++ L₁ ∧ A L₁

section

variable {p : π} {o : Ω} {i : ι} {r : Except ε (ρ i)} {s : σ} {L L₁ : Ledger π Ω ι ρ ε ν σ}
  {e : Event π Ω ι ρ ε ν σ} {A : Ledger π Ω ι ρ ε ν σ → Prop}

/-- The call just made is one of the operation that the process is at. -/
lemma ownCall_now : OwnCall p o i r s L (.call p o i r s :: L) := ⟨[], rfl, by rintro _ ⟨⟩⟩

lemma OwnCall.cons (h : OwnCall p o i r s L₁ L) (he : ¬ e.Ends p) :
    OwnCall p o i r s L₁ (e :: L) := by
  obtain ⟨L₂, rfl, hends⟩ := h
  exact ⟨e :: L₂, rfl, List.forall_mem_cons.mpr ⟨he, hends⟩⟩

lemma Once.now (h : A L) : Once A L := ⟨[], L, rfl, h⟩

lemma Once.cons (h : Once A L) : Once A (e :: L) := by
  obtain ⟨L₂, L₁, rfl, hA⟩ := h
  exact ⟨e :: L₂, L₁, rfl, hA⟩

end

namespace Protocol

variable (Γ : Protocol π Ω ι ρ ε ν σ)

/-- No step ends the truth of `A` before the process ends its operation. -/
def KeepsWithin (p : π) (A : Ledger π Ω ι ρ ε ν σ → Prop) : Prop :=
  ∀ L e, A L → Γ.Allowed L e → ¬ e.Ends p → A (e :: L)

/-- Any number of allowed steps of any processes, while `p` ends no operation. -/
def Leads (p : π) : Ledger π Ω ι ρ ε ν σ → Ledger π Ω ι ρ ε ν σ → Prop :=
  Relation.ReflTransGen fun L L' => ∃ e, (Γ.Allowed L e ∧ ¬ e.Ends p) ∧ L' = e :: L

variable {Γ} {p : π} {o : Ω} {A : Ledger π Ω ι ρ ε ν σ → Prop} {L L' L₁ : Ledger π Ω ι ρ ε ν σ}

lemma Leads.refl : Γ.Leads p L L := Relation.ReflTransGen.refl

lemma Leads.trans (h : Γ.Leads p L L₁) (h' : Γ.Leads p L₁ L') : Γ.Leads p L L' :=
  Relation.ReflTransGen.trans h h'

lemma Leads.step (h : Γ.Leads p L L') {e : Event π Ω ι ρ ε ν σ} (he : Γ.Allowed L' e)
    (hends : ¬ e.Ends p) : Γ.Leads p L (e :: L') :=
  Relation.ReflTransGen.tail h ⟨e, ⟨he, hends⟩, rfl⟩

/-- The steps of others end no operation of the process. -/
lemma Other.not_ends {e : Event π Ω ι ρ ε ν σ} (h : Γ.Other p L e) : ¬ e.Ends p := by
  intro hends
  cases e with
  | call q o i r s => exact hends
  | finish q o r => exact h.1 hends

lemma Leads.of_env (h : Γ.Env p L L') : Γ.Leads p L L' := by
  induction h with
  | refl => exact .refl
  | tail _ hstep ih =>
      obtain ⟨e, he, rfl⟩ := hstep
      exact ih.step he.2 he.not_ends

lemma Keeps.within (hA : Γ.Keeps A) : Γ.KeepsWithin p A := fun L e h he _ => hA L e h he

lemma KeepsWithin.stable (hA : Γ.KeepsWithin p A) : Γ.Stable p A :=
  fun L e h he => hA L e h he.2 he.not_ends

/-- What lasts within an operation holds wherever its steps lead. -/
lemma KeepsWithin.leads (hA : Γ.KeepsWithin p A) (h : A L) (hleads : Γ.Leads p L L') : A L' := by
  induction hleads with
  | refl => exact h
  | tail _ hstep ih =>
      obtain ⟨e, he, rfl⟩ := hstep
      exact hA _ e ih he.1 he.2

/-- What every step keeps holds wherever the steps lead. -/
lemma Keeps.leads (hA : Γ.Keeps A) (h : A L) (hleads : Γ.Leads p L L') : A L' :=
  hA.within.leads h hleads

lemma within_and {B : Ledger π Ω ι ρ ε ν σ → Prop} (hA : Γ.KeepsWithin p A)
    (hB : Γ.KeepsWithin p B) : Γ.KeepsWithin p fun L => A L ∧ B L :=
  fun L e h he hends => ⟨hA L e h.1 he hends, hB L e h.2 he hends⟩

/-- What lies behind stays behind. -/
lemma within_leads (L : Ledger π Ω ι ρ ε ν σ) : Γ.KeepsWithin p (Γ.Leads p L) :=
  fun _ _ h he hends => h.step he hends

/-- What held at the start of a run whose steps all are allowed holds at its end. -/
lemma Keeps.of_meets (hA : Γ.Keeps A) (hmeets : Meets Γ.Allowed L) (h : A []) : A L := by
  have hlater : A (L ++ []) := by
    refine hA.later ?_ h
    rw [List.append_nil]
    exact hmeets
  rw [List.append_nil] at hlater
  exact hlater

/-! ### Secure programs -/

variable {c : Prog ι ρ ε α} {Q : Except ε α → Ledger π Ω ι ρ ε ν σ → Prop}

/-- A secure program, amid the steps of the others, leads from where it starts to
where it ends. -/
lemma Secure.leads (hruns : Γ.Runs p o) (hstart : Γ.Leads p L L₁) (h : Γ.Secure p o c Q L₁) :
    Γ.Secure p o c (fun r L' => Γ.Leads p L L' ∧ Q r L') L₁ := by
  induction c generalizing L₁ with
  | ret a => exact fun L' henv => ⟨hstart.trans (.of_env henv), h L' henv⟩
  | raise e => exact fun L' henv => ⟨hstart.trans (.of_env henv), h L' henv⟩
  | call i k ih =>
      intro L' henv r s hact hok
      obtain ⟨hguar, hrest⟩ := h L' henv r s hact hok
      have hstep : Γ.Leads p L (.call p o i r s :: L') :=
        (hstart.trans (.of_env henv)).step ⟨hruns, hact, hok, hguar⟩ id
      exact ⟨hguar, ih r hstep hrest⟩

/-- A program whose calls are all such as it may make, now and until its operation ends,
keeps the invariant. -/
lemma secure_of_uses_lasting {I : Ledger π Ω ι ρ ε ν σ → Prop}
    {U : ι → Ledger π Ω ι ρ ε ν σ → Prop} (hI : Γ.KeepsWithin p I)
    (hU : ∀ i, Γ.KeepsWithin p (U i))
    (hruns : Γ.Runs p o)
    (hcall : ∀ i L r s, U i L → I L → Γ.act i (Γ.now L) r s → Γ.Ok L (.call p o i r s) →
      Γ.Guar L (.call p o i r s))
    (hc : c.Uses fun i => U i L) (h : I L) : Γ.Secure p o c (fun _ L' => I L') L := by
  have hkeeps : Γ.KeepsWithin p fun L' => I L' ∧ Γ.Leads p L L' := within_and hI (within_leads L)
  refine Secure.mono (secure_of_uses hkeeps.stable (fun i L₁ r s hi h₁ hact hok => ?_) hc
    ⟨h, .refl⟩) fun _ _ h => h.1
  have hguar := hcall i L₁ r s ((hU i).leads hi h₁.2) h₁.1 hact hok
  exact ⟨hguar, hkeeps L₁ _ h₁ ⟨hruns, hact, hok, hguar⟩ id⟩

/-! ### Calls that tell facts -/

variable {κ : Type} {θ : κ → Type} {Owes : κ → Ledger π Ω ι ρ ε ν σ → Prop}
  {Told : (j : κ) → Except ε (θ j) → Ledger π Ω ι ρ ε ν σ → Prop}

variable (Γ p Owes Told) in
/-- Calls of an operation of `p` that owe a fact before and tell one after; the steps in
between are allowed. -/
def telling : Contract κ θ ε (Ledger π Ω ι ρ ε ν σ) where
  pre := Owes
  post j L r L' := Γ.Leads p L L' ∧ Told j r L'

/-- One call, and what follows it. -/
lemma wp_telling_bind (j : κ) (f : θ j → Prog κ θ ε β)
    (R : Except ε β → Ledger π Ω ι ρ ε ν σ → Prop) :
    (Prog.perform j >>= f).wp (Γ.telling p Owes Told) R L
      ↔ Owes j L ∧ ∀ r L', Γ.Leads p L L' → Told j r L' →
        (Prog.onReturn f r).wp (Γ.telling p Owes Told) R L' := by
  rw [Prog.wp_bind, Prog.wp_perform]
  exact and_congr_right fun _ => forall₂_congr fun r L' => and_imp

/-- The calls of a program lead on. -/
lemma wp_telling_leads {c : Prog κ θ ε β} {R : Except ε β → Ledger π Ω ι ρ ε ν σ → Prop}
    (hstart : Γ.Leads p L L₁) (h : c.wp (Γ.telling p Owes Told) R L₁) :
    c.wp (Γ.telling p Owes Told) (fun r L' => Γ.Leads p L L' ∧ R r L') L₁ := by
  induction c generalizing L₁ with
  | ret a => exact ⟨hstart, h⟩
  | raise e => exact ⟨hstart, h⟩
  | call j k ih =>
      refine ⟨h.1, fun r L' hpost => ?_⟩
      exact ih r (hstart.trans hpost.1) (h.2 r L' hpost)

/-- Programs over such calls: it is enough that each call tells its fact. -/
lemma secure_of_telling {h : (j : κ) → Prog ι ρ ε (θ j)} (hruns : Γ.Runs p o)
    (hcall : ∀ j L, Owes j L → Γ.Secure p o (h j) (fun r L' => Told j r L') L)
    {c : Prog κ θ ε α} (hQ : ∀ r, Γ.Stable p (Q r)) (hwp : c.wp (Γ.telling p Owes Told) Q L) :
    Γ.Secure p o (c.translate h) Q L :=
  secure_translate (fun j L hpre => Secure.leads hruns .refl (hcall j L hpre)) hQ hwp

end Protocol

open Protocol

/-- **What every step keeps, every run keeps.** If no step is assumed of anything, and
every operation is secure from the states of the invariant, then all steps of a run
are allowed and the invariant holds. -/
theorem Reachable.keeps [DecidableEq π] {Γ : Protocol π Ω ι ρ ε ν σ} {prog : Ω → Prog ι ρ ε ν}
    {todo : π → List Ω} {I : Ledger π Ω ι ρ ε ν σ → Prop} (hI : Γ.Keeps I) (hstart : I [])
    (hok : ∀ L e, Γ.Ok L e) (hruns : ∀ p, ∀ o ∈ todo p, Γ.Runs p o)
    (hop : ∀ p o L, Γ.Runs p o → I L →
      Γ.Secure p o (prog o) (fun r L' => Γ.Guar L' (.finish p o r)) L)
    {S : System π Ω ι ρ ε ν σ} (hreach : Reachable Γ.act prog Γ.start todo S) :
    Meets Γ.Allowed S.ledger ∧ I S.ledger := by
  have hmeets : Meets Γ.Allowed S.ledger := by
    let idle (p : π) (os : List Ω) (L : Ledger π Ω ι ρ ε ν σ) : Prop :=
      (∀ o ∈ os, Γ.Runs p o) ∧ I L
    have hstable : ∀ p os, Γ.Stable p (idle p os) :=
      fun p os => stable_and (stable_const _) hI.stable
    refine (Reachable.sound hstable ?_ ?_ ?_ hreach fun _ _ _ _ => hok _ _).1
    · exact fun _ _ _ _ => hok _ _
    · exact fun p => ⟨hruns p, hstart⟩
    · intro p o os L ⟨hos, hinv⟩
      have ho := hos o List.mem_cons_self
      refine ⟨ho, (Secure.leads ho .refl (hop p o L ho hinv)).mono fun r L' ⟨hleads, hguar⟩ => ?_⟩
      refine ⟨hguar, fun o' ho' => hos o' (List.mem_cons_of_mem _ ho'), ?_⟩
      exact hI _ _ (hI.leads hinv hleads) ⟨ho, trivial, hok _ _, hguar⟩
  exact ⟨hmeets, hI.of_meets hmeets hstart⟩

end Calls
