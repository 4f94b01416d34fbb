/-
What the operations of processes conclude.

* `Traced`, `EndsAs`, `Reachable.concludes`: what a contract says of each call, taken along
  the calls of an operation, holds of it when it ends, whatever the other processes do
  between the calls;
* `hearing`, `Reachable.hears`: an operation that cannot end well without a loud call has made
  one when it does;
* `Makes`, `Reachable.makes`: the steps of a run belong to what the processes are to do, and make
  only calls that this may make;
* `noise`: contracts that tell whether a loud call has been made, and `Prog.wp_translate`: the
  contract of a program by those of the programs that its calls are translated to;
* `Prog.Yields`, `Reachable.yields`: what programs, and the operations of a run, return if
  their calls return what they are said to.
-/
import GofrSec.Calls.Erasure
import GofrSec.Calls.Lasting

namespace Calls

variable {π Ω ι κ : Type} {ρ : ι → Type} {ε ν σ α γ : Type} [DecidableEq π]

/-- What a contract says of the calls of an operation, the newest first: that they can take
its state from `g₀` to `g`. -/
def Traced (C : Contract ι ρ ε γ) (g₀ : γ) : Ledger π Ω ι ρ ε ν σ → γ → Prop
  | [], g => g = g₀
  | .call _ _ i r _ :: L, g => ∃ g₁, Traced C g₀ L g₁ ∧ C.post i g₁ r g
  | .finish _ _ _ :: L, g => Traced C g₀ L g

/-- An operation ends as `Q` says, whatever a contract says of its calls. -/
def EndsAs (C : Contract ι ρ ε γ) (g₀ : γ) (Q : Ω → Except ε ν → γ → Prop)
    (L : Ledger π Ω ι ρ ε ν σ) : Event π Ω ι ρ ε ν σ → Prop
  | .call _ _ _ _ _ => True
  | .finish p o r => ∀ g, Traced C g₀ (ongoing p L) g → Q o r g

/-- What a process is at ends as `Q` says. -/
def Underway (C : Contract ι ρ ε γ) (g₀ : γ) (Q : Ω → Except ε ν → γ → Prop)
    (l : Ledger π Ω ι ρ ε ν σ) : Option (Ω × Prog ι ρ ε ν) → Prop
  | none => l = []
  | some (o, c) => ∀ g, Traced C g₀ l g → c.wp C (Q o) g

/-- The contract of calls that answer as `Can` says, where the state tells whether a call has
been made whose answer is loud. -/
def noise (Can Loud : (i : ι) → Except ε (ρ i) → Prop) : Contract ι ρ ε Bool :=
  { pre := fun _ _ => True
    post := fun i b r b' => Can i r ∧ (b' = true → b = true ∨ Loud i r) }

omit [DecidableEq π] in
/-- If each call is translated to a program that does as the contract says, so do programs. -/
lemma Prog.wp_translate {θ : κ → Type} {C : Contract ι ρ ε γ} {D : Contract κ θ ε γ}
    {h : (j : κ) → Prog ι ρ ε (θ j)}
    (hcall : ∀ j g, D.pre j g → (h j).wp C (fun r g' => D.post j g r g') g) {p : Prog κ θ ε α}
    {Q : Except ε α → γ → Prop} {g : γ} (hp : p.wp D Q g) : (p.translate h).wp C Q g := by
  induction p generalizing g with
  | ret a => exact hp
  | raise e => exact hp
  | call j k ih =>
      rw [Prog.translate, Prog.wp_handle]
      exact Prog.wp_mono (fun r g' hpost => ih r (hp.2 r g' hpost)) (hcall j g hp.1)

omit [DecidableEq π] in
/-- If each call that a program makes is translated to a program that makes calls of kind `U`, so
are programs. -/
lemma Prog.Uses.translate {θ : κ → Type} {U : ι → Prop} {W : κ → Prop}
    {h : (j : κ) → Prog ι ρ ε (θ j)} (hcall : ∀ j, W j → (h j).Uses U) {p : Prog κ θ ε α}
    (hp : p.Uses W) : (p.translate h).Uses U := by
  induction p with
  | ret a => trivial
  | raise e => trivial
  | call j k ih => exact (hcall j hp.1).handle fun r => ih r (hp.2 r)

section

variable {C : Contract ι ρ ε γ} {g₀ : γ} {Q : Ω → Except ε ν → γ → Prop} {act : Act ι ρ ε σ}
  {prog : Ω → Prog ι ρ ε ν} {s₀ : σ}

lemma Step.concludes (hprog : ∀ o, (prog o).wp C (Q o) g₀) {S S' : System π Ω ι ρ ε ν σ}
    (hstep : Step act prog s₀ S S') (hmeets : Meets (EndsAs C g₀ Q) S.ledger)
    (hpending : ∀ p, Underway C g₀ Q (ongoing p S.ledger) (S.worker p).current) :
    Meets (EndsAs C g₀ Q) S'.ledger
      ∧ ∀ p, Underway C g₀ Q (ongoing p S'.ledger) (S'.worker p).current := by
  -- a process moves on from `v`, and leaves the others as they are
  have hmove : ∀ p v (L : Ledger π Ω ι ρ ε ν σ),
      (∀ q, q ≠ p → ongoing q L = ongoing q S.ledger) →
      Underway C g₀ Q (ongoing p L) v.current → ∀ q, Underway C g₀ Q (ongoing q L)
        (Function.update S.worker p v q).current := by
    intro p v L hother hp q
    by_cases hq : q = p
    · rw [hq, Function.update_self]
      exact hp
    · rw [Function.update_of_ne hq, hother q hq]
      exact hpending q
  cases hstep with
  | @start p o os hworker =>
      refine ⟨hmeets, hmove p ⟨os, some (o, prog o)⟩ S.ledger (fun _ _ => rfl) fun g hg => ?_⟩
      have hp := hpending p
      rw [hworker] at hp
      have hnone : ongoing p S.ledger = [] := hp
      rw [hnone] at hg
      obtain rfl : g = g₀ := hg
      exact hprog o
  | @call p o os i k r s hworker hact =>
      have hp := hpending p
      rw [hworker] at hp
      refine ⟨meets_cons.mpr ⟨trivial, hmeets⟩, hmove p ⟨os, some (o, k r)⟩ _
        (fun q hq => ongoing_of_ne (Ne.symm hq)) ?_⟩
      rw [ongoing_call]
      rintro g ⟨g₁, hg₁, hpost⟩
      exact (hp g₁ hg₁).2 r g hpost
  | @finish p o os r hworker =>
      have hp := hpending p
      rw [hworker] at hp
      refine ⟨meets_cons.mpr ⟨fun g hg => ?_, hmeets⟩, hmove p ⟨os, none⟩ _
        (fun q hq => ongoing_of_ne (Ne.symm hq)) ?_⟩
      · exact (Prog.wp_done _ _ _).mp (hp g hg)
      · exact ongoing_finish o r

/-- **What each operation concludes.** Every operation of a run ends as its program does
under a contract that its calls meet, whatever the other processes do between them. -/
theorem Reachable.concludes (hprog : ∀ o, (prog o).wp C (Q o) g₀) {todo : π → List Ω}
    {S : System π Ω ι ρ ε ν σ} (hreach : Reachable act prog s₀ todo S) :
    Meets (EndsAs C g₀ Q) S.ledger
      ∧ ∀ p, Underway C g₀ Q (ongoing p S.ledger) (S.worker p).current := by
  induction hreach with
  | refl => exact ⟨meets_nil, fun p => rfl⟩
  | tail _ hstep ih => exact Step.concludes hprog hstep ih.1 ih.2

end

/-! ### What is heard, and what is made -/

/-- The contract of calls where the state tells whether a loud one has been made. -/
def hearing (Loud : (i : ι) → Except ε (ρ i) → Prop) : Contract ι ρ ε Bool :=
  { pre := fun _ _ => True
    post := fun i b r b' => b = true ∨ Loud i r → b' = true }

/-- When the operation has ended as `A` says, it has made a loud call. -/
def Heard (Loud : (i : ι) → Except ε (ρ i) → Prop) (A : Ω → Except ε ν → Prop)
    (L : Ledger π Ω ι ρ ε ν σ) : Event π Ω ι ρ ε ν σ → Prop
  | .call _ _ _ _ _ => True
  | .finish p o r => A o r → ∃ q o' i r' s, .call q o' i r' s ∈ ongoing p L ∧ Loud i r'

/-- A step of what the processes are to do, which makes a call only if this may make it. -/
structure Makes (act : Act ι ρ ε σ) (s₀ : σ) (todo : π → List Ω) (U : Ω → ι → Prop)
    (L : Ledger π Ω ι ρ ε ν σ) (e : Event π Ω ι ρ ε ν σ) : Prop where
  todo : e.op ∈ todo e.process
  fits : Fits act s₀ L e
  call : e.IsOf (U e.op)

section

variable {Loud : (i : ι) → Except ε (ρ i) → Prop} {act : Act ι ρ ε σ} {prog : Ω → Prog ι ρ ε ν}
  {s₀ : σ} {todo : π → List Ω} {S : System π Ω ι ρ ε ν σ}

omit [DecidableEq π] in
/-- What has been heard stays so. -/
lemma Prog.wp_hearing (p : Prog ι ρ ε α) (b : Bool) :
    p.wp (hearing Loud) (fun _ b' => b = true → b' = true) b := by
  induction p generalizing b with
  | ret a => exact id
  | raise e => exact id
  | call i k ih =>
      refine ⟨trivial, fun r b' hpost => ?_⟩
      exact Prog.wp_mono (fun _ _ h hb => h (hpost (Or.inl hb))) (ih r b')

omit [DecidableEq π] in
lemma traced_hearing {L : Ledger π Ω ι ρ ε ν σ}
    (h : ∀ p o i r s, .call p o i r s ∈ L → ¬ Loud i r) : Traced (hearing Loud) false L false := by
  induction L with
  | nil => rfl
  | cons e L ih =>
      have hrest := ih fun p o i r s hmem => h p o i r s (List.mem_cons_of_mem _ hmem)
      cases e with
      | call p o i r s =>
          refine ⟨false, hrest, ?_⟩
          rintro (hb | hloud)
          · exact hb
          · exact absurd hloud (h p o i r s List.mem_cons_self)
      | finish p o r => exact hrest

/-- **What is heard.** If the program of an operation does not end as `A` says without a loud
call, every operation of a run that so ends has made one. -/
theorem Reachable.hears {A : Ω → Except ε ν → Prop}
    (hprog : ∀ o, (prog o).wp (hearing Loud) (fun r b => A o r → b = true) false)
    (hreach : Reachable act prog s₀ todo S) : Meets (Heard Loud A) S.ledger := by
  intro L₂ e L₁ hL
  have hconcludes := (Reachable.concludes hprog hreach).1 L₂ e L₁ hL
  cases e with
  | call p o i r s => trivial
  | finish p o r =>
      intro hA
      by_contra hnone
      have hsilent : Traced (hearing Loud) false (ongoing p L₁) false :=
        traced_hearing fun q o' i r' s hmem hloud => hnone ⟨q, o', i, r', s, hmem, hloud⟩
      cases hconcludes false hsilent hA

/-- **What is made.** -/
theorem Reachable.makes {U : Ω → ι → Prop} (huses : ∀ o, (prog o).Uses (U o))
    (hreach : Reachable act prog s₀ todo S) : Meets (Makes act s₀ todo U) S.ledger := by
  let Γ : Protocol π Ω ι ρ ε ν σ :=
    { act := act
      start := s₀
      Runs := fun p o => o ∈ todo p
      Ok := fun _ _ => True
      Guar := fun _ e => e.IsOf (U e.op) }
  have hkeeps : Γ.Keeps fun _ => True := fun _ _ _ _ => trivial
  have hmeets := (Reachable.keeps hkeeps trivial (fun _ _ => trivial) (fun p o ho => ho)
    (fun p o L _ _ => Protocol.Secure.mono (Protocol.secure_of_uses hkeeps.stable
      (fun i L r s hi _ _ _ => ⟨hi, trivial⟩) (huses o) trivial) fun _ _ _ => trivial) hreach).1
  intro L₂ e L₁ hL
  obtain ⟨hop, hfits, -, hcall⟩ := hmeets L₂ e L₁ hL
  exact ⟨hop, hfits, hcall⟩

end

/-! ### What operations return -/

/-- What the program returns satisfies `A`, if what its calls return satisfies `Can`. -/
def Prog.Yields (Can : (i : ι) → ρ i → Prop) (A : α → Prop) : Prog ι ρ ε α → Prop
  | .ret a => A a
  | .raise _ => True
  | .call i k => (∀ v, Can i v → (k (.ok v)).Yields Can A) ∧ ∀ e, (k (.error e)).Yields Can A

section

variable {β : Type} {Can : (i : ι) → ρ i → Prop} {A : α → Prop} {B : β → Prop}

omit [DecidableEq π] in
lemma Prog.Yields.handle {p : Prog ι ρ ε α} {k : Except ε α → Prog ι ρ ε β}
    (hp : p.Yields Can A) (hok : ∀ a, A a → (k (.ok a)).Yields Can B)
    (herror : ∀ e, (k (.error e)).Yields Can B) : (p.handle k).Yields Can B := by
  induction p with
  | ret a => exact hok a hp
  | raise e => exact herror e
  | call i c ih => exact ⟨fun v hv => ih _ (hp.1 v hv), fun e => ih _ (hp.2 e)⟩

omit [DecidableEq π] in
lemma Prog.Yields.bind {p : Prog ι ρ ε α} {f : α → Prog ι ρ ε β} (hp : p.Yields Can A)
    (hf : ∀ a, A a → (f a).Yields Can B) : (p >>= f).Yields Can B :=
  Prog.Yields.handle hp hf fun _ => trivial

omit [DecidableEq π] in
lemma Prog.yields_lift {o : Except ε α} (h : ∀ a, o = .ok a → A a) :
    (Prog.lift o : Prog ι ρ ε α).Yields Can A := by
  cases o with
  | ok a => exact h a rfl
  | error e => trivial

omit [DecidableEq π] in
lemma Prog.yields_perform (i : ι) : (Prog.perform i : Prog ι ρ ε (ρ i)).Yields Can (Can i) :=
  ⟨fun _ hv => hv, fun _ => trivial⟩

omit [DecidableEq π] in
/-- What a program returns whatever its calls answer. -/
lemma Prog.Returns.yields {p : Prog ι ρ ε α} (h : p.Returns A) : p.Yields Can A := by
  induction p with
  | ret a => exact h
  | raise e => trivial
  | call i k ih => exact ⟨fun v _ => ih _ (h _), fun e => ih _ (h _)⟩

omit [DecidableEq π] in
/-- If the programs that calls are translated to return what these do, so do programs. -/
lemma Prog.Yields.translate {θ : κ → Type} {Can' : (j : κ) → θ j → Prop}
    {h : (j : κ) → Prog ι ρ ε (θ j)} (hcall : ∀ j, (h j).Yields Can (Can' j)) {p : Prog κ θ ε α}
    (hp : p.Yields Can' A) : (p.translate h).Yields Can A := by
  induction p with
  | ret a => exact hp
  | raise e => trivial
  | call j k ih =>
      exact Prog.Yields.handle (hcall j) (fun v hv => ih _ (hp.1 v hv)) fun e => ih _ (hp.2 e)

end

/-- **What operations return.** Let all calls that the programs make keep `I`, and return what
`Can` says where it holds. Then every operation of a run that succeeds returns what its program
does over such calls. -/
theorem Reachable.yields {act : Act ι ρ ε σ} {prog : Ω → Prog ι ρ ε ν} {s₀ : σ} {U : ι → Prop}
    {I : σ → Prop} {Can : (i : ι) → ρ i → Prop} {A : Ω → ν → Prop}
    (huses : ∀ o, (prog o).Uses U)
    (hcall : ∀ i s r s', U i → I s → act i s r s' → I s' ∧ ∀ v, r = .ok v → Can i v)
    (hyields : ∀ o, (prog o).Yields Can (A o)) (hstart : I s₀) {todo : π → List Ω}
    {S : System π Ω ι ρ ε ν σ} (hreach : Reachable act prog s₀ todo S) :
    ∀ p o a, .finish p o (.ok a) ∈ S.ledger → A o a := by
  suffices h : I (world s₀ S.ledger) ∧ (∀ p, (S.worker p).Uses prog U)
      ∧ (∀ p o c, (S.worker p).current = some (o, c) → c.Yields Can (A o))
      ∧ ∀ p o a, .finish p o (.ok a) ∈ S.ledger → A o a from h.2.2.2
  induction hreach with
  | refl =>
      refine ⟨hstart, fun p => ⟨fun o _ => huses o, fun o c hc => ?_⟩, fun p o c hc => ?_,
        fun p o a ha => ?_⟩
      · cases hc
      · cases hc
      · cases ha
  | @tail S₁ S₂ _ hstep ih =>
      obtain ⟨hI, hworkers, hcurrent, hended⟩ := ih
      -- a process moves on to a program that yields what it is to yield
      have hmove : ∀ p v, (∀ o c, Worker.current v = some (o, c) → c.Yields Can (A o)) →
          ∀ q o c, (Function.update S₁.worker p v q).current = some (o, c) →
            c.Yields Can (A o) := by
        intro p v hv q
        by_cases hq : q = p
        · rw [hq, Function.update_self]
          exact hv
        · rw [Function.update_of_ne hq]
          exact hcurrent q
      cases hstep with
      | @start p o os hworker =>
          have hp := hworkers p
          rw [hworker] at hp
          refine ⟨hI, fun q => uses_update (hworkers q) fun _ => hp.start, hmove p _ ?_, hended⟩
          rintro o' c ⟨⟩
          exact hyields o
      | @call p o os i k r s hworker hact =>
          have hp := hworkers p
          have hc := hcurrent p
          rw [hworker] at hp hc
          obtain ⟨hI', hcan⟩ := hcall i _ r s (hp.current _ _ rfl).1 hI hact
          refine ⟨hI', fun q => uses_update (hworkers q) fun _ => hp.answer r, hmove p _ ?_, ?_⟩
          · rintro o' c ⟨⟩
            have hk := hc o _ rfl
            cases r with
            | ok v => exact hk.1 v (hcan v rfl)
            | error e => exact hk.2 e
          · intro q o' a ha
            rcases List.mem_cons.mp ha with heq | ha
            · cases heq
            · exact hended q o' a ha
      | @finish p o os r hworker =>
          have hp := hworkers p
          have hc := hcurrent p
          rw [hworker] at hp hc
          refine ⟨hI, fun q => uses_update (hworkers q) fun _ => hp.finish, hmove p _ ?_, ?_⟩
          · rintro o' c ⟨⟩
          · intro q o' a ha
            rcases List.mem_cons.mp ha with heq | ha
            · cases heq
              exact hc o _ rfl
            · exact hended q o' a ha

end Calls
