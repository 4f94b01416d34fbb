/-
Processes that keep out of each other's way run as if one after another.

* `Footprint`: the places of the state that a call touches, and those that it writes;
  `Footprint.Conflict`: two calls that touch a place which one of them writes;
* `Local`: a call writes nowhere else, and does the same in every state that agrees where
  it touches;
* `Replay`: what a process has done of an operation, done again from another state;
  `Replay.transport`: it can be done from any state that agrees where its calls touch;
* `Unhindered`: no call conflicts with those of an operation that another process is at, as
  when each process locks the places it touches until its operation ends;
* `Serial`, `Step.serial`: after the operations that have ended, one after another, the
  others can be replayed, and the places they have not written are as they are;
  `Reachable.serial`: a run without conflicts leaves what the operations leave one after
  another in the order in which they ended, with the same outcomes.
-/
import GofrSec.Calls.Interleave
import GofrSec.Calls.Session
import Mathlib.Data.Fintype.Defs

namespace Calls

variable {π Ω ι κ : Type} {ρ : ι → Type} {ε ν σ θ α : Type}

/-- The places of the state that a call touches, and those among them that it writes. -/
structure Footprint (ι κ : Type) where
  Touches : ι → κ → Prop
  Writes : ι → κ → Prop
  touches_of_writes : ∀ i k, Writes i k → Touches i k

/-- The two calls touch a place that one of them writes. -/
def Footprint.Conflict (F : Footprint ι κ) (i j : ι) : Prop :=
  ∃ k, F.Touches i k ∧ F.Touches j k ∧ (F.Writes i k ∨ F.Writes j k)

/-- The step is a call that conflicts with the given one. -/
def Footprint.Hinders (F : Footprint ι κ) (e : Event π Ω ι ρ ε ν σ) (i : ι) : Prop :=
  match e with
  | .call _ _ j _ _ => F.Conflict i j
  | .finish _ _ _ => False

/-- What a state has at its places is all that calls depend on: they change the places that
they write, and in states that agree where they touch they do the same. -/
structure Local (F : Footprint ι κ) (look : σ → κ → θ) (act : Act ι ρ ε σ) : Prop where
  frame : ∀ {i s r s'}, act i s r s' → ∀ {k}, ¬ F.Writes i k → look s' k = look s k
  same : ∀ {i s t r s'}, act i s r s' → (∀ k, F.Touches i k → look t k = look s k) →
    ∃ t', act i t r t' ∧ ∀ k, look t k = look s k → look t' k = look s' k

/-! ### Replaying an operation -/

/-- From `s`, the program `c₀` makes the calls of a ledger, the newest first, and has then
`c` to run, in the state `t`. -/
inductive Replay (act : Act ι ρ ε σ) (c₀ : Prog ι ρ ε α) (s : σ) :
    Ledger π Ω ι ρ ε ν σ → Prog ι ρ ε α → σ → Prop
  | start : Replay act c₀ s [] c₀ s
  | call {L : Ledger π Ω ι ρ ε ν σ} {i : ι} {k : Except ε (ρ i) → Prog ι ρ ε α}
      {r : Except ε (ρ i)} {t t' : σ} (p : π) (o : Ω) (after : σ) :
      Replay act c₀ s L (.call i k) t → act i t r t' →
        Replay act c₀ s (.call p o i r after :: L) (k r) t'

/-- The calls of the ledger touch the place. -/
def Footprint.TouchedIn (F : Footprint ι κ) (L : Ledger π Ω ι ρ ε ν σ) (k : κ) : Prop :=
  ∃ p o i r s, .call p o i r s ∈ L ∧ F.Touches i k

/-- The calls of the ledger write the place. -/
def Footprint.WrittenIn (F : Footprint ι κ) (L : Ledger π Ω ι ρ ε ν σ) (k : κ) : Prop :=
  ∃ p o i r s, .call p o i r s ∈ L ∧ F.Writes i k

section

variable {F : Footprint ι κ} {look : σ → κ → θ} {act : Act ι ρ ε σ}
  {L : Ledger π Ω ι ρ ε ν σ} {c₀ c : Prog ι ρ ε α} {s t : σ}

lemma Footprint.touchedIn_cons {p : π} {o : Ω} {i : ι} {r : Except ε (ρ i)} {k : κ} :
    F.TouchedIn (.call p o i r s :: L) k ↔ F.Touches i k ∨ F.TouchedIn L k := by
  constructor
  · rintro ⟨p', o', i', r', s', hmem, hk⟩
    rcases List.mem_cons.mp hmem with heq | hmem
    · cases heq
      exact Or.inl hk
    · exact Or.inr ⟨p', o', i', r', s', hmem, hk⟩
  · rintro (hk | ⟨p', o', i', r', s', hmem, hk⟩)
    · exact ⟨p, o, i, r, s, List.mem_cons_self, hk⟩
    · exact ⟨p', o', i', r', s', List.mem_cons_of_mem _ hmem, hk⟩

lemma Footprint.writtenIn_cons {p : π} {o : Ω} {i : ι} {r : Except ε (ρ i)} {k : κ} :
    F.WrittenIn (.call p o i r s :: L) k ↔ F.Writes i k ∨ F.WrittenIn L k := by
  constructor
  · rintro ⟨p', o', i', r', s', hmem, hk⟩
    rcases List.mem_cons.mp hmem with heq | hmem
    · cases heq
      exact Or.inl hk
    · exact Or.inr ⟨p', o', i', r', s', hmem, hk⟩
  · rintro (hk | ⟨p', o', i', r', s', hmem, hk⟩)
    · exact ⟨p, o, i, r, s, List.mem_cons_self, hk⟩
    · exact ⟨p', o', i', r', s', List.mem_cons_of_mem _ hmem, hk⟩

lemma Footprint.not_touchedIn_nil {k : κ} :
    ¬ F.TouchedIn ([] : Ledger π Ω ι ρ ε ν σ) k := by
  rintro ⟨p, o, i, r, s, hmem, -⟩
  cases hmem

lemma Footprint.not_writtenIn_nil {k : κ} :
    ¬ F.WrittenIn ([] : Ledger π Ω ι ρ ε ν σ) k := by
  rintro ⟨p, o, i, r, s, hmem, -⟩
  cases hmem

lemma Footprint.WrittenIn.touchedIn {k : κ} (h : F.WrittenIn L k) : F.TouchedIn L k := by
  obtain ⟨p, o, i, r, s, hmem, hk⟩ := h
  exact ⟨p, o, i, r, s, hmem, F.touches_of_writes i k hk⟩

/-- What a process has done so far, it has done elsewhere than where it did not write. -/
lemma Replay.frame (hlocal : Local F look act) (h : Replay act c₀ s L c t) {k : κ}
    (hk : ¬ F.WrittenIn L k) : look t k = look s k := by
  induction h with
  | start => rfl
  | call p o after _ hact ih =>
      rw [Footprint.writtenIn_cons, not_or] at hk
      exact (hlocal.frame hact hk.1).trans (ih hk.2)

/-- The calls can be made again from every state that agrees where they touch, and wherever
the states agree before they agree after. -/
lemma Replay.transport (hlocal : Local F look act) (h : Replay act c₀ s L c t) {s' : σ}
    (hs : ∀ k, F.TouchedIn L k → look s' k = look s k) :
    ∃ t', Replay act c₀ s' L c t' ∧ ∀ k, look s' k = look s k → look t' k = look t k := by
  induction h with
  | start => exact ⟨s', .start, fun k hk => hk⟩
  | @call L i k r t t₁ p o after _ hact ih =>
      obtain ⟨t', hreplay, hagree⟩ := ih fun k hk =>
        hs k (Footprint.touchedIn_cons.mpr (Or.inr hk))
      obtain ⟨t₁', hact', hagree'⟩ := hlocal.same hact fun k hk =>
        hagree k (hs k (Footprint.touchedIn_cons.mpr (Or.inl hk)))
      exact ⟨t₁', .call p o after hreplay hact', fun k hk => hagree' k (hagree k hk)⟩

/-- Replaying the start of a run and then running the rest is running the whole. -/
lemma Replay.runs (h : Replay act c₀ s L c t) {r : Except ε α} {t' : σ}
    (hrest : c.Runs act t r t') : c₀.Runs act s r t' := by
  induction h with
  | start => exact hrest
  | call p o after _ hact ih => exact ih ⟨_, _, hact, hrest⟩

end

/-! ### Runs without conflicts -/

/-- The operations that have ended, with their outcomes, the newest first. -/
def ends : Ledger π Ω ι ρ ε ν σ → History Ω ε ν
  | [] => []
  | .call _ _ _ _ _ :: L => ends L
  | .finish _ o r :: L => (o, r) :: ends L

variable [DecidableEq π]

/-- No call conflicts with one that another process has made as part of the operation it is
at. -/
def Unhindered (F : Footprint ι κ) (L : Ledger π Ω ι ρ ε ν σ) : Event π Ω ι ρ ε ν σ → Prop
  | .call p _ i _ _ => ∀ q, q ≠ p → ∀ e ∈ ongoing q L, ¬ F.Hinders e i
  | .finish _ _ _ => True

instance decideMeets {C : Ledger π Ω ι ρ ε ν σ → Event π Ω ι ρ ε ν σ → Prop}
    [∀ L e, Decidable (C L e)] (L : Ledger π Ω ι ρ ε ν σ) : Decidable (Meets C L) :=
  match L with
  | [] => isTrue meets_nil
  | _ :: L =>
      have : Decidable (Meets C L) := decideMeets L
      decidable_of_iff' _ meets_cons

instance [Fintype π] (F : Footprint ι κ) [∀ i j, Decidable (F.Conflict i j)]
    (L : Ledger π Ω ι ρ ε ν σ) (e : Event π Ω ι ρ ε ν σ) : Decidable (Unhindered F L e) :=
  match e with
  | .call p _ i _ _ =>
      have : ∀ e : Event π Ω ι ρ ε ν σ, Decidable (F.Hinders e i) := fun e =>
        match e with
        | .call _ _ j _ _ => inferInstanceAs (Decidable (F.Conflict i j))
        | .finish _ _ _ => isFalse id
      inferInstanceAs (Decidable (∀ q, q ≠ p → ∀ e ∈ ongoing q L, ¬ F.Hinders e i))
  | .finish _ _ _ => isTrue trivial

/-- What a process has done of its operation can be done from `t`, and leaves the places
that it wrote as they are now. -/
def Resumes (F : Footprint ι κ) (look : σ → κ → θ) (act : Act ι ρ ε σ)
    (prog : Ω → Prog ι ρ ε ν) (now t : σ) (l : Ledger π Ω ι ρ ε ν σ) :
    Option (Ω × Prog ι ρ ε ν) → Prop
  | none => l = []
  | some (o, c) => ∃ t', Replay act (prog o) t l c t'
      ∧ ∀ k, F.WrittenIn l k → look t' k = look now k

/-- The run is as if the operations that have ended were run one after another, and the
others would run from there. -/
structure Serial (F : Footprint ι κ) (look : σ → κ → θ) (act : Act ι ρ ε σ)
    (prog : Ω → Prog ι ρ ε ν) (s₀ : σ) (S : System π Ω ι ρ ε ν σ) (t : σ) : Prop where
  session : Session act prog s₀ (ends S.ledger) t
  resumes : ∀ p, Resumes F look act prog (world s₀ S.ledger) t (ongoing p S.ledger)
    (S.worker p).current
  apart : ∀ p q, p ≠ q → ∀ k, F.WrittenIn (ongoing p S.ledger) k →
    ¬ F.TouchedIn (ongoing q S.ledger) k
  rest : ∀ k, (∀ p, ¬ F.WrittenIn (ongoing p S.ledger) k) →
    look (world s₀ S.ledger) k = look t k

section

variable {F : Footprint ι κ} {look : σ → κ → θ} {act : Act ι ρ ε σ} {prog : Ω → Prog ι ρ ε ν}
  {s₀ : σ} {S S' : System π Ω ι ρ ε ν σ} {t : σ}

/-- An unhindered call writes nothing that another operation touches. -/
lemma Unhindered.not_touchedIn {L : Ledger π Ω ι ρ ε ν σ} {p : π} {o : Ω} {i : ι}
    {r : Except ε (ρ i)} {s : σ} (h : Unhindered F L (.call p o i r s)) {q : π} (hq : q ≠ p)
    {k : κ} (hk : F.Writes i k) : ¬ F.TouchedIn (ongoing q L) k := by
  rintro ⟨p', o', j, r', s', hmem, hj⟩
  exact h q hq _ hmem ⟨k, F.touches_of_writes i k hk, hj, Or.inl hk⟩

/-- It touches nothing that another operation has written. -/
lemma Unhindered.not_writtenIn {L : Ledger π Ω ι ρ ε ν σ} {p : π} {o : Ω} {i : ι}
    {r : Except ε (ρ i)} {s : σ} (h : Unhindered F L (.call p o i r s)) {q : π} (hq : q ≠ p)
    {k : κ} (hk : F.Touches i k) : ¬ F.WrittenIn (ongoing q L) k := by
  rintro ⟨p', o', j, r', s', hmem, hj⟩
  exact h q hq _ hmem ⟨k, hk, F.touches_of_writes j k hj, Or.inr hj⟩

/-- What a process has done so far looks, where it touches, as it does now. -/
lemma Serial.look_eq (hlocal : Local F look act) (h : Serial F look act prog s₀ S t) {p : π}
    {o : Ω} {c : Prog ι ρ ε ν} {t' : σ}
    (hreplay : Replay act (prog o) t (ongoing p S.ledger) c t')
    (hwritten : ∀ k, F.WrittenIn (ongoing p S.ledger) k → look t' k = look (world s₀ S.ledger) k)
    {k : κ} (hk : ∀ q, q ≠ p → ¬ F.WrittenIn (ongoing q S.ledger) k) :
    look t' k = look (world s₀ S.ledger) k := by
  by_cases hown : F.WrittenIn (ongoing p S.ledger) k
  · exact hwritten k hown
  · have hnone : ∀ q, ¬ F.WrittenIn (ongoing q S.ledger) k := by
      intro q
      by_cases hq : q = p
      · rw [hq]
        exact hown
      · exact hk q hq
    calc look t' k = look t k := hreplay.frame hlocal hown
      _ = look (world s₀ S.ledger) k := (h.rest k hnone).symm

/-- **A call.** One that is unhindered can be made after what its process has done so far. -/
lemma Serial.call (hlocal : Local F look act) (h : Serial F look act prog s₀ S t) {p : π} {o : Ω}
    {os : List Ω} {i : ι} {k : Except ε (ρ i) → Prog ι ρ ε ν} {r : Except ε (ρ i)} {s : σ}
    (hworker : S.worker p = ⟨os, some (o, .call i k)⟩) (hact : act i (world s₀ S.ledger) r s)
    (hfree : Unhindered F S.ledger (.call p o i r s)) :
    Serial F look act prog s₀ ⟨.call p o i r s :: S.ledger,
      Function.update S.worker p ⟨os, some (o, k r)⟩⟩ t := by
  have hongoing : ∀ q, q ≠ p →
      ongoing q (.call p o i r s :: S.ledger) = ongoing q S.ledger :=
    fun q hq => ongoing_of_ne (Ne.symm hq)
  refine ⟨h.session, fun q => ?_, fun q q' hne x hwrites => ?_, fun x hrest => ?_⟩
  · show Resumes F look act prog s t (ongoing q (.call p o i r s :: S.ledger))
      (Function.update S.worker p ⟨os, some (o, k r)⟩ q).current
    by_cases hq : q = p
    · subst hq
      have hp := h.resumes q
      rw [hworker] at hp
      obtain ⟨t', hreplay, hwritten⟩ := hp
      have hagree : ∀ x, (∀ q', q' ≠ q → ¬ F.WrittenIn (ongoing q' S.ledger) x) →
          look t' x = look (world s₀ S.ledger) x := fun x => h.look_eq hlocal hreplay hwritten
      obtain ⟨t₁, hact₁, hagree₁⟩ := hlocal.same hact fun x hx =>
        hagree x fun q' hq' => hfree.not_writtenIn hq' hx
      rw [Function.update_self, ongoing_call]
      refine ⟨t₁, .call q o s hreplay hact₁, fun x hx => hagree₁ x ?_⟩
      rcases Footprint.writtenIn_cons.mp hx with hx | hx
      · exact hagree x fun q' hq' => hfree.not_writtenIn hq' (F.touches_of_writes i x hx)
      · exact hwritten x hx
    · rw [Function.update_of_ne hq, hongoing q hq]
      have hp := h.resumes q
      cases hc : (S.worker q).current with
      | none =>
          rw [hc] at hp
          exact hp
      | some oc =>
          rw [hc] at hp
          obtain ⟨t', hreplay, hwritten⟩ := hp
          refine ⟨t', hreplay, fun x hx => (hwritten x hx).trans ?_⟩
          exact (hlocal.frame hact fun hix => hfree.not_touchedIn hq hix hx.touchedIn).symm
  · show ¬ F.TouchedIn (ongoing q' (.call p o i r s :: S.ledger)) x
    have hx : F.WrittenIn (ongoing q (.call p o i r s :: S.ledger)) x := hwrites
    by_cases hq : q = p
    · rw [hq, ongoing_call] at hx
      rw [hq] at hne
      rw [hongoing q' (Ne.symm hne)]
      rcases Footprint.writtenIn_cons.mp hx with hx | hx
      · exact hfree.not_touchedIn (Ne.symm hne) hx
      · exact h.apart p q' hne x hx
    · rw [hongoing q hq] at hx
      by_cases hq' : q' = p
      · rw [hq', ongoing_call]
        intro htouched
        rcases Footprint.touchedIn_cons.mp htouched with hi | hrest
        · exact hfree.not_writtenIn hq hi hx
        · exact h.apart q p hq x hx hrest
      · rw [hongoing q' hq']
        exact h.apart q q' hne x hx
  · have hx : ∀ q, ¬ F.WrittenIn (ongoing q (.call p o i r s :: S.ledger)) x := hrest
    have hp := hx p
    rw [ongoing_call, Footprint.writtenIn_cons, not_or] at hp
    refine (hlocal.frame hact hp.1).trans (h.rest x fun q => ?_)
    by_cases hq : q = p
    · rw [hq]
      exact hp.2
    · rw [← hongoing q hq]
      exact hx q

/-- **An end.** The operation that ends comes after those that have ended before. -/
lemma Serial.finish (hlocal : Local F look act) (h : Serial F look act prog s₀ S t) {p : π} {o : Ω}
    {os : List Ω} {r : Except ε ν} (hworker : S.worker p = ⟨os, some (o, Prog.done r)⟩) :
    ∃ t', Serial F look act prog s₀ ⟨.finish p o r :: S.ledger,
      Function.update S.worker p ⟨os, none⟩⟩ t' := by
  have hongoing : ∀ q, q ≠ p → ongoing q (.finish p o r :: S.ledger) = ongoing q S.ledger :=
    fun q hq => ongoing_of_ne (Ne.symm hq)
  have hp := h.resumes p
  rw [hworker] at hp
  obtain ⟨t', hreplay, hwritten⟩ := hp
  have hruns : (prog o).Runs act t r t' := hreplay.runs (Prog.runs_done_iff.mpr ⟨rfl, rfl⟩)
  refine ⟨t', .step h.session hruns, fun q => ?_, fun q q' hne x hwrites => ?_, fun x hx => ?_⟩
  · show Resumes F look act prog (world s₀ S.ledger) t' (ongoing q (.finish p o r :: S.ledger))
      (Function.update S.worker p ⟨os, none⟩ q).current
    by_cases hq : q = p
    · rw [hq, Function.update_self, ongoing_finish]
      rfl
    · rw [Function.update_of_ne hq, hongoing q hq]
      have hresumes := h.resumes q
      cases hc : (S.worker q).current with
      | none =>
          rw [hc] at hresumes
          exact hresumes
      | some oc =>
          rw [hc] at hresumes
          obtain ⟨t₁, hreplay₁, hwritten₁⟩ := hresumes
          have hsame : ∀ x, F.TouchedIn (ongoing q S.ledger) x → look t' x = look t x :=
            fun x hx => hreplay.frame hlocal fun hp => h.apart p q (Ne.symm hq) x hp hx
          obtain ⟨t₂, hreplay₂, hagree⟩ := hreplay₁.transport hlocal hsame
          exact ⟨t₂, hreplay₂, fun x hx =>
            (hagree x (hsame x hx.touchedIn)).trans (hwritten₁ x hx)⟩
  · show ¬ F.TouchedIn (ongoing q' (.finish p o r :: S.ledger)) x
    have hx : F.WrittenIn (ongoing q (.finish p o r :: S.ledger)) x := hwrites
    by_cases hq : q = p
    · rw [hq, ongoing_finish] at hx
      exact absurd hx Footprint.not_writtenIn_nil
    · rw [hongoing q hq] at hx
      by_cases hq' : q' = p
      · rw [hq', ongoing_finish]
        exact Footprint.not_touchedIn_nil
      · rw [hongoing q' hq']
        exact h.apart q q' hne x hx
  · refine (h.look_eq hlocal hreplay hwritten fun q hq => ?_).symm
    rw [← hongoing q hq]
    exact hx q

/-- **One step.** -/
theorem Step.serial (hlocal : Local F look act) (h : Serial F look act prog s₀ S t)
    (hstep : Step act prog s₀ S S') (hfree : Meets (Unhindered F) S'.ledger) :
    ∃ t', Serial F look act prog s₀ S' t' := by
  cases hstep with
  | @start p o os hworker =>
      refine ⟨t, h.session, fun q => ?_, h.apart, h.rest⟩
      show Resumes F look act prog (world s₀ S.ledger) t (ongoing q S.ledger)
        (Function.update S.worker p ⟨os, some (o, prog o)⟩ q).current
      have hq := h.resumes q
      by_cases hqp : q = p
      · rw [hqp, hworker] at hq
        have hnone : ongoing p S.ledger = [] := hq
        rw [hqp, Function.update_self, hnone]
        exact ⟨t, .start, fun k hk => absurd hk Footprint.not_writtenIn_nil⟩
      · rw [Function.update_of_ne hqp]
        exact hq
  | call hworker hact => exact ⟨t, h.call hlocal hworker hact (meets_cons.mp hfree).1⟩
  | finish hworker => exact h.finish hlocal hworker

/-- **Serialisability.** A run in which no call conflicts with an operation that another
process is at is as if the operations that have ended were run one after another, in the
order of their ends. -/
theorem Reachable.serial (hlocal : Local F look act) {todo : π → List Ω}
    (hreach : Reachable act prog s₀ todo S) (hfree : Meets (Unhindered F) S.ledger) :
    ∃ t, Serial F look act prog s₀ S t := by
  induction hreach with
  | refl =>
      refine ⟨s₀, .start, fun p => rfl, fun p q _ k hk => ?_, fun k _ => rfl⟩
      exact absurd hk Footprint.not_writtenIn_nil
  | @tail S₁ S₂ _ hstep ih =>
      have hbefore : Meets (Unhindered F) S₁.ledger := by
        rcases hstep.ledger with heq | ⟨e, heq⟩
        · rw [← heq]
          exact hfree
        · rw [heq] at hfree
          exact (meets_cons.mp hfree).2
      obtain ⟨t, ht⟩ := ih hbefore
      exact Step.serial hlocal ht hstep hfree

/-- What processes have run, are at or have still to run is of their lists. -/
structure FromTodo (todo : π → List Ω) (S : System π Ω ι ρ ε ν σ) : Prop where
  waiting : ∀ p, ∀ o ∈ (S.worker p).todo, o ∈ todo p
  current : ∀ p o c, (S.worker p).current = some (o, c) → o ∈ todo p
  ended : ∀ x ∈ ends S.ledger, ∃ p, x.1 ∈ todo p

lemma Reachable.fromTodo {todo : π → List Ω} (hreach : Reachable act prog s₀ todo S) :
    FromTodo todo S := by
  induction hreach with
  | refl =>
      refine ⟨fun p o ho => ho, fun p o c hc => ?_, fun x hx => ?_⟩
      · cases hc
      · cases hx
  | @tail S₁ S₂ _ hstep ih =>
      -- a process moves on from `v` to `v'`, within its list
      have hmove : ∀ p v, (∀ o ∈ v.todo, o ∈ todo p) →
          (∀ o c, v.current = some (o, c) → o ∈ todo p) →
          (∀ q, ∀ o ∈ (Function.update S₁.worker p v q).todo, o ∈ todo q)
            ∧ ∀ q o c, (Function.update S₁.worker p v q).current = some (o, c) → o ∈ todo q := by
        intro p v htodo hcurrent
        refine ⟨fun q => ?_, fun q => ?_⟩
        · by_cases hq : q = p
          · rw [hq, Function.update_self]
            exact htodo
          · rw [Function.update_of_ne hq]
            exact ih.waiting q
        · by_cases hq : q = p
          · rw [hq, Function.update_self]
            exact hcurrent
          · rw [Function.update_of_ne hq]
            exact ih.current q
      cases hstep with
      | @start p o os hworker =>
          have htodo := ih.waiting p
          rw [hworker] at htodo
          obtain ⟨h₁, h₂⟩ := hmove p ⟨os, some (o, prog o)⟩
            (fun o' ho' => htodo o' (List.mem_cons_of_mem _ ho')) (by
              rintro o' c ⟨⟩
              exact htodo o List.mem_cons_self)
          exact ⟨h₁, h₂, ih.ended⟩
      | @call p o os i k r s hworker hact =>
          have htodo := ih.waiting p
          have hcurrent := ih.current p
          rw [hworker] at htodo hcurrent
          obtain ⟨h₁, h₂⟩ := hmove p ⟨os, some (o, k r)⟩ htodo (by
            rintro o' c ⟨⟩
            exact hcurrent o _ rfl)
          exact ⟨h₁, h₂, ih.ended⟩
      | @finish p o os r hworker =>
          have htodo := ih.waiting p
          have hcurrent := ih.current p
          rw [hworker] at htodo hcurrent
          obtain ⟨h₁, h₂⟩ := hmove p ⟨os, none⟩ htodo (by
            rintro o' c ⟨⟩)
          refine ⟨h₁, h₂, fun x hx => ?_⟩
          rcases List.mem_cons.mp hx with rfl | hx
          · exact ⟨p, hcurrent o _ rfl⟩
          · exact ih.ended x hx

/-- Between operations the states are the same at every place. -/
lemma Serial.look_of_idle (h : Serial F look act prog s₀ S t)
    (hidle : ∀ p, (S.worker p).current = none) (k : κ) :
    look (world s₀ S.ledger) k = look t k := by
  refine h.rest k fun p => ?_
  have hp := h.resumes p
  rw [hidle p] at hp
  have hnone : ongoing p S.ledger = [] := hp
  rw [hnone]
  exact Footprint.not_writtenIn_nil

end

end Calls
