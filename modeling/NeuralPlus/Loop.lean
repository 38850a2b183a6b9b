import Mathlib.Data.List.Basic

/-!
# Loops with several exits

A loop body either goes round again with a new state or leaves with a result.
`run` takes a bound on the number of passes; `run_isSome` gives a bound that
is enough, `run_reaches` the state it leaves from, and `Reaches.invariant` is
the invariant rule for the states it reaches.
-/

namespace Loop

universe u v

inductive Pass (σ : Type u) (ρ : Type v)
  | again (s : σ)
  | leave (r : ρ)

variable {σ : Type u} {ρ : Type v}

def run (body : σ → Pass σ ρ) : Nat → σ → Option ρ
  | 0, _ => none
  | n + 1, s =>
    match body s with
    | .again t => run body n t
    | .leave r => some r

theorem run_again {body : σ → Pass σ ρ} {s t : σ} (h : body s = .again t) (n : Nat) :
    run body (n + 1) s = run body n t := by
  simp only [run, h]

theorem run_leave {body : σ → Pass σ ρ} {s : σ} {r : ρ} (h : body s = .leave r) (n : Nat) :
    run body (n + 1) s = some r := by
  simp only [run, h]

inductive Reaches (body : σ → Pass σ ρ) (s : σ) : σ → Prop
  | start : Reaches body s s
  | again {t u : σ} : Reaches body s t → body t = .again u → Reaches body s u

theorem Reaches.invariant {body : σ → Pass σ ρ} {I : σ → Prop} (hagain : ∀ s t, I s → body s = .again t → I t)
    {s t : σ} (h : Reaches body s t) (hs : I s) : I t := by
  induction h with
  | start => exact hs
  | again _ hb ih => exact hagain _ _ ih hb

/-- An invariant proved with the help of another one, `J`. -/
theorem Reaches.invariant_of {body : σ → Pass σ ρ} {I J : σ → Prop} {s : σ} (hJ : ∀ t, Reaches body s t → J t)
    (hagain : ∀ t u, J t → I t → body t = .again u → I u) {t : σ} (h : Reaches body s t) (hs : I s) : I t := by
  induction h with
  | start => exact hs
  | again ht hb ih => exact hagain _ _ (hJ _ ht) ih hb

theorem Reaches.head {body : σ → Pass σ ρ} {s t u : σ} (hb : body s = .again t) (h : Reaches body t u) :
    Reaches body s u := by
  induction h with
  | start => exact .again .start hb
  | again _ hb' ih => exact .again ih hb'

theorem Reaches.cases_head {body : σ → Pass σ ρ} {s t : σ} (h : Reaches body s t) :
    s = t ∨ ∃ u, body s = .again u ∧ Reaches body u t := by
  induction h with
  | start => exact .inl rfl
  | again _ hb ih =>
    obtain rfl | ⟨u, hu, ht⟩ := ih
    · exact .inr ⟨_, hb, .start⟩
    · exact .inr ⟨u, hu, .again ht hb⟩

/-- The loop leaves from one state only. -/
theorem Reaches.leaves_unique {body : σ → Pass σ ρ} {s t u : σ} {r r' : ρ} (ht : Reaches body s t)
    (hr : body t = .leave r) (hu : Reaches body s u) (hr' : body u = .leave r') : t = u := by
  -- `u` stays ahead until it is reached
  have hahead : Reaches body t u := by
    refine ht.invariant (I := fun a => Reaches body a u) (fun a b ha hb => ?_) hu
    obtain rfl | ⟨b', hb', h⟩ := ha.cases_head
    · rw [hr'] at hb
      cases hb
    · rw [hb] at hb'
      cases hb'
      exact h
  obtain h | ⟨t', ht', _⟩ := hahead.cases_head
  · exact h
  · rw [hr] at ht'
    cases ht'

/-- What the loop leaves with is what the body leaves with in a state it reaches. -/
theorem run_reaches {body : σ → Pass σ ρ} : ∀ (n : Nat) {s : σ} {r : ρ}, run body n s = some r →
    ∃ t, Reaches body s t ∧ body t = .leave r
  | 0, _, _, h => by cases h
  | n + 1, s, r, h => by
    cases hb : body s with
    | again t =>
      rw [run_again hb] at h
      obtain ⟨u, hu, hr⟩ := run_reaches n h
      exact ⟨u, hu.head hb, hr⟩
    | leave r' =>
      rw [run_leave hb, Option.some.injEq] at h
      exact ⟨s, .start, by rw [hb, h]⟩

theorem run_isSome {body : σ → Pass σ ρ} {I : σ → Prop} (μ : σ → Nat)
    (hagain : ∀ s t, I s → body s = .again t → I t ∧ μ t < μ s) :
    ∀ (n : Nat) {s : σ}, I s → μ s < n → (run body n s).isSome
  | 0, _, _, h => absurd h (Nat.not_lt_zero _)
  | n + 1, s, hs, h => by
    cases hb : body s with
    | again t =>
      rw [run_again hb]
      obtain ⟨ht, hμ⟩ := hagain s t hs hb
      exact run_isSome μ hagain n ht (by omega)
    | leave r =>
      rw [run_leave hb]
      rfl

section
universe u' v'

variable {σ' : Type u'} {ρ' : Type v'}

def Pass.map (f : σ → σ') (g : ρ → ρ') : Pass σ ρ → Pass σ' ρ'
  | .again s => .again (f s)
  | .leave r => .leave (g r)

/-- Where `f` carries the passes of one body to those of another, it carries the runs. -/
theorem run_map {body : σ → Pass σ ρ} {body' : σ' → Pass σ' ρ'} {f : σ → σ'} {g : ρ → ρ'}
    (hbody : ∀ s, body' (f s) = (body s).map f g) (n : Nat) (s : σ) : run body' n (f s) = (run body n s).map g := by
  induction n generalizing s with
  | zero => rfl
  | succ n ih =>
    cases hb : body s with
    | again t =>
      rw [run_again hb, run_again (by rw [hbody, hb]; rfl), ih]
    | leave r =>
      rw [run_leave hb, run_leave (by rw [hbody, hb]; rfl)]
      rfl

end

end Loop
