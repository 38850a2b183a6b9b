import NeuralPlus.Lts
import Mathlib.Logic.Function.Basic

/-!
# Calls under one lock

Threads call operations whose bodies run inside the critical section of one
lock, step by step and interleaved with the steps of every other thread. What
the shared state holds while nobody is inside is what the calls leave when they
run one at a time, in the order in which the lock was taken.
-/

namespace Locked

variable {σ ρ ρ' κ T : Type}

/-- The body of a critical section: an action changes the shared state, and what follows depends on what it finds. -/
inductive Body (σ ρ : Type) where
  | done (result : ρ)
  | act (effect : σ → σ) (next : σ → Body σ ρ)

namespace Body

def run : Body σ ρ → σ → σ × ρ
  | done result, s => (s, result)
  | act effect next, s => (next (effect s)).run (effect s)

def map (f : ρ → ρ') : Body σ ρ → Body σ ρ'
  | done result => done (f result)
  | act effect next => act effect fun s => (next s).map f

theorem run_map (f : ρ → ρ') : ∀ (body : Body σ ρ) (s : σ), (body.map f).run s = ((body.run s).1, f (body.run s).2)
  | done _, _ => rfl
  | act effect next, s => run_map f (next (effect s)) (effect s)

def bind : Body σ ρ → (ρ → Body σ ρ') → Body σ ρ'
  | done result, f => f result
  | act effect next, f => act effect fun s => (next s).bind f

theorem run_bind (f : ρ → Body σ ρ') : ∀ (body : Body σ ρ) (s : σ),
    (body.bind f).run s = (f (body.run s).2).run (body.run s).1
  | done _, _ => rfl
  | act effect next, s => run_bind f (next (effect s)) (effect s)

end Body

/-- `pc` holds the call a thread is inside of and what is left of its body,
`served` the calls that have returned and their results. -/
structure State (σ ρ κ T : Type) where
  shared : σ
  lock : Option T := none
  pc : T → Option (κ × Body σ ρ) := fun _ => none
  todo : T → List κ
  served : List (T × κ × ρ) := []

variable [DecidableEq T]

inductive Step (body : κ → Body σ ρ) : State σ ρ κ T → T → State σ ρ κ T → Prop
  | acquire {s : State σ ρ κ T} {t : T} {call : κ} {calls : List κ} :
      s.lock = none → s.pc t = none → s.todo t = call :: calls →
      Step body s t
        { s with
          lock := some t
          pc := Function.update s.pc t (some (call, body call))
          todo := Function.update s.todo t calls }
  | act {s : State σ ρ κ T} {t : T} {call : κ} {effect : σ → σ} {next : σ → Body σ ρ} :
      s.pc t = some (call, .act effect next) →
      Step body s t
        { s with
          shared := effect s.shared
          pc := Function.update s.pc t (some (call, next (effect s.shared))) }
  | release {s : State σ ρ κ T} {t : T} {call : κ} {result : ρ} :
      s.pc t = some (call, .done result) →
      Step body s t
        { s with
          lock := none
          pc := Function.update s.pc t none
          served := s.served ++ [(t, call, result)] }

def serial (body : κ → Body σ ρ) : σ → List κ → σ × List ρ
  | s, [] => (s, [])
  | s, call :: calls =>
    let after := (body call).run s
    ((serial body after.1 calls).1, after.2 :: (serial body after.1 calls).2)

omit [DecidableEq T] in
theorem serial_concat (body : κ → Body σ ρ) (call : κ) : ∀ (calls : List κ) (s : σ),
    serial body s (calls ++ [call]) =
      (((body call).run (serial body s calls).1).1,
        (serial body s calls).2 ++ [((body call).run (serial body s calls).1).2])
  | [], _ => rfl
  | first :: calls, s => by
    rw [List.cons_append, serial, serial_concat body call calls]
    rfl

def calls (s : State σ ρ κ T) : List κ := s.served.map fun entry => entry.2.1

def results (s : State σ ρ κ T) : List ρ := s.served.map fun entry => entry.2.2

def callsOf (s : State σ ρ κ T) (t : T) : List κ :=
  (s.served.filter fun entry => entry.1 = t).map (fun entry => entry.2.1) ++ ((s.pc t).map Prod.fst).toList

/-- One thread at most is inside, the lock names it, and finishing its body
from here is running the call after the served ones. -/
structure Serial (body : κ → Body σ ρ) (init : σ) (programs : T → List κ) (s : State σ ρ κ T) : Prop where
  owner : ∀ t, (s.pc t).isSome → s.lock = some t
  held : ∀ t, s.lock = some t → ∃ call rest, s.pc t = some (call, rest) ∧
    rest.run s.shared = (body call).run (serial body init (calls s)).1
  free : s.lock = none → s.shared = (serial body init (calls s)).1
  results : results s = (serial body init (calls s)).2
  order : ∀ t, callsOf s t ++ s.todo t = programs t

section
variable {body : κ → Body σ ρ} {init : σ} {programs : T → List κ}

theorem Serial.start : Serial body init programs { shared := init, todo := programs } where
  owner _ h := by cases h
  held _ h := by cases h
  free _ := rfl
  results := rfl
  order _ := rfl

theorem Serial.only {s : State σ ρ κ T} {t u : T} (h : Serial body init programs s) (hlock : s.lock = none ∨ s.lock = some t)
    (hut : u ≠ t) : s.pc u = none := by
  by_contra hpc
  have hu := h.owner u (Option.isSome_iff_ne_none.mpr hpc)
  rcases hlock with hlock | hlock
  · rw [hlock] at hu
    cases hu
  · rw [hlock] at hu
    exact hut (Option.some.inj hu).symm

theorem Serial.acquire {s : State σ ρ κ T} {t : T} {call : κ} {calls : List κ} (h : Serial body init programs s)
    (hlock : s.lock = none) (hpc : s.pc t = none) (htodo : s.todo t = call :: calls) :
    Serial body init programs
      { s with
        lock := some t
        pc := Function.update s.pc t (some (call, body call))
        todo := Function.update s.todo t calls } where
  owner u hu := by
    by_cases hut : u = t
    · rw [hut]
    · simp [Function.update_of_ne hut, h.only (.inl hlock) hut] at hu
  held u hu := by
    obtain rfl : t = u := Option.some.inj hu
    exact ⟨call, body call, Function.update_self .., congrArg (body call).run (h.free hlock)⟩
  free hnone := by cases hnone
  results := h.results
  order u := by
    have horder := h.order u
    unfold callsOf at horder ⊢
    by_cases hut : u = t
    · subst hut
      rw [hpc, htodo] at horder
      rw [← horder]
      simp
    · simpa [Function.update_of_ne hut] using horder

theorem Serial.act {s : State σ ρ κ T} {t : T} {call : κ} {effect : σ → σ} {next : σ → Body σ ρ}
    (h : Serial body init programs s) (hpc : s.pc t = some (call, .act effect next)) :
    Serial body init programs
      { s with
        shared := effect s.shared
        pc := Function.update s.pc t (some (call, next (effect s.shared))) } := by
  have hlock := h.owner t (by rw [hpc]; rfl)
  refine ⟨?_, ?_, ?_, h.results, ?_⟩
  · intro u hu
    by_cases hut : u = t
    · rw [hut]
      exact hlock
    · simp [Function.update_of_ne hut, h.only (.inr hlock) hut] at hu
  · intro u hu
    obtain rfl : t = u := Option.some.inj (hlock.symm.trans hu)
    obtain ⟨call', rest, hpc', hrun⟩ := h.held t hlock
    rw [hpc] at hpc'
    cases hpc'
    exact ⟨call, next (effect s.shared), Function.update_self .., hrun⟩
  · intro hnone
    cases hlock.symm.trans hnone
  · intro u
    have horder := h.order u
    unfold callsOf at horder ⊢
    by_cases hut : u = t
    · subst hut
      rw [hpc] at horder
      simpa using horder
    · simpa [Function.update_of_ne hut] using horder

theorem Serial.release {s : State σ ρ κ T} {t : T} {call : κ} {result : ρ} (h : Serial body init programs s)
    (hpc : s.pc t = some (call, .done result)) :
    Serial body init programs
      { s with
        lock := none
        pc := Function.update s.pc t none
        served := s.served ++ [(t, call, result)] } := by
  have hlock := h.owner t (by rw [hpc]; rfl)
  obtain ⟨call', rest, hpc', hrun⟩ := h.held t hlock
  rw [hpc] at hpc'
  cases hpc'
  have hcalls : ∀ s' : State σ ρ κ T, s'.served = s.served ++ [(t, call, result)] →
      serial body init (calls s') = (s.shared, Locked.results s ++ [result]) := by
    intro s' hs'
    have happend : calls s' = calls s ++ [call] := by
      unfold calls
      rw [hs', List.map_append]
      rfl
    rw [happend, serial_concat, ← hrun, h.results]
    rfl
  refine ⟨?_, ?_, ?_, ?_, ?_⟩
  · intro u hu
    by_cases hut : u = t
    · subst hut
      simp at hu
    · simp [Function.update_of_ne hut, h.only (.inr hlock) hut] at hu
  · intro u hu
    cases hu
  · intro _
    rw [hcalls _ rfl]
  · rw [hcalls _ rfl]
    unfold Locked.results
    rw [List.map_append]
    rfl
  · intro u
    have horder := h.order u
    unfold callsOf at horder ⊢
    by_cases hut : u = t
    · subst hut
      rw [hpc] at horder
      rw [← horder]
      simp
    · simpa [Function.update_of_ne hut, Ne.symm hut] using horder

theorem Serial.step {s s' : State σ ρ κ T} {t : T} (h : Serial body init programs s) (hstep : Step body s t s') :
    Serial body init programs s' := by
  cases hstep with
  | acquire hlock hpc htodo => exact h.acquire hlock hpc htodo
  | act hpc => exact h.act hpc
  | release hpc => exact h.release hpc

/-- Whatever the schedule, the threads' calls have taken effect one at a time. -/
theorem serializable {s : State σ ρ κ T} {schedule : List T}
    (hrun : Lts.Run (Step body) { shared := init, todo := programs } schedule s) : Serial body init programs s :=
  hrun.invariant (fun _ _ _ h hstep => h.step hstep) Serial.start

theorem Serial.mem_program {s : State σ ρ κ T} (h : Serial body init programs s) {entry : T × κ × ρ}
    (hentry : entry ∈ s.served) : entry.2.1 ∈ programs entry.1 := by
  rw [← h.order entry.1]
  apply List.mem_append_left
  apply List.mem_append_left
  exact List.mem_map_of_mem (List.mem_filter.mpr ⟨hentry, by simp⟩)

theorem Serial.mem_programs {s : State σ ρ κ T} (h : Serial body init programs s) {call : κ} (hcall : call ∈ calls s) :
    ∃ t, call ∈ programs t := by
  obtain ⟨entry, hentry, rfl⟩ := List.mem_map.mp hcall
  exact ⟨entry.1, h.mem_program hentry⟩

/-- While nobody is inside, a thread's program is what has been served of it and what is left. -/
theorem Serial.served_program {s : State σ ρ κ T} (h : Serial body init programs s) (hlock : s.lock = none) (t : T) :
    (s.served.filter fun entry => entry.1 = t).map (fun entry => entry.2.1) ++ s.todo t = programs t := by
  have hpc : s.pc t = none := by
    by_contra hpc
    have howner := h.owner t (Option.isSome_iff_ne_none.mpr hpc)
    rw [hlock] at howner
    cases howner
  rw [← h.order t]
  unfold callsOf
  rw [hpc]
  simp

/-- Calls that tell the threads apart select what one of them was served. -/
theorem Serial.filter_served {s : State σ ρ κ T} (h : Serial body init programs s) {t : T} {select : κ → Bool}
    (hselect : ∀ u, ∀ call ∈ programs u, select call = true ↔ u = t) :
    (s.served.filter fun entry => select entry.2.1) = s.served.filter fun entry => entry.1 = t := by
  apply List.filter_congr
  intro entry hentry
  rw [Bool.eq_iff_iff, hselect entry.1 _ (h.mem_program hentry)]
  simp

/-! ## A thread that is left alone -/

variable (body) in
theorem exists_run_inside {s : State σ ρ κ T} {t : T} {call : κ} {rest : Body σ ρ} (hpc : s.pc t = some (call, rest)) :
    ∃ schedule, Lts.Run (Step body) s schedule
      { s with
        shared := (rest.run s.shared).1
        lock := none
        pc := Function.update s.pc t none
        served := s.served ++ [(t, call, (rest.run s.shared).2)] } := by
  induction rest generalizing s with
  | done result => exact ⟨[t], .cons (.release hpc) (.nil _)⟩
  | act effect next ih =>
    obtain ⟨schedule, hrun⟩ := ih (effect s.shared) (s := { s with
      shared := effect s.shared
      pc := Function.update s.pc t (some (call, next (effect s.shared))) }) (Function.update_self ..)
    refine ⟨t :: schedule, .cons (.act hpc) ?_⟩
    simpa [Function.update_idem, Body.run] using hrun

variable (body) in
/-- Scheduled alone, a thread makes its next call from beginning to end. -/
theorem exists_run_call {s : State σ ρ κ T} {t : T} {call : κ} {calls : List κ} (hlock : s.lock = none)
    (hpc : s.pc t = none) (htodo : s.todo t = call :: calls) :
    ∃ schedule, Lts.Run (Step body) s schedule
      { s with
        shared := ((body call).run s.shared).1
        todo := Function.update s.todo t calls
        served := s.served ++ [(t, call, ((body call).run s.shared).2)] } := by
  obtain ⟨schedule, hrun⟩ := exists_run_inside body (s := { s with
      lock := some t
      pc := Function.update s.pc t (some (call, body call))
      todo := Function.update s.todo t calls }) (Function.update_self ..)
  refine ⟨t :: schedule, .cons (.acquire hlock hpc htodo) ?_⟩
  simpa [Function.update_idem, hlock, ← hpc] using hrun

variable (body) in
/-- Scheduled alone, a thread makes the first calls of its program. -/
theorem exists_run_calls {s : State σ ρ κ T} {t : T} {calls rest : List κ} (hlock : s.lock = none) (hpc : s.pc t = none)
    (htodo : s.todo t = calls ++ rest) : ∃ schedule s', Lts.Run (Step body) s schedule s' ∧ s'.lock = none ∧
      s'.pc = s.pc ∧ s'.todo = Function.update s.todo t rest := by
  induction calls generalizing s with
  | nil =>
    rw [List.nil_append] at htodo
    exact ⟨[], s, .nil _, hlock, rfl, by rw [← htodo, Function.update_eq_self]⟩
  | cons call calls ih =>
    obtain ⟨first, hfirst⟩ := exists_run_call body hlock hpc htodo
    obtain ⟨others, s', hothers, hlock', hpc', htodo'⟩ := ih (s := { s with
      shared := ((body call).run s.shared).1
      todo := Function.update s.todo t (calls ++ rest)
      served := s.served ++ [(t, call, ((body call).run s.shared).2)] }) hlock hpc (Function.update_self ..)
    exact ⟨first ++ others, s', hfirst.append hothers, hlock', hpc', by rw [htodo', Function.update_idem]⟩

end

end Locked
