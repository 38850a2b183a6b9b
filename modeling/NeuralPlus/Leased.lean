import NeuralPlus.Locked

/-!
# Calls under a lease that refuses

Threads call operations on a state that says itself whether it is taken. A long
operation takes it, works on it step by step while the other threads go on, and
releases it; a short one is one step. No one waits: what finds the state taken
is refused and changes nothing. What the state holds while it is not taken is
what the other calls leave when they run one at a time.
-/

namespace Leased

open Locked (Body)

variable {σ ρ κ T : Type}

def Keeps (P : σ → Prop) : Body σ ρ → Prop
  | .done _ => True
  | .act effect next => ∀ s, P s → P (effect s) ∧ Keeps P (next (effect s))

theorem Keeps.bind {ρ' : Type} {P : σ → Prop} {f : ρ → Body σ ρ'} (hf : ∀ result, Keeps P (f result)) :
    ∀ {body : Body σ ρ}, Keeps P body → Keeps P (body.bind f)
  | .done result, _ => hf result
  | .act _ _, h => fun s hs => ⟨(h s hs).1, (h s hs).2.bind hf⟩

theorem Keeps.map {ρ' : Type} {P : σ → Prop} (f : ρ → ρ') : ∀ {body : Body σ ρ}, Keeps P body → Keeps P (body.map f)
  | .done _, _ => trivial
  | .act _ _, h => fun s hs => ⟨(h s hs).1, (h s hs).2.map f⟩

inductive Operation (σ ρ : Type) where
  | short (f : σ → σ × ρ)
  | long (body : Body σ ρ)

structure System (σ ρ κ : Type) where
  taken : σ → Bool
  take : σ → σ
  release : σ → σ
  operation : κ → Operation σ ρ
  refusal : κ → ρ
  taken_take : ∀ s, taken (take s) = true
  taken_release : ∀ s, taken (release s) = false
  short_taken : ∀ call f s, operation call = .short f → taken s = true → f s = (s, refusal call)
  short_free : ∀ call f s, operation call = .short f → taken s = false → taken (f s).1 = false
  long_keeps : ∀ call body, operation call = .long body → Keeps (fun s => taken s = true) body

/-- A call that has returned; it was admitted unless it found the state taken. -/
structure Served (ρ κ T : Type) where
  thread : T
  call : κ
  result : ρ
  admitted : Bool

structure State (σ ρ κ T : Type) where
  shared : σ
  pc : T → Option (κ × Body σ ρ) := fun _ => none
  todo : T → List κ
  served : List (Served ρ κ T) := []

namespace System

variable (system : System σ ρ κ)

def whole (call : κ) (s : σ) : σ × ρ :=
  match system.operation call with
  | .short f => f s
  | .long body =>
    if system.taken s then (s, system.refusal call)
    else
      let after := body.run (system.take s)
      (system.release after.1, after.2)

/-- The calls one at a time: what they leave and what each returns. -/
def serial : σ → List κ → σ × List ρ
  | s, [] => (s, [])
  | s, call :: calls =>
    let after := system.whole call s
    ((serial after.1 calls).1, after.2 :: (serial after.1 calls).2)

theorem serial_concat (call : κ) : ∀ (calls : List κ) (s : σ),
    system.serial s (calls ++ [call]) =
      ((system.whole call (system.serial s calls).1).1,
        (system.serial s calls).2 ++ [(system.whole call (system.serial s calls).1).2])
  | [], _ => rfl
  | first :: calls, s => by
    rw [List.cons_append, serial, serial_concat call calls]
    rfl

variable {system} {call : κ} {s : σ}

theorem whole_short {f : σ → σ × ρ} (h : system.operation call = .short f) : system.whole call s = f s := by
  unfold whole
  rw [h]

theorem whole_long {body : Body σ ρ} (h : system.operation call = .long body) (hs : system.taken s = false) :
    system.whole call s =
      (system.release (body.run (system.take s)).1, (body.run (system.take s)).2) := by
  unfold whole
  rw [h]
  dsimp only
  rw [if_neg (by rw [hs]; decide)]

theorem whole_free (hs : system.taken s = false) : system.taken (system.whole call s).1 = false := by
  cases h : system.operation call with
  | short f =>
    rw [whole_short h]
    exact system.short_free call f s h hs
  | long body =>
    rw [whole_long h hs]
    exact system.taken_release _

end System

variable [DecidableEq T]

inductive Step (system : System σ ρ κ) : State σ ρ κ T → T → State σ ρ κ T → Prop
  | short {s : State σ ρ κ T} {t : T} {call : κ} {calls : List κ} {f : σ → σ × ρ} :
      s.pc t = none → s.todo t = call :: calls → system.operation call = .short f →
      Step system s t
        { s with
          shared := (f s.shared).1
          todo := Function.update s.todo t calls
          served := s.served ++ [⟨t, call, (f s.shared).2, !system.taken s.shared⟩] }
  | refuse {s : State σ ρ κ T} {t : T} {call : κ} {calls : List κ} {body : Body σ ρ} :
      s.pc t = none → s.todo t = call :: calls → system.operation call = .long body → system.taken s.shared = true →
      Step system s t
        { s with
          todo := Function.update s.todo t calls
          served := s.served ++ [⟨t, call, system.refusal call, false⟩] }
  | enter {s : State σ ρ κ T} {t : T} {call : κ} {calls : List κ} {body : Body σ ρ} :
      s.pc t = none → s.todo t = call :: calls → system.operation call = .long body → system.taken s.shared = false →
      Step system s t
        { s with
          shared := system.take s.shared
          pc := Function.update s.pc t (some (call, body))
          todo := Function.update s.todo t calls }
  | act {s : State σ ρ κ T} {t : T} {call : κ} {effect : σ → σ} {next : σ → Body σ ρ} :
      s.pc t = some (call, .act effect next) →
      Step system s t
        { s with
          shared := effect s.shared
          pc := Function.update s.pc t (some (call, next (effect s.shared))) }
  | leave {s : State σ ρ κ T} {t : T} {call : κ} {result : ρ} :
      s.pc t = some (call, .done result) →
      Step system s t
        { s with
          shared := system.release s.shared
          pc := Function.update s.pc t none
          served := s.served ++ [⟨t, call, result, true⟩] }

def admitted (s : State σ ρ κ T) : List (Served ρ κ T) := s.served.filter Served.admitted

def callsOf (s : State σ ρ κ T) (t : T) : List κ :=
  (s.served.filter fun entry => entry.thread = t).map Served.call ++ ((s.pc t).map Prod.fst).toList

def settled (system : System σ ρ κ) (init : σ) (s : State σ ρ κ T) : σ × List ρ :=
  system.serial init ((admitted s).map Served.call)

/-- One thread at most is inside, exactly while the state is taken, and finishing
its body from here is running its call after the admitted ones. -/
structure Serial (system : System σ ρ κ) (init : σ) (programs : T → List κ) (s : State σ ρ κ T) : Prop where
  only : ∀ t u, (s.pc t).isSome → (s.pc u).isSome → t = u
  held : ∀ t call rest, s.pc t = some (call, rest) →
    system.taken s.shared = true ∧ Keeps (fun s => system.taken s = true) rest ∧
    ∃ body, system.operation call = .long body ∧
      rest.run s.shared = body.run (system.take (settled system init s).1)
  free : (∀ t, s.pc t = none) → s.shared = (settled system init s).1
  idle : system.taken (settled system init s).1 = false
  results : (admitted s).map Served.result = (settled system init s).2
  refused : ∀ entry ∈ s.served, entry.admitted = false → entry.result = system.refusal entry.call
  order : ∀ t, callsOf s t ++ s.todo t = programs t

section
variable {system : System σ ρ κ} {init : σ} {programs : T → List κ}

theorem Serial.start (hinit : system.taken init = false) : Serial system init programs { shared := init, todo := programs } where
  only _ _ h := by cases h
  held _ _ _ h := by cases h
  free _ := rfl
  idle := hinit
  results := rfl
  refused _ h := by cases h
  order _ := rfl

theorem Serial.nobody {s : State σ ρ κ T} (h : Serial system init programs s) (hfree : system.taken s.shared = false)
    (t : T) : s.pc t = none := by
  cases hpc : s.pc t with
  | none => rfl
  | some inside =>
    have htaken := (h.held t inside.1 inside.2 hpc).1
    rw [hfree] at htaken
    cases htaken

theorem Serial.settled_eq {s : State σ ρ κ T} (h : Serial system init programs s)
    (hfree : system.taken s.shared = false) : s.shared = (settled system init s).1 := h.free (h.nobody hfree)

theorem order_served {s : State σ ρ κ T} {t : T} {call : κ} {calls : List κ} {result : ρ} {ok : Bool} {shared : σ}
    (horder : ∀ u, callsOf s u ++ s.todo u = programs u) (hpc : s.pc t = none) (htodo : s.todo t = call :: calls) (u : T) :
    callsOf
        ({ s with
           shared := shared
           todo := Function.update s.todo t calls
           served := s.served ++ [⟨t, call, result, ok⟩] } : State σ ρ κ T) u ++
      Function.update s.todo t calls u = programs u := by
  have horder := horder u
  unfold callsOf at horder ⊢
  by_cases hut : u = t
  · subst hut
    rw [hpc, htodo] at horder
    rw [← horder]
    simp [hpc]
  · simpa [Function.update_of_ne hut, Ne.symm hut] using horder

omit [DecidableEq T] in
/-- A refused call leaves what the admitted calls leave as it is. -/
theorem settled_refused {s r : State σ ρ κ T} {entry : Served ρ κ T} (hr : r.served = s.served ++ [entry])
    (hentry : entry.admitted = false) : admitted r = admitted s := by
  unfold admitted
  rw [hr, List.filter_append]
  simp [hentry]

omit [DecidableEq T] in
theorem admitted_concat {s r : State σ ρ κ T} {entry : Served ρ κ T} (hr : r.served = s.served ++ [entry])
    (hentry : entry.admitted = true) : admitted r = admitted s ++ [entry] := by
  unfold admitted
  rw [hr, List.filter_append]
  simp [hentry]

omit [DecidableEq T] in
theorem settled_concat {s s' : State σ ρ κ T} {entry : Served ρ κ T} (hs' : admitted s' = admitted s ++ [entry]) :
    settled system init s' =
      ((system.whole entry.call (settled system init s).1).1,
        (settled system init s).2 ++ [(system.whole entry.call (settled system init s).1).2]) := by
  unfold settled
  rw [hs', List.map_append]
  exact system.serial_concat entry.call _ init

theorem Serial.refused_concat {s : State σ ρ κ T} (h : Serial system init programs s) {entry : Served ρ κ T}
    (hentry : entry.admitted = false → entry.result = system.refusal entry.call) :
    ∀ e ∈ s.served ++ [entry], e.admitted = false → e.result = system.refusal e.call := by
  rw [List.forall_mem_append]
  refine ⟨h.refused, ?_⟩
  rw [List.forall_mem_singleton]
  exact hentry

/-- A refused call changes nothing but the list of the served. -/
theorem Serial.refuse {s : State σ ρ κ T} {t : T} {call : κ} {calls : List κ} (h : Serial system init programs s)
    (hpc : s.pc t = none) (htodo : s.todo t = call :: calls) :
    Serial system init programs
      { s with
        todo := Function.update s.todo t calls
        served := s.served ++ [⟨t, call, system.refusal call, false⟩] } := by
  have hadmitted := settled_refused (r := { s with
      todo := Function.update s.todo t calls
      served := s.served ++ [⟨t, call, system.refusal call, false⟩] }) rfl rfl
  have hsettled : ∀ s' : State σ ρ κ T, admitted s' = admitted s → settled system init s' = settled system init s := by
    intro s' hs'
    unfold settled
    rw [hs']
  refine ⟨h.only, ?_, ?_, ?_, ?_, ?_, order_served h.order hpc htodo⟩
  · rw [hsettled _ hadmitted]
    exact h.held
  · rw [hsettled _ hadmitted]
    exact h.free
  · rw [hsettled _ hadmitted]
    exact h.idle
  · rw [hsettled _ hadmitted, hadmitted]
    exact h.results
  · exact h.refused_concat fun _ => rfl

theorem Serial.short {s : State σ ρ κ T} {t : T} {call : κ} {calls : List κ} {f : σ → σ × ρ}
    (h : Serial system init programs s) (hpc : s.pc t = none) (htodo : s.todo t = call :: calls)
    (hf : system.operation call = .short f) :
    Serial system init programs
      { s with
        shared := (f s.shared).1
        todo := Function.update s.todo t calls
        served := s.served ++ [⟨t, call, (f s.shared).2, !system.taken s.shared⟩] } := by
  cases htaken : system.taken s.shared with
  | true =>
    -- refused: the state and what the admitted calls leave are as they were
    rw [system.short_taken call f s.shared hf htaken]
    exact h.refuse hpc htodo
  | false =>
    -- admitted: the state is what the admitted calls left, so the call finds it as if it came after them
    have hshared := h.settled_eq htaken
    have hwhole : system.whole call (settled system init s).1 = f s.shared := by
      rw [hshared]
      exact System.whole_short hf
    have hadmitted := admitted_concat (r := { s with
        shared := (f s.shared).1
        todo := Function.update s.todo t calls
        served := s.served ++ [⟨t, call, (f s.shared).2, !false⟩] }) rfl rfl
    have hsettled : settled system init _ = _ := settled_concat hadmitted
    rw [hwhole] at hsettled
    refine ⟨h.only, ?_, ?_, ?_, ?_, ?_, order_served h.order hpc htodo⟩
    · intro u call' rest hu
      rw [h.nobody htaken u] at hu
      cases hu
    · intro _
      rw [hsettled]
    · rw [hsettled]
      exact system.short_free call f s.shared hf htaken
    · rw [hsettled, hadmitted, List.map_append, h.results]
      rfl
    · exact h.refused_concat nofun

theorem Serial.enter {s : State σ ρ κ T} {t : T} {call : κ} {calls : List κ} {body : Body σ ρ}
    (h : Serial system init programs s) (hpc : s.pc t = none) (htodo : s.todo t = call :: calls)
    (hbody : system.operation call = .long body) (hfree : system.taken s.shared = false) :
    Serial system init programs
      { s with
        shared := system.take s.shared
        pc := Function.update s.pc t (some (call, body))
        todo := Function.update s.todo t calls } := by
  have hinside : ∀ u, (Function.update s.pc t (some (call, body)) u).isSome → u = t := by
    intro u hu
    by_contra hut
    rw [Function.update_of_ne hut, h.nobody hfree u] at hu
    cases hu
  refine ⟨?_, ?_, ?_, h.idle, h.results, h.refused, ?_⟩
  · intro u v hu hv
    rw [hinside u hu, hinside v hv]
  · intro u call' rest hu
    dsimp only at hu
    obtain rfl := hinside u (by rw [hu]; rfl)
    rw [Function.update_self, Option.some.injEq, Prod.mk.injEq] at hu
    obtain ⟨rfl, rfl⟩ := hu
    refine ⟨system.taken_take _, system.long_keeps _ _ hbody, body, hbody, ?_⟩
    exact congrArg (fun s => body.run (system.take s)) (h.settled_eq hfree)
  · intro hnone
    have := hnone t
    dsimp only at this
    rw [Function.update_self] at this
    cases this
  · intro u
    have horder := h.order u
    unfold callsOf at horder ⊢
    by_cases hut : u = t
    · subst hut
      rw [hpc, htodo] at horder
      rw [← horder]
      simp
    · simpa [Function.update_of_ne hut] using horder

theorem Serial.act {s : State σ ρ κ T} {t : T} {call : κ} {effect : σ → σ} {next : σ → Body σ ρ}
    (h : Serial system init programs s) (hpc : s.pc t = some (call, .act effect next)) :
    Serial system init programs
      { s with
        shared := effect s.shared
        pc := Function.update s.pc t (some (call, next (effect s.shared))) } := by
  obtain ⟨htaken, hkeeps, body, hbody, hrun⟩ := h.held t call _ hpc
  have hinside : ∀ u, (Function.update s.pc t (some (call, next (effect s.shared))) u).isSome → u = t := by
    intro u hu
    by_contra hut
    rw [Function.update_of_ne hut] at hu
    exact hut (h.only u t hu (by rw [hpc]; rfl))
  refine ⟨?_, ?_, ?_, h.idle, h.results, h.refused, ?_⟩
  · intro u v hu hv
    rw [hinside u hu, hinside v hv]
  · intro u call' rest hu
    dsimp only at hu
    obtain rfl := hinside u (by rw [hu]; rfl)
    rw [Function.update_self, Option.some.injEq, Prod.mk.injEq] at hu
    obtain ⟨rfl, rfl⟩ := hu
    obtain ⟨hafter, hrest⟩ := hkeeps s.shared htaken
    exact ⟨hafter, hrest, body, hbody, hrun⟩
  · intro hnone
    have := hnone t
    dsimp only at this
    rw [Function.update_self] at this
    cases this
  · intro u
    have horder := h.order u
    unfold callsOf at horder ⊢
    by_cases hut : u = t
    · subst hut
      rw [hpc] at horder
      simpa using horder
    · simpa [Function.update_of_ne hut] using horder

theorem Serial.leave {s : State σ ρ κ T} {t : T} {call : κ} {result : ρ} (h : Serial system init programs s)
    (hpc : s.pc t = some (call, .done result)) :
    Serial system init programs
      { s with
        shared := system.release s.shared
        pc := Function.update s.pc t none
        served := s.served ++ [⟨t, call, result, true⟩] } := by
  obtain ⟨_, _, body, hbody, hrun⟩ := h.held t call _ hpc
  -- running the body from where it is was running the whole call after the admitted ones
  have hwhole : system.whole call (settled system init s).1 = (system.release s.shared, result) := by
    rw [System.whole_long hbody h.idle, ← hrun]
    rfl
  have hadmitted := admitted_concat (r := { s with
      shared := system.release s.shared
      pc := Function.update s.pc t none
      served := s.served ++ [⟨t, call, result, true⟩] }) rfl rfl
  have hsettled : settled system init _ = _ := settled_concat hadmitted
  rw [hwhole] at hsettled
  have hout : ∀ u, Function.update s.pc t none u = none := by
    intro u
    by_cases hut : u = t
    · rw [hut, Function.update_self]
    · rw [Function.update_of_ne hut]
      by_contra hu
      exact hut (h.only u t (Option.isSome_iff_ne_none.mpr hu) (by rw [hpc]; rfl))
  refine ⟨?_, ?_, ?_, ?_, ?_, ?_, ?_⟩
  · intro u _ hu _
    dsimp only at hu
    rw [hout u] at hu
    cases hu
  · intro u _ _ hu
    cases (hout u).symm.trans hu
  · intro _
    rw [hsettled]
  · rw [hsettled]
    exact system.taken_release _
  · rw [hsettled, hadmitted, List.map_append, h.results]
    rfl
  · exact h.refused_concat nofun
  · intro u
    have horder := h.order u
    unfold callsOf at horder ⊢
    by_cases hut : u = t
    · subst hut
      rw [hpc] at horder
      rw [← horder]
      simp
    · simpa [Function.update_of_ne hut, Ne.symm hut] using horder

theorem Serial.step {s s' : State σ ρ κ T} {t : T} (h : Serial system init programs s) (hstep : Step system s t s') :
    Serial system init programs s' := by
  cases hstep with
  | short hpc htodo hf => exact h.short hpc htodo hf
  | refuse hpc htodo _ _ => exact h.refuse hpc htodo
  | enter hpc htodo hbody hfree => exact h.enter hpc htodo hbody hfree
  | act hpc => exact h.act hpc
  | leave hpc => exact h.leave hpc

/-- **Whatever the schedule, the admitted calls have taken effect one at a time**, and the others none. -/
theorem serializable (hinit : system.taken init = false) {s : State σ ρ κ T} {schedule : List T}
    (hrun : Lts.Run (Step system) { shared := init, todo := programs } schedule s) : Serial system init programs s :=
  hrun.invariant (fun _ _ _ h hstep => h.step hstep) (Serial.start hinit)

/-! ## A thread that is left alone -/

variable (system) in
/-- Scheduled alone, a thread leaves the operation it is inside. -/
theorem exists_run_inside {s : State σ ρ κ T} {t : T} {call : κ} {rest : Body σ ρ} (hpc : s.pc t = some (call, rest)) :
    ∃ schedule, Lts.Run (Step system) s schedule
      { s with
        shared := system.release (rest.run s.shared).1
        pc := Function.update s.pc t none
        served := s.served ++ [⟨t, call, (rest.run s.shared).2, true⟩] } := by
  induction rest generalizing s with
  | done result => exact ⟨[t], .cons (.leave hpc) (.nil _)⟩
  | act effect next ih =>
    obtain ⟨schedule, hrun⟩ := ih (effect s.shared) (s := { s with
      shared := effect s.shared
      pc := Function.update s.pc t (some (call, next (effect s.shared))) }) (Function.update_self ..)
    refine ⟨t :: schedule, .cons (.act hpc) ?_⟩
    simpa [Function.update_idem, Body.run] using hrun

end

end Leased
