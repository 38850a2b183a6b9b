import NeuralPlus.Session

/-!
# Exclusive use of a session

Whatever any number of threads do to one session, the lease has one holder,
and between the holder's acquire and release the session is the holder's: its
transcript grows by the holder's appends only.
-/

namespace NeuralPlus

open Fallible

variable {T : Type} [DecidableEq T]

namespace Shared

omit [DecidableEq T] in
theorem attempt_cases {s s' : Shared T} {holds : T → Bool} {x : Except Exc Session} {out : SessionOut}
    (h : some (s.attempt holds x) = some (s', out)) :
    (∃ e, x = .error e ∧ s' = s ∧ out = .failed e) ∨ ∃ q, x = .ok q ∧ s' = ⟨q, holds⟩ ∧ out = .done := by
  cases x with
  | ok q => simp only [attempt, Option.some.injEq, Prod.mk.injEq] at h; exact .inr ⟨q, rfl, h.1.symm, h.2.symm⟩
  | error e => simp only [attempt, Option.some.injEq, Prod.mk.injEq] at h; exact .inl ⟨e, rfl, h.1.symm, h.2.symm⟩

/-- Everything one step can do: nothing, or one of six changes with its guard. -/
theorem step_cases {s s' : Shared T} {op : SessionOp T} {out : SessionOut} (h : Step s (op, out) s') :
    (s' = s ∧ out ≠ .done) ∨
    (∃ t, op = .acquire t ∧ s.session.active = false ∧
      s' = ⟨{ s.session with active := true }, Function.update s.holds t true⟩) ∨
    (∃ t, op = .release t ∧ s.holds t = true ∧ s' = ⟨s.session.release, Function.update s.holds t false⟩) ∨
    (∃ t m, op = .appendFromClient t m ∧ out = .done ∧ s.holds t = true ∧ m.role ≠ .system ∧
      s' = ⟨{ s.session with messages := s.session.messages ++ [m] }, s.holds⟩) ∨
    (∃ t m, op = .append t m ∧ s.session.active = false ∧ m.role ≠ .system ∧
      s' = ⟨{ s.session with messages := s.session.messages ++ [m] }, s.holds⟩) ∨
    (∃ t x, op = .setSystem t x ∧ s.session.active = false ∧ s.session.messages = [] ∧
      s' = ⟨{ s.session with systemMessage := some x }, s.holds⟩) ∨
    (∃ t, op = .clearMessages t ∧ s.session.active = false ∧
      s' = ⟨{ s.session with messages := [] }, s.holds⟩) := by
  have noop : ∀ e, s' = s → out = .failed e → s' = s ∧ out ≠ .done := fun e h₁ h₂ => ⟨h₁, by rw [h₂]; simp⟩
  cases op with
  | acquire t =>
    obtain ⟨e, _, h₁, h₂⟩ | ⟨q, hq, hs, _⟩ := attempt_cases h
    · exact .inl (noop e h₁ h₂)
    · obtain ⟨ha, rfl⟩ := Session.acquire_ok hq
      exact .inr (.inl ⟨t, rfl, ha, hs⟩)
  | release t =>
    simp only [Step, step] at h
    split at h
    · rename_i ht
      simp only [Option.some.injEq, Prod.mk.injEq] at h
      exact .inr (.inr (.inl ⟨t, rfl, ht, h.1.symm⟩))
    · cases h
  | appendFromClient t m =>
    simp only [Step, step] at h
    split at h
    · rename_i ht
      obtain ⟨e, _, h₁, h₂⟩ | ⟨q, hq, hs, ho⟩ := attempt_cases h
      · exact .inl (noop e h₁ h₂)
      · obtain ⟨hm, rfl⟩ := Session.appendFromClient_ok hq
        exact .inr (.inr (.inr (.inl ⟨t, m, rfl, ho, ht, hm, hs⟩)))
    · cases h
  | append t m =>
    obtain ⟨e, _, h₁, h₂⟩ | ⟨q, hq, hs, _⟩ := attempt_cases h
    · exact .inl (noop e h₁ h₂)
    · obtain ⟨hm, ha, rfl⟩ := Session.append_ok hq
      exact .inr (.inr (.inr (.inr (.inl ⟨t, m, rfl, ha, hm, hs⟩))))
  | setSystem t x =>
    obtain ⟨e, _, h₁, h₂⟩ | ⟨q, hq, hs, _⟩ := attempt_cases h
    · exact .inl (noop e h₁ h₂)
    · obtain ⟨ha, hm, rfl⟩ := Session.setSystem_ok hq
      exact .inr (.inr (.inr (.inr (.inr (.inl ⟨t, x, rfl, ha, hm, hs⟩)))))
  | clearMessages t =>
    obtain ⟨e, _, h₁, h₂⟩ | ⟨q, hq, hs, _⟩ := attempt_cases h
    · exact .inl (noop e h₁ h₂)
    · obtain ⟨ha, rfl⟩ := Session.clearMessages_ok hq
      exact .inr (.inr (.inr (.inr (.inr (.inr ⟨t, rfl, ha, hs⟩)))))
  | messages t | system t =>
    simp only [Step, step, Option.some.injEq, Prod.mk.injEq] at h
    exact .inl ⟨h.1.symm, by rw [← h.2]; simp⟩

/-- The flag is set exactly while some thread holds the lease, one thread holds
it at a time, and no message is a system message. -/
structure Exclusive (s : Shared T) : Prop where
  active : s.session.active = true ↔ ∃ t, s.holds t = true
  unique : ∀ t u, s.holds t = true → s.holds u = true → t = u
  noSystem : ∀ m ∈ s.session.messages, m.role ≠ .system

omit [DecidableEq T] in
theorem exclusive_initial {s : Shared T} (h : Initial s) : Exclusive s := by
  obtain ⟨⟨g, o, hs⟩, hn⟩ := h
  obtain ⟨ha, hm⟩ := Session.make_ok hs
  exact ⟨by simp [ha, hn], fun t u ht => by simp [hn t] at ht, hm⟩

omit [DecidableEq T] in
theorem Exclusive.idle {s : Shared T} (h : Exclusive s) (ha : s.session.active = false) (t : T) :
    s.holds t = false := by
  by_contra ht
  have := h.active.mpr ⟨t, by simpa using ht⟩
  simp [ha] at this

theorem noSystem_concat {ms : List Message} {m : Message} (h : ∀ x ∈ ms, x.role ≠ .system) (hm : m.role ≠ .system) :
    ∀ x ∈ ms ++ [m], x.role ≠ .system := by
  intro x hx
  rcases List.mem_append.mp hx with hx | hx
  · exact h x hx
  · rw [List.mem_singleton.mp hx]; exact hm

theorem exclusive_step (s : Shared T) (e : SessionOp T × SessionOut) (s' : Shared T) (h : Exclusive s)
    (hs : Step s e s') : Exclusive s' := by
  obtain ⟨rfl, _⟩ | ⟨t, _, ha, rfl⟩ | ⟨t, _, ht, rfl⟩ | ⟨t, m, _, _, ht, hm, rfl⟩ | ⟨t, m, _, ha, hm, rfl⟩ |
    ⟨t, x, _, _, _, rfl⟩ | ⟨t, _, _, rfl⟩ := step_cases hs
  · exact h
  · have free := h.idle ha
    refine ⟨⟨fun _ => ⟨t, by simp⟩, fun _ => rfl⟩, ?_, h.noSystem⟩
    intro u v hu hv
    have only : ∀ w, Function.update s.holds t true w = true → w = t := by
      intro w hw
      by_contra hne
      rw [Function.update_of_ne hne, free w] at hw
      cases hw
    rw [only u hu, only v hv]
  · have only : ∀ u, Function.update s.holds t false u = false := by
      intro u
      by_cases hu : u = t
      · subst hu; simp
      · rw [Function.update_of_ne hu]
        by_contra hw
        exact hu (h.unique u t (by simpa using hw) ht)
    exact ⟨by simp [Session.release, only], fun u v hu => by simp [only u] at hu, h.noSystem⟩
  · exact ⟨h.active, h.unique, noSystem_concat h.noSystem hm⟩
  · exact ⟨h.active, h.unique, noSystem_concat h.noSystem hm⟩
  · exact ⟨h.active, h.unique, h.noSystem⟩
  · exact ⟨h.active, h.unique, by simp⟩

theorem exclusive_run {s₀ s : Shared T} {tr : List (SessionOp T × SessionOut)} (h : Initial s₀)
    (hr : Lts.Run Step s₀ tr s) : Exclusive s :=
  hr.invariant exclusive_step (exclusive_initial h)

/-! ## Between acquire and release -/

def appendOf (t : T) : SessionOp T × SessionOut → Option Message
  | (.appendFromClient u m, .done) => if u = t then some m else none
  | _ => none

def appendedBy (t : T) (tr : List (SessionOp T × SessionOut)) : List Message := tr.filterMap (appendOf t)

/-- Operations other than the holder's own appends and release, and reads. -/
def Contends : SessionOp T → Prop
  | .acquire _ | .append _ _ | .setSystem _ _ | .clearMessages _ => True
  | _ => False

theorem contender_fails {s : Shared T} (ha : s.session.active = true) {op : SessionOp T} (hop : Contends op) :
    ∃ e, s.step op = some (s, .failed e) := by
  cases op with
  | acquire t => exact ⟨Session.inUse, by simp [step, Session.acquire, throwIf, ha, attempt]⟩
  | append t m =>
    by_cases hm : m.role = .system <;>
      simp [step, Session.append, Session.requireIdle, throwIf, ha, hm, attempt]
  | setSystem t x =>
    by_cases hx : x = "" <;>
      simp [step, Session.setSystem, Session.requireIdle, throwIf, ha, hx, attempt]
  | clearMessages t =>
    exact ⟨Session.inUse, by simp [step, Session.clearMessages, Session.requireIdle, throwIf, ha, attempt]⟩
  | _ => exact hop.elim

theorem held_step {s s' : Shared T} {e : SessionOp T × SessionOut} {t : T} (h : Exclusive s) (ht : s.holds t = true)
    (hs : Step s e s') (hr : e.1 ≠ .release t) :
    s'.holds t = true ∧ s'.session.messages = s.session.messages ++ (appendOf t e).toList ∧
      s'.session.systemMessage = s.session.systemMessage := by
  obtain ⟨op, out⟩ := e
  have ha : s.session.active = true := h.active.mpr ⟨t, ht⟩
  obtain ⟨rfl, ho⟩ | ⟨u, _, hi, _⟩ | ⟨u, rfl, hu, _⟩ | ⟨u, m, rfl, rfl, hu, _, rfl⟩ | ⟨u, m, _, hi, _⟩ |
    ⟨u, x, _, hi, _⟩ | ⟨u, _, hi, _⟩ := step_cases hs
  · refine ⟨ht, ?_, rfl⟩
    cases op <;> cases out <;> simp_all [appendOf]
  · rw [ha] at hi; cases hi
  · exact absurd (congrArg SessionOp.release (h.unique u t hu ht)) hr
  · exact ⟨ht, by simp [appendOf, h.unique u t hu ht], rfl⟩
  · rw [ha] at hi; cases hi
  · rw [ha] at hi; cases hi
  · rw [ha] at hi; cases hi

theorem held_run {s s' : Shared T} {tr : List (SessionOp T × SessionOut)} {t : T} (hr : Lts.Run Step s tr s')
    (h : Exclusive s) (ht : s.holds t = true) (hn : ∀ e ∈ tr, e.1 ≠ .release t) :
    s'.holds t = true ∧ s'.session.messages = s.session.messages ++ appendedBy t tr ∧
      s'.session.systemMessage = s.session.systemMessage := by
  induction hr with
  | nil s => exact ⟨ht, by simp [appendedBy], rfl⟩
  | @cons s₁ s₂ _ e es hs _ ih =>
    obtain ⟨ht₂, hm₂, hx₂⟩ := held_step h ht hs (hn e (List.mem_cons_self ..))
    obtain ⟨ht₃, hm₃, hx₃⟩ := ih (exclusive_step _ _ _ h hs) ht₂ fun e' he' => hn e' (List.mem_cons_of_mem _ he')
    refine ⟨ht₃, ?_, hx₃.trans hx₂⟩
    rw [hm₃, hm₂, List.append_assoc]
    cases ho : appendOf t e <;> simp [appendedBy, ho]

theorem holds_of_acquired {s s' : Shared T} {t : T} (h : Step s (.acquire t, .done) s') : s'.holds t = true := by
  obtain ⟨e, _, _, ho⟩ | ⟨q, _, rfl, _⟩ := attempt_cases h
  · cases ho
  · simp

/-- The system message changes only while no message is there. -/
theorem systemMessage_step {s s' : Shared T} {e : SessionOp T × SessionOut} (hs : Step s e s')
    (hne : s'.session.systemMessage ≠ s.session.systemMessage) :
    s.session.messages = [] ∧ s'.session.messages = [] := by
  obtain ⟨rfl, _⟩ | ⟨t, _, _, rfl⟩ | ⟨t, _, _, rfl⟩ | ⟨t, m, _, _, _, _, rfl⟩ | ⟨t, m, _, _, _, rfl⟩ |
    ⟨t, x, _, _, hm, rfl⟩ | ⟨t, _, _, rfl⟩ := step_cases hs
  · exact absurd rfl hne
  · exact absurd rfl hne
  · exact absurd rfl hne
  · exact absurd rfl hne
  · exact absurd rfl hne
  · exact ⟨hm, hm⟩
  · exact absurd rfl hne

theorem Exclusive.others_append {s : Shared T} {t u : T} (h : Exclusive s) (ht : s.holds t = true) (hu : u ≠ t)
    (m : Message) : s.step (.appendFromClient u m) = none := by
  have hother : s.holds u = false := by
    by_contra hc
    exact hu (h.unique u t (by simpa using hc) ht)
  simp [step, hother]

/-- **A generation has its session to itself**, in every interleaving. -/
theorem session_exclusive {s₀ s : Shared T} {tr : List (SessionOp T × SessionOut)} (hinit : Initial s₀)
    (hrun : Lts.Run Step s₀ tr s) :
    (∀ t u, s.holds t = true → s.holds u = true → t = u) ∧
    (∀ t tr₁ s₁ tr₂, tr = tr₁ ++ (.acquire t, .done) :: tr₂ →
      Lts.Run Step s₀ (tr₁ ++ [(.acquire t, .done)]) s₁ → Lts.Run Step s₁ tr₂ s → (∀ e ∈ tr₂, e.1 ≠ .release t) →
      s.session.messages = s₁.session.messages ++ appendedBy t tr₂ ∧
      s.session.systemMessage = s₁.session.systemMessage ∧
      (∀ u out s', Step s (.messages u, out) s' → out = .messages (s₁.session.messages ++ appendedBy t tr₂)) ∧
      (∀ u out s', Step s (.system u, out) s' → out = .system s₁.session.systemMessage) ∧
      (∀ op, Contends op → ∃ e, s.step op = some (s, .failed e)) ∧
      (∀ u m, u ≠ t → s.step (.appendFromClient u m) = none)) ∧
    (∀ m ∈ s.session.messages, m.role ≠ .system) ∧
    (∀ e s', Step s e s' → s'.session.systemMessage ≠ s.session.systemMessage →
      s.session.messages = [] ∧ s'.session.messages = []) := by
  have h := exclusive_run hinit hrun
  refine ⟨h.unique, ?_, h.noSystem, ?_⟩
  · intro t tr₁ s₁ tr₂ _ h₁ h₂ hn
    obtain ⟨s', _, hlast⟩ := h₁.split
    have ht₁ : s₁.holds t = true := by
      cases hlast with
      | cons hs hnil => cases hnil; exact holds_of_acquired hs
    obtain ⟨ht, hm, hx⟩ := held_run h₂ (exclusive_run hinit h₁) ht₁ hn
    refine ⟨hm, hx, ?_, ?_, fun op hop => contender_fails (h.active.mpr ⟨t, ht⟩) hop, ?_⟩
    · intro u out s' hs
      simp only [Step, step, Option.some.injEq, Prod.mk.injEq] at hs
      rw [← hs.2, hm]
    · intro u out s' hs
      simp only [Step, step, Option.some.injEq, Prod.mk.injEq] at hs
      rw [← hs.2, hx]
    · intro u m hu
      exact h.others_append ht hu m
  · intro e s' hs hne
    exact systemMessage_step hs hne

def leasedByTrue (messages : List Message) : Shared Bool :=
  ⟨{ id := "session-1", active := true, messages }, Function.update (fun _ => false) true true⟩

theorem session_exclusive_two_threads :
    ∃ s₀ s : Shared Bool, Initial s₀ ∧
      Lts.Run Step s₀ [(.acquire true, .done), (.appendFromClient true (.userText "hi"), .done),
        (.append false (.userText "me too"), .failed Session.inUse)] s ∧
      s.session.messages = [.userText "hi"] ∧ (∀ m ∈ s.session.messages, m.role ≠ .system) := by
  have hinit : Initial (⟨{ id := "session-1" }, fun _ => false⟩ : Shared Bool) :=
    ⟨⟨"session-1", {}, rfl⟩, fun _ => rfl⟩
  have h₁ : Lts.Run Step ⟨{ id := "session-1" }, fun _ => false⟩ ([] ++ [(.acquire true, .done)]) (leasedByTrue []) :=
    .cons rfl (.nil _)
  have h₂ : Lts.Run Step (leasedByTrue []) [(.appendFromClient true (.userText "hi"), .done),
      (.append false (.userText "me too"), .failed Session.inUse)] (leasedByTrue [.userText "hi"]) := .cons rfl (.cons rfl (.nil _))
  obtain ⟨_, held_all, noSystem, _⟩ := session_exclusive hinit (h₁.append h₂)
  have hn : ∀ e ∈ [(SessionOp.appendFromClient true (.userText "hi"), SessionOut.done),
      (.append false (.userText "me too"), .failed Session.inUse)], e.1 ≠ .release true := by
    simp
  exact ⟨_, leasedByTrue _, hinit, h₁.append h₂, (held_all true [] _ _ rfl h₁ h₂ hn).1, noSystem⟩

end Shared

end NeuralPlus
