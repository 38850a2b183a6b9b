import NeuralPlus.Types
import NeuralPlus.Lts
import Mathlib.Logic.Function.Basic

/-!
# Sessions

The transcript, the system instruction and the flag of the lease, with the
operations of `session.cpp`. An operation that throws returns no session: the
old one stays. `Shared` is one session used by any number of threads, whose
steps are the operations the source makes atomic under its mutex, and the
release of the lease, which is a store to the atomic flag.
-/

namespace NeuralPlus

open Fallible

structure SessionOptions where
  id : String := ""
  systemMessage : Option String := none
  messages : List Message := []

structure Session where
  id : String
  systemMessage : Option String := none
  messages : List Message := []
  active : Bool := false
  deriving DecidableEq

namespace Session

def inUse : Exc := .sessionInUse "session is already in use"

def requireIdle (active : Bool) : Except Exc Unit := throwIf active inUse

/-- The constructor; `generated` is what `make_session_id` returns. -/
def make (generated : String) (o : SessionOptions) : Except Exc Session := do
  throwIf (o.systemMessage = some "") (.invalidArgument "system message must not be empty")
  throwIf (o.messages.any fun m => m.role = .system)
    (.invalidArgument
      "restored messages must not contain a system message; use SessionOptions::system_message")
  return { id := if o.id = "" then generated else o.id, systemMessage := o.systemMessage, messages := o.messages }

def setSystem (s : Session) (message : String) : Except Exc Session := do
  throwIf (message = "") (.invalidArgument "system message must not be empty")
  requireIdle s.active
  throwIf (s.messages ≠ []) (.logic "system message cannot change after conversation history begins")
  return { s with systemMessage := some message }

def append (s : Session) (m : Message) : Except Exc Session := do
  throwIf (m.role = .system) (.invalidArgument "append does not accept system messages; use set_system")
  requireIdle s.active
  return { s with messages := s.messages ++ [m] }

def clearMessages (s : Session) : Except Exc Session := do
  requireIdle s.active
  return { s with messages := [] }

def acquire (s : Session) : Except Exc Session := do
  throwIf s.active inUse
  return { s with active := true }

def release (s : Session) : Session := { s with active := false }

def appendFromClient (s : Session) (m : Message) : Except Exc Session := do
  throwIf (m.role = .system) (.invalidArgument "client transcript must not contain system messages")
  return { s with messages := s.messages ++ [m] }

theorem make_ok {g : String} {o : SessionOptions} {s : Session} (h : make g o = .ok s) :
    s.active = false ∧ ∀ m ∈ s.messages, m.role ≠ .system := by
  simp only [make, bind_eq_ok, throwIf_eq_ok, pure_eq_ok, Except.ok.injEq] at h
  obtain ⟨_, _, _, hm, rfl⟩ := h
  simpa using hm

theorem setSystem_ok {s s' : Session} {x : String} (h : s.setSystem x = .ok s') :
    s.active = false ∧ s.messages = [] ∧ s' = { s with systemMessage := some x } := by
  simp only [setSystem, requireIdle, bind_eq_ok, throwIf_eq_ok, pure_eq_ok, Except.ok.injEq] at h
  obtain ⟨_, _, _, ha, _, hm, rfl⟩ := h
  exact ⟨by simpa using ha, by simpa using hm, rfl⟩

theorem append_ok {s s' : Session} {m : Message} (h : s.append m = .ok s') :
    m.role ≠ .system ∧ s.active = false ∧ s' = { s with messages := s.messages ++ [m] } := by
  simp only [append, requireIdle, bind_eq_ok, throwIf_eq_ok, pure_eq_ok, Except.ok.injEq] at h
  obtain ⟨_, hm, _, ha, rfl⟩ := h
  exact ⟨hm, by simpa using ha, rfl⟩

theorem clearMessages_ok {s s' : Session} (h : s.clearMessages = .ok s') :
    s.active = false ∧ s' = { s with messages := [] } := by
  simp only [clearMessages, requireIdle, bind_eq_ok, throwIf_eq_ok, pure_eq_ok, Except.ok.injEq] at h
  obtain ⟨_, ha, rfl⟩ := h
  exact ⟨by simpa using ha, rfl⟩

theorem acquire_ok {s s' : Session} (h : s.acquire = .ok s') :
    s.active = false ∧ s' = { s with active := true } := by
  simp only [acquire, bind_eq_ok, throwIf_eq_ok, pure_eq_ok, Except.ok.injEq] at h
  obtain ⟨_, ha, rfl⟩ := h
  exact ⟨by simpa using ha, rfl⟩

theorem appendFromClient_ok {s s' : Session} {m : Message} (h : s.appendFromClient m = .ok s') :
    m.role ≠ .system ∧ s' = { s with messages := s.messages ++ [m] } := by
  simp only [appendFromClient, bind_eq_ok, throwIf_eq_ok, pure_eq_ok, Except.ok.injEq] at h
  obtain ⟨_, hm, rfl⟩ := h
  exact ⟨hm, rfl⟩

theorem appendFromClient_of_ne {s : Session} {m : Message} (h : m.role ≠ .system) :
    s.appendFromClient m = .ok { s with messages := s.messages ++ [m] } := by
  simp [appendFromClient, throwIf, h]

end Session

/-! ## One session, many threads -/

/-- What a thread does to the session. The first three are the private
operations a generation uses, the others are public. -/
inductive SessionOp (T : Type) where
  | acquire (t : T)
  | release (t : T)
  | appendFromClient (t : T) (m : Message)
  | append (t : T) (m : Message)
  | setSystem (t : T) (text : String)
  | clearMessages (t : T)
  | messages (t : T)
  | system (t : T)

inductive SessionOut where
  | done
  | failed (e : Exc)
  | messages (ms : List Message)
  | system (text : Option String)

structure Shared (T : Type) where
  session : Session
  holds : T → Bool

namespace Shared

variable {T : Type} [DecidableEq T]

def attempt (s : Shared T) (holds : T → Bool) : Except Exc Session → Shared T × SessionOut
  | .ok session => (⟨session, holds⟩, .done)
  | .error e => (s, .failed e)

/-- One atomic step. Only the holder of a lease releases it or appends through it. -/
def step (s : Shared T) : SessionOp T → Option (Shared T × SessionOut)
  | .acquire t => some (s.attempt (Function.update s.holds t true) s.session.acquire)
  | .release t =>
    if s.holds t then some (⟨s.session.release, Function.update s.holds t false⟩, .done) else none
  | .appendFromClient t m => if s.holds t then some (s.attempt s.holds (s.session.appendFromClient m)) else none
  | .append _ m => some (s.attempt s.holds (s.session.append m))
  | .setSystem _ text => some (s.attempt s.holds (s.session.setSystem text))
  | .clearMessages _ => some (s.attempt s.holds s.session.clearMessages)
  | .messages _ => some (s, .messages s.session.messages)
  | .system _ => some (s, .system s.session.systemMessage)

def Step (s : Shared T) (e : SessionOp T × SessionOut) (s' : Shared T) : Prop :=
  s.step e.1 = some (s', e.2)

def Initial (s : Shared T) : Prop :=
  (∃ generated o, Session.make generated o = .ok s.session) ∧ ∀ t, s.holds t = false

end Shared

end NeuralPlus
