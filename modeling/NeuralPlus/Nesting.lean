import NeuralPlus.ExecTools
import NeuralPlus.WaitFor

/-!
# Tools that run generations

A callback may run `generate` on a session of its own. The machine has the
threads of one root generation with their call stacks: `execute_tools` moves as
in its own machine, each task it starts is an activation of `execute_tool` on
this thread or on a new one, and `execute_tool` holds the mutex of the tool
object while the callback runs.
-/

namespace NeuralPlus

/-- The tool object whose mutex `execute_tool` locks for a call, when it gets that far. -/
def AIClient.lockedTool (client : AIClient) (call : ToolCall) : Option Nat :=
  match client.registry.find? call.name with
  | none => none
  | some tool =>
    if call.argumentsValid = true ∧ validateValueAgainstSchema call.arguments tool.spec.inputSchema "$" = .ok "" then
      some tool.implementation
    else none

namespace Nesting

inductive Frame where
  | generation
  | executing (client : AIClient) (sites : Nat → ToolSite) (calls : List ToolCall) (state : ExecState ToolExecution)
  | calling (client : AIClient) (call : ToolCall)
  | locking (tool : Nat)
  /-- in `Tool::invoke`, holding the mutex -/
  | invoking (tool : Nat)

/-- The stacks of the threads, the innermost activation first. A thread that was launched for the
call of index `i` is named by `i` and the name of the thread that launched it. -/
abbrev Threads := List Nat → Option (List Frame)

def HoldsMutex (stack : Option (List Frame)) (tool : Nat) : Prop := ∃ frames, stack = some frames ∧ .invoking tool ∈ frames

def WantsMutex (stack : Option (List Frame)) (tool : Nat) : Prop :=
  (∃ rest, stack = some (.locking tool :: rest)) ∧ ¬ HoldsMutex stack tool

/-- Which threads hold and want which mutexes, and which callbacks a thread has launched: it
does not leave `execute_tools` before they are done. -/
def snapshot (s : Threads) : WaitFor.Snapshot Nat Nat :=
  { holds := fun t => HoldsMutex (s t)
    wants := fun t => WantsMutex (s t)
    launched := fun t i => (s (i :: t)).isSome }

def Deadlocked (s : Threads) : Prop := (snapshot s).Deadlocked

inductive Act where
  | respond (client : AIClient) (sites : Nat → ToolSite) (calls : List ToolCall)
  | conclude
  | main
  | launchFails
  | start (index : Nat)
  | join (index : Nat)
  | resume (index : Nat)
  | leave
  | skip
  | ask
  | lock
  | nest
  | unlock

def entered (client : AIClient) (calls : List ToolCall) : ExecPc → List Frame
  | .busy index => ((calls[index]?).map (Frame.calling client)).toList
  | _ => []

def put (s : Threads) (t : List Nat) (stack : List Frame) : Threads := Function.update s t (some stack)

inductive Step (s : Threads) : List Nat × Act → Threads → Prop
  -- the provider asks for calls, and `generate` enters `execute_tools`
  | respond {t : List Nat} {rest : List Frame} (client : AIClient) (sites : Nat → ToolSite) (calls : List ToolCall) :
      s t = some (.generation :: rest) → Step s (t, .respond client sites calls)
        (put s t (.executing client sites calls (client.execJob sites calls).init :: .generation :: rest))
  | conclude {t : List Nat} {rest : List Frame} : s t = some (.generation :: rest) → Step s (t, .conclude) (put s t rest)
  | main {t : List Nat} {rest : List Frame} {client : AIClient} {sites : Nat → ToolSite} {calls : List ToolCall}
      {e e' : ExecState ToolExecution} :
      s t = some (.executing client sites calls e :: rest) → (client.execJob sites calls).Step e .main e' →
      Step s (t, .main) (put s t (entered client calls e'.pc ++ .executing client sites calls e' :: rest))
  | launchFails {t : List Nat} {rest : List Frame} {client : AIClient} {sites : Nat → ToolSite} {calls : List ToolCall}
      {e e' : ExecState ToolExecution} :
      s t = some (.executing client sites calls e :: rest) → (client.execJob sites calls).Step e .launchFails e' →
      Step s (t, .launchFails) (put s t (.executing client sites calls e' :: rest))
  -- `std::async` runs the callback on a thread of its own
  | start {t : List Nat} {rest : List Frame} {client : AIClient} {sites : Nat → ToolSite} {calls : List ToolCall}
      {e e' : ExecState ToolExecution} {call : ToolCall} (index : Nat) :
      s t = some (.executing client sites calls e :: rest) → (client.execJob sites calls).Step e (.start index) e' →
      calls[index]? = some call →
      Step s (t, .start index)
        (put (put s t (.executing client sites calls e' :: rest)) (index :: t) [.calling client call])
  -- the launched thread has returned from its callback, so its future is ready
  | join {t : List Nat} {rest : List Frame} {client : AIClient} {sites : Nat → ToolSite} {calls : List ToolCall}
      {e e' : ExecState ToolExecution} (index : Nat) :
      s t = some (.executing client sites calls e :: rest) → s (index :: t) = some [] →
      (client.execJob sites calls).Step e (.finish index) e' →
      Step s (t, .join index)
        (Function.update (put s t (.executing client sites calls e' :: rest)) (index :: t) none)
  -- a call of the loop on this thread is done
  | resume {t : List Nat} {rest : List Frame} {client : AIClient} {sites : Nat → ToolSite} {calls : List ToolCall}
      {e e' : ExecState ToolExecution} (index : Nat) :
      s t = some (.executing client sites calls e :: rest) → e.pc = .busy index →
      (client.execJob sites calls).Step e (.finish index) e' →
      Step s (t, .resume index) (put s t (.executing client sites calls e' :: rest))
  | leave {t : List Nat} {rest : List Frame} {client : AIClient} {sites : Nat → ToolSite} {calls : List ToolCall}
      {e : ExecState ToolExecution} :
      s t = some (.executing client sites calls e :: rest) → e.pc = .returned → Step s (t, .leave) (put s t rest)
  -- no such tool, arguments that are no object, or arguments its schema rejects
  | skip {t : List Nat} {rest : List Frame} {client : AIClient} {call : ToolCall} :
      s t = some (.calling client call :: rest) → client.lockedTool call = none → Step s (t, .skip) (put s t rest)
  | ask {t : List Nat} {rest : List Frame} {client : AIClient} {call : ToolCall} {tool : Nat} :
      s t = some (.calling client call :: rest) → client.lockedTool call = some tool →
      Step s (t, .ask) (put s t (.locking tool :: rest))
  | lock {t : List Nat} {rest : List Frame} {tool : Nat} :
      s t = some (.locking tool :: rest) → (∀ u, u ≠ t → ¬ HoldsMutex (s u) tool) →
      Step s (t, .lock) (put s t (.invoking tool :: rest))
  -- the callback of the tool calls `generate` itself
  | nest {t : List Nat} {rest : List Frame} {tool : Nat} :
      s t = some (.invoking tool :: rest) → Step s (t, .nest) (put s t (.generation :: .invoking tool :: rest))
  -- the callback returns or throws, and the lock guard is destroyed
  | unlock {t : List Nat} {rest : List Frame} {tool : Nat} :
      s t = some (.invoking tool :: rest) → Step s (t, .unlock) (put s t rest)

def init : Threads := fun t => if t = [] then some [.generation] else none

end Nesting

end NeuralPlus
