import NeuralPlus.Lts
import NeuralPlus.Client
import Mathlib.Logic.Function.Basic

/-!
# Executing the calls of one round

`execute_tools` as a machine: the calling thread, which runs calls itself or
launches them in batches and collects their futures, and one task for each
call. A schedule says who moves next and which launches fail.
-/

namespace NeuralPlus

/-- One call of `execute_tools`: the two options it reads, and what executing the call of an index gives. -/
structure ExecJob (α ρ : Type) where
  parallelToolCalls : Bool
  maxParallelToolCalls : Nat
  calls : List α
  execute : Nat → α → Except Exc ρ

inductive TaskStatus where
  | idle
  | ready
  | running
  | done
  deriving DecidableEq, Repr

inductive ExecPc where
  | inThread (index : Nat)
  | busy (index : Nat)
  | batch (offset : Nat)
  | launching (offset index : Nat)
  /-- at `future.get()` for the future of `next`; the batch launched up to `stop` -/
  | collecting (offset next stop : Nat) (launchFailed : Bool)
  /-- an exception leaves the function, and the destructors of the futures wait for their tasks -/
  | unwinding (e : Exc)
  | returned
  | threw (e : Exc)
  deriving DecidableEq

inductive ExecMark where
  | started (index : Nat)
  | ended (index : Nat)
  deriving DecidableEq, Repr

structure ExecState (ρ : Type) where
  pc : ExecPc
  tasks : Nat → TaskStatus := fun _ => .idle
  results : List ρ := []
  log : List ExecMark := []

inductive ExecAct where
  | main
  | launchFails
  | start (index : Nat)
  | finish (index : Nat)
  deriving DecidableEq, Repr

namespace ExecJob

variable {α ρ : Type} (job : ExecJob α ρ)

def size : Nat := job.calls.length

def parallelism : Nat := min job.maxParallelToolCalls job.size

def stop (offset : Nat) : Nat := min (offset + job.parallelism) job.size

def result (index : Nat) : Option (Except Exc ρ) := (job.calls[index]?).map (job.execute index)

def init : ExecState ρ :=
  { pc := if !job.parallelToolCalls || job.size < 2 then .inThread 0 else .batch 0 }

def mark (s : ExecState ρ) (index : Nat) (status : TaskStatus) : ExecState ρ :=
  { s with tasks := Function.update s.tasks index status }

def push (s : ExecState ρ) (index : Nat) (next : ExecPc) : Option (ExecState ρ) :=
  match job.result index with
  | some (.ok r) => some { s with pc := next, results := s.results ++ [r] }
  | some (.error e) => some { s with pc := .unwinding e }
  | none => none

def main (s : ExecState ρ) : Option (ExecState ρ) :=
  match s.pc with
  | .inThread i =>
    if i < job.size then
      some { mark s i .running with pc := .busy i, log := s.log ++ [.started i] }
    else some { s with pc := .returned }
  | .batch offset =>
    if offset < job.size then some { s with pc := .launching offset offset } else some { s with pc := .returned }
  | .launching offset i =>
    if i < job.stop offset then some { mark s i .ready with pc := .launching offset (i + 1) }
    -- the whole batch is launched: collect from its first call on
    else some { s with pc := .collecting offset offset i false }
  | .collecting offset next stop launchFailed =>
    if next < stop then
      if s.tasks next = .done then job.push s next (.collecting offset (next + 1) stop launchFailed) else none
    -- what could not be launched is executed on this thread
    else if launchFailed then some { s with pc := .inThread stop }
    else some { s with pc := .batch (offset + job.parallelism) }
  | .unwinding e =>
    -- a future of `std::async` waits for its task where it is destroyed
    if (List.range job.size).all fun i => s.tasks i = .idle ∨ s.tasks i = .done then some { s with pc := .threw e }
    else none
  | .busy _ | .returned | .threw _ => none

def finish (s : ExecState ρ) (i : Nat) : Option (ExecState ρ) :=
  let s' := { mark s i .done with log := s.log ++ [.ended i] }
  if s.pc = .busy i then job.push s' i (.inThread (i + 1)) else some s'

def step (s : ExecState ρ) : ExecAct → Option (ExecState ρ)
  | .main => job.main s
  | .launchFails =>
    match s.pc with
    | .launching offset i =>
      if i < job.stop offset then some { s with pc := .collecting offset offset i true } else none
    | _ => none
  | .start i =>
    if s.tasks i = .ready then some { mark s i .running with log := s.log ++ [.started i] } else none
  | .finish i => if s.tasks i = .running then job.finish s i else none

def Step (s : ExecState ρ) (a : ExecAct) (s' : ExecState ρ) : Prop := job.step s a = some s'

def inProgress (s : ExecState ρ) : Nat := (List.range job.size).countP fun i => s.tasks i = .running

/-! ## Running a schedule -/

def follow (s : ExecState ρ) : List ExecAct → ExecState ρ
  | [] => s
  | a :: as => follow ((job.step s a).getD s) as

def choose (s : ExecState ρ) : Option ExecAct :=
  (ExecAct.main :: (List.range job.size).flatMap fun i => [.start i, .finish i]).find? fun a => (job.step s a).isSome

def drain : Nat → ExecState ρ → ExecState ρ
  | 0, s => s
  | fuel + 1, s =>
    match job.choose s with
    | none => s
    | some a => drain fuel ((job.step s a).getD s)

def fuel : Nat := 8 * job.size + 3

def run (schedule : List ExecAct) : ExecState ρ := job.drain job.fuel (job.follow job.init schedule)

end ExecJob

/-! ## The tools of a client -/

namespace AIClient

variable (client : AIClient) (site : Nat → ToolSite) (calls : List ToolCall)

def execJob : ExecJob ToolCall ToolExecution :=
  { parallelToolCalls := client.options.parallelToolCalls
    maxParallelToolCalls := client.options.maxParallelToolCalls.toNat
    calls
    execute := fun index call => client.executeTool (site index) call }

/-- The executions of the calls, and the order in which they started and ended. -/
def executeTools (schedule : List ExecAct) : Except Exc (List ToolExecution) × List ExecMark :=
  let s := (client.execJob site calls).run schedule
  match s.pc with
  | .returned => (.ok s.results, s.log)
  | .threw e => (.error e, s.log)
  | _ => (.error .unknown, s.log)  -- a run that was drained is at one of the two above

end AIClient

end NeuralPlus
