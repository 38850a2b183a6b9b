import NeuralPlus.Types

/-!
# Trace events

The records a generation hands to its tracers. The wall-clock timestamp is
left out: nothing reads it before a tracer does.
-/

namespace NeuralPlus

inductive TraceLevel where
  | debug | info | warning | error
  deriving DecidableEq, Repr

inductive TraceEventType where
  | generationStart | generationEnd | providerStart | providerEnd | toolStart | toolEnd | error
  deriving DecidableEq, Repr

structure TraceEvent where
  level : TraceLevel := .info
  type : TraceEventType
  sessionId : String
  runId : String
  operationId : String := ""
  name : String
  attributes : JsonValue := .emptyObject
  payload : String := ""
  deriving DecidableEq

def makeEvent (type : TraceEventType) (sessionId runId name : String) : TraceEvent :=
  { type, sessionId, runId, name }

namespace TraceEvent

def setAttribute (e : TraceEvent) (key : String) (value : JsonValue) : TraceEvent :=
  { e with attributes := e.attributes.set key value }

def capture (e : TraceEvent) (captureTracePayloads : Bool) (payload : String) : TraceEvent :=
  if captureTracePayloads then { e with payload } else e

@[simp] theorem setAttribute_type (e : TraceEvent) (k : String) (v : JsonValue) : (e.setAttribute k v).type = e.type := rfl

@[simp] theorem setAttribute_operationId (e : TraceEvent) (k : String) (v : JsonValue) :
    (e.setAttribute k v).operationId = e.operationId := rfl

@[simp] theorem capture_type (e : TraceEvent) (b : Bool) (p : String) : (e.capture b p).type = e.type := by
  cases b <;> rfl

@[simp] theorem capture_operationId (e : TraceEvent) (b : Bool) (p : String) :
    (e.capture b p).operationId = e.operationId := by
  cases b <;> rfl

end TraceEvent

end NeuralPlus
