import NeuralPlus.Providers
import NeuralPlus.Turns

/-!
# Histories as turns

The Anthropic and the Gemini history encoders refine `Turns.traceAll`: the
arrays they build are its turns, once the origins of the blocks are dropped.
-/

namespace NeuralPlus

open Fallible

def turnJson (key : String) (t : String × List (Message × JsonValue)) : JsonValue := turn key t.1 (t.2.map Prod.snd)

def appendContribution (key : String) (turns : List JsonValue) (t : Option (String × List JsonValue)) :
    List JsonValue :=
  match t with
  | none => turns
  | some (role, blocks) => appendTurn key turns role blocks

theorem stringField_turn (key role : String) (blocks : List JsonValue) :
    (turn key role blocks).stringField "role" = role := by
  unfold turn
  exact JsonValue.stringField_eq (by rw [JsonValue.find?_ofMembers]; rfl)

theorem find?_turn {key : String} (hkey : key ≠ "role") (role : String) (blocks : List JsonValue) :
    (turn key role blocks).find? key = some (.array blocks) := by
  unfold turn
  rw [JsonValue.find?_ofMembers, OrdMap.find?_cons, if_neg (Ne.symm hkey), OrdMap.find?_cons, if_pos rfl]

theorem ne_of_lt_role {key : String} (hkey : key < "role") : key ≠ "role" := by
  intro h
  rw [h] at hkey
  exact String.lt_irrefl _ hkey

theorem set_turn {key : String} (hkey : key < "role") (role : String) (present blocks : List JsonValue) :
    (turn key role present).set key (.array blocks) = turn key role blocks := by
  have hnot : ¬ "role" < key := fun h => String.lt_irrefl _ (String.lt_trans hkey h)
  unfold turn JsonValue.ofMembers JsonValue.set
  exact congrArg JsonValue.object (OrdMap.insert_ofList_pair (ne_of_lt_role hkey) hnot _ _ _)

theorem appendTurn_eq_push {key : String} (hkey : key < "role") (turns : List (String × List JsonValue))
    (role : String) (blocks : List JsonValue) :
    appendTurn key (turns.map fun t => turn key t.1 t.2) role blocks =
      (Turns.push turns role blocks).map fun t => turn key t.1 t.2 := by
  rcases List.eq_nil_or_concat turns with rfl | ⟨before, ⟨r, present⟩, rfl⟩
  · rfl
  · rw [List.concat_eq_append]
    unfold appendTurn
    rw [List.map_append, List.map_singleton, List.getLast?_concat]
    dsimp only
    rw [find?_turn (ne_of_lt_role hkey), stringField_turn]
    dsimp only
    by_cases h : r = role
    · subst h
      rw [if_pos rfl, Turns.push_concat_same, List.dropLast_concat, set_turn hkey]
      simp
    · rw [if_neg h, Turns.push_concat_ne h]
      simp

section
variable {key : String} {turnOf : Message → Except Exc (Option (String × List JsonValue))}
  {appendHistory : List JsonValue → Message → Except Exc (List JsonValue)}

/-- **An encoder that appends contributions builds the traced turns.** -/
theorem history_eq_traced (hkey : key < "role")
    (happend : ∀ turns m, appendHistory turns m = (turnOf m).map (appendContribution key turns)) :
    ∀ (messages : List Message) (turns : List (String × List (Message × JsonValue))),
      messages.foldlM appendHistory (turns.map (turnJson key)) =
        (messages.foldlM (Turns.trace turnOf) turns).map fun t => t.map (turnJson key)
  | [], turns => rfl
  | m :: messages, turns => by
    rw [List.foldlM_cons, List.foldlM_cons, happend]
    unfold Turns.trace
    cases ht : turnOf m with
    | error e => rfl
    | ok t =>
      cases t with
      | none => exact history_eq_traced hkey happend messages turns
      | some t =>
        obtain ⟨role, blocks⟩ := t
        have hmap : turns.map (turnJson key) = (Turns.mapBlocks Prod.snd turns).map fun t => turn key t.1 t.2 := by
          simp [Turns.mapBlocks, turnJson]
        have hpush : appendTurn key (turns.map (turnJson key)) role blocks =
            (Turns.push turns role (blocks.map (Prod.mk m))).map (turnJson key) := by
          rw [hmap, appendTurn_eq_push hkey]
          have := Turns.mapBlocks_push (Prod.snd : Message × JsonValue → JsonValue) turns role (blocks.map (Prod.mk m))
          rw [List.map_map, show Prod.snd ∘ Prod.mk m = id from rfl, List.map_id] at this
          rw [← this]
          simp [Turns.mapBlocks, turnJson]
        show (messages.foldlM appendHistory (appendTurn key (turns.map (turnJson key)) role blocks)) = _
        rw [hpush]
        exact history_eq_traced hkey happend messages _

end

namespace AnthropicClient

def turnOf (message : Message) : Except Exc (Option (String × List JsonValue)) :=
  match message.role with
  | .system => .ok none
  | .assistant =>
    match nativeContent message with
    | some native => .ok (some ("assistant", native))
    | none => do return some ("assistant", (← blocks message) ++ message.toolCalls.map toolUseBlock)
  | .tool => do return some ("user", [toolResultBlock message (← blocks message)])
  | .user => do return some ("user", ← blocks message)

theorem appendHistory_eq (turns : List JsonValue) (m : Message) :
    appendHistory turns m = (turnOf m).map (appendContribution "content" turns) := by
  unfold appendHistory turnOf
  cases m.role with
  | system => rfl
  | user => cases blocks m <;> rfl
  | tool => cases blocks m <;> rfl
  | assistant =>
    cases nativeContent m with
    | some native => rfl
    | none => cases blocks m <;> rfl

def tracedTurns (messages : List Message) : Except Exc (List (String × List (Message × JsonValue))) :=
  Turns.traceAll turnOf messages

theorem history_eq (messages : List Message) :
    messages.foldlM appendHistory [] = (tracedTurns messages).map fun turns => turns.map (turnJson "content") :=
  history_eq_traced (by decide) appendHistory_eq messages []

end AnthropicClient

namespace GeminiClient

variable (json : JsonText)

def turnOf (message : Message) : Except Exc (Option (String × List JsonValue)) :=
  match message.role with
  | .system => .ok none
  | .assistant =>
    match nativeContent message with
    | some native =>
      match native.find? "parts" with
      | some (.array parts) => .ok (some (modelRole (native.stringField "role"), parts))
      | _ => .ok none
    | none => do return some ("model", (← parts message) ++ message.toolCalls.map functionCall)
  | .tool => do return some ("user", [functionResponse json message (← toolResponseParts message)])
  | .user => do return some ("user", ← parts message)

theorem appendHistory_eq (turns : List JsonValue) (m : Message) :
    appendHistory json turns m = (turnOf json m).map (appendContribution "parts" turns) := by
  unfold appendHistory turnOf
  cases m.role with
  | system => rfl
  | user => cases parts m <;> rfl
  | tool => cases toolResponseParts m <;> rfl
  | assistant =>
    cases nativeContent m with
    | none => cases parts m <;> rfl
    | some native =>
      dsimp only
      cases native.find? "parts" with
      | none => rfl
      | some p => cases p <;> rfl

def tracedTurns (messages : List Message) : Except Exc (List (String × List (Message × JsonValue))) :=
  Turns.traceAll (turnOf json) messages

theorem history_eq (messages : List Message) :
    messages.foldlM (appendHistory json) [] =
      (tracedTurns json messages).map fun turns => turns.map (turnJson "parts") :=
  history_eq_traced (by decide) (appendHistory_eq json) messages []

end GeminiClient

end NeuralPlus
