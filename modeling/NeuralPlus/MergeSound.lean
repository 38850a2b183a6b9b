import NeuralPlus.TurnHistory

/-!
# Merged histories

The Anthropic and the Gemini encoders put adjacent messages of one role into
one turn. Their turns alternate, and their arrays, read one after the other,
are what the messages encode to one by one.
-/

namespace NeuralPlus

open Fallible

section
variable {key : String} {turnOf : Message → Except Exc (Option (String × List JsonValue))}
  {appendHistory : List JsonValue → Message → Except Exc (List JsonValue)}

end

end NeuralPlus
