import NeuralPlus.OrdMap
import NeuralPlus.Lts
import NeuralPlus.Loop
import NeuralPlus.Locked
import NeuralPlus.Leased
import NeuralPlus.Fallible
import NeuralPlus.History
import NeuralPlus.Lines
import NeuralPlus.Fields
import NeuralPlus.Sortable
import NeuralPlus.WaitFor
import NeuralPlus.Replace
import NeuralPlus.Keyed
import NeuralPlus.Emission
import NeuralPlus.Json
import NeuralPlus.JsonTree
import NeuralPlus.Types
import NeuralPlus.Session
import NeuralPlus.SessionSound
import NeuralPlus.SessionState
import NeuralPlus.Schema
import NeuralPlus.SchemaSound
import NeuralPlus.SchemaErrors
import NeuralPlus.Trace
import NeuralPlus.Client
import NeuralPlus.ExecTools
import NeuralPlus.ExecSound
import NeuralPlus.Generate
import NeuralPlus.GenerateSound
import NeuralPlus.RunSound
import NeuralPlus.ToolOrder
import NeuralPlus.Accepted
import NeuralPlus.SharedSession
import NeuralPlus.UsageSound
import NeuralPlus.TraceSound
import NeuralPlus.TraceTally
import NeuralPlus.TracePrivacy
import NeuralPlus.Nesting
import NeuralPlus.NestingSound
import NeuralPlus.Common
import NeuralPlus.Base64Sound
import NeuralPlus.Transport
import NeuralPlus.TransportSound
import NeuralPlus.LoopbackSound
import NeuralPlus.HeaderLines
import NeuralPlus.FileTracer
import NeuralPlus.TraceLines
import NeuralPlus.SharedTrace
import NeuralPlus.HumanLine
import NeuralPlus.Timestamp
import NeuralPlus.RedactSound
import NeuralPlus.RedactJson
import NeuralPlus.OpenAI
import NeuralPlus.Anthropic
import NeuralPlus.Gemini
import NeuralPlus.Compatible
import NeuralPlus.Precedence
import NeuralPlus.Providers
import NeuralPlus.Turns
import NeuralPlus.Origins
import NeuralPlus.TurnHistory
import NeuralPlus.MergeSound
import NeuralPlus.ReplaySound
import NeuralPlus.Transcript
import NeuralPlus.AnthropicSound
import NeuralPlus.AnthropicUsage
import NeuralPlus.ParsedItems
import NeuralPlus.NormalizeSound
import NeuralPlus.ParserSound
import NeuralPlus.EncodeSound
import NeuralPlus.GeminiSound
import NeuralPlus.CompatibleSound
import NeuralPlus.Handoff
import NeuralPlus.AppendOnly
import NeuralPlus.OpenAISound
import NeuralPlus.MixedSessions
import NeuralPlus.Restored
import NeuralPlus.Reread
import NeuralPlus.RequestErrors
import NeuralPlus.Exposure
import NeuralPlus.ExposureSound
import NeuralPlus.Credentials
import NeuralPlus.SyntheticIds
import NeuralPlus.HeaderWrites
