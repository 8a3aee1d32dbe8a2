import ProtoTypings.Descriptor.Basic
import ProtoTypings.Reference.Basic
import ProtoTypings.Settings
/-!
# Types of calls

The type that a method of a service has in a declaration file. Every response
comes in the same envelope, whichever side streams. A stream is either an
iterator, or a producer on the side of the client and a callback on that of the
server.
-/
namespace ProtoTypings

/-- Which sides of a call are streams. -/
inductive Streaming where
  | unary
  | server
  | client
  | bidirectional
  deriving DecidableEq, Repr, Inhabited

namespace Streaming

def ofFlags : (client server : Bool) → Streaming
  | false, false => unary
  | false, true => server
  | true, false => client
  | true, true => bidirectional

def fromClient : Streaming → Bool
  | client | bidirectional => true
  | unary | server => false

def fromServer : Streaming → Bool
  | server | bidirectional => true
  | unary | client => false

end Streaming

structure CallType where
  streaming : Streaming
  /-- The path of the request type. -/
  input : String
  /-- The path of the response type. -/
  output : String
  /-- Whether streams are iterators. -/
  asyncIterators : Bool := false
  deriving DecidableEq, Repr, Inhabited

namespace CallType

/-- What holds a response. -/
def envelope (call : CallType) : String :=
  "\x7b response: " ++ call.output ++ ", code: number, message: string, detail: any \x7d"

/-- An iterator over values of a type, where one is wanted. -/
def iterated (isStream : Bool) (type : String) : String :=
  if isStream then "AsyncIterator<" ++ type ++ ">" else type

/-- One step of a stream: a value, and whether it was the last. -/
def step (type : String) : String :=
  "\x7bvalue: " ++ type ++ ", done: boolean\x7d"

/-- The request parameter without iterators. -/
def request (call : CallType) : String :=
  if call.streaming.fromClient then "r:() => " ++ step call.input else "r:" ++ call.input

/-- The parameters and the result without iterators. -/
def callback (call : CallType) : String :=
  if call.streaming.fromServer then
    "(" ++ call.request ++ ", cb:(a:" ++ step call.envelope ++ ") => void) => void"
  else "(" ++ call.request ++ ") => " ++ call.envelope

/-- The parameters and the result with iterators. -/
def iterator (call : CallType) : String :=
  "(r:" ++ iterated call.streaming.fromClient call.input ++ ") => " ++
    iterated call.streaming.fromServer call.envelope

def text (call : CallType) : String :=
  if call.asyncIterators then call.iterator else call.callback

end CallType

/-- The type of a method of the service with the full name `service`. Its types
are looked up in the scope that holds the service, the request first. -/
def Method.callType (settings : Settings) (service : String) (method : Method) :
    ResolveM CallType := do
  let context := "method " ++ service ++ "." ++ method.name
  let scope := Dotted.parent service
  let input ← ResolveM.path method.input scope context
  let output ← ResolveM.path method.output scope context
  pure
    { streaming := .ofFlags method.clientStreaming method.serverStreaming
      input := input
      output := output
      asyncIterators := settings.asyncIterators }

end ProtoTypings
