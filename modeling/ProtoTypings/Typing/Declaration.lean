import ProtoTypings.Typing.Basic
import ProtoTypings.Typing.Field
/-!
# Typing the declarations of a file

Turns descriptors into typed declarations. Messages are typed depth first in
the order of declaration, a message's own fields before the messages inside
it, and services after all messages; imports get their names in this order.

* An enum keeps one member for every number, under the first name declared
  for it.
* The entry types of maps stand after the other messages of their scope:
  first those that a map field of the message uses, in the order of the
  fields, then the others in the order of declaration.
* A service `S` is declared as the interface `SService`.
-/
namespace ProtoTypings

/-- What the declarations of one file share. -/
structure TypingContext where
  settings : Settings
  /-- The path of the file. -/
  file : String
  locations : List Location

namespace TypingContext

def comment (context : TypingContext) (path : List Int32) : Comment :=
  Location.commentAt context.locations path

/-- The name of a declaration in the output. -/
def name (context : TypingContext) (role : Casing.Role) (identifier : String) : String :=
  context.settings.casing.name role identifier

end TypingContext

namespace EnumValue

/-- The values whose number none before them has, `seen` being the numbers
already met. -/
def firstOfNumber (seen : List Int32) : List (EnumValue × Nat) → List (EnumValue × Nat)
  | [] => []
  | (value, index) :: rest =>
    if value.code ∈ seen then firstOfNumber seen rest
    else (value, index) :: firstOfNumber (value.code :: seen) rest

/-- The member for a value at a position of the enum at `path`. -/
def typing (context : TypingContext) (path : List Int32) (value : EnumValue) (index : Nat) :
    Enumerator where
  name := context.name .enumValue value.name
  number := value.code
  comment := context.comment (PathStep.enumValue.child path index)

end EnumValue

def EnumType.typing (context : TypingContext) (outer : String) (path : List Int32)
    (enum : EnumType) : EnumTyping where
  name := context.name .enum enum.name
  fullName := Dotted.join outer enum.name
  leading := (context.comment path).leading
  enumerators := (EnumValue.firstOfNumber [] enum.values.zipIdx).map
    fun (value, index) => value.typing context path index

def EnumType.allTypings (context : TypingContext) (outer : String) (path : List Int32)
    (step : PathStep) (enums : List EnumType) : List EnumTyping :=
  enums.zipIdx.map fun (enum, index) => enum.typing context outer (step.child path index)

/-- The property for a field at a position of the message at `path`, with the
full name of the entry type if the field is a map. -/
def Field.property (context : TypingContext) (message : String) (path : List Int32)
    (field : Field) (index : Nat) : ResolveM (Property × Option String) := do
  let typing ← field.typing context.settings ⟨message, context.file⟩
  let property : Property :=
    { name := context.name .field field.name
      type := typing.type
      comment := context.comment (PathStep.messageField.child path index) }
  pure (property, typing.mapEntry)

namespace MessageTyping

/-- Entry types in their order: those that `used` names, by the first naming,
then the others. -/
def placeEntries (used : List String) (entries : List MessageTyping) : List MessageTyping :=
  used.eraseDups.filterMap (fun name => entries.find? (·.fullName = name)) ++
    entries.filter (·.fullName ∉ used)

end MessageTyping

mutual

def Message.typing (context : TypingContext) (outer : String) (path : List Int32) :
    Message → ResolveM MessageTyping
  | .mk name fields nested enums _ => do
    let fullName := Dotted.join outer name
    let properties ← fields.zipIdx.mapM fun (field, index) =>
      field.property context fullName path index
    let inner ← Message.allTypings context fullName path .messageNested 0 nested
    pure
      { name := context.name .message name
        fullName := fullName
        leading := (context.comment path).leading
        properties := properties.map (·.1)
        enums := EnumType.allTypings context fullName path .messageEnum enums
        nested := (inner.filter (!·.2)).map (·.1)
        mapEntries := MessageTyping.placeEntries (properties.filterMap (·.2))
          ((inner.filter (·.2)).map (·.1)) }

/-- The typings of messages that begin at a position of a list, each with
whether it is a map entry. -/
def Message.allTypings (context : TypingContext) (outer : String) (path : List Int32)
    (step : PathStep) (index : Nat) : List Message → ResolveM (List (MessageTyping × Bool))
  | [] => pure []
  | message :: rest => do
    let typing ← Message.typing context outer (step.child path index) message
    let typings ← Message.allTypings context outer path step (index + 1) rest
    pure ((typing, message.isMapEntry) :: typings)

end

/-- The operation for a method at a position of the service at `path`. -/
def Method.operation (context : TypingContext) (service : String) (path : List Int32)
    (method : Method) (index : Nat) : ResolveM Operation := do
  let type ← method.callType context.settings service
  pure
    { name := context.name .method method.name
      type := type
      comment := context.comment (PathStep.serviceMethod.child path index) }

def Service.typing (context : TypingContext) (package : String) (path : List Int32)
    (service : Service) : ResolveM ServiceTyping := do
  let fullName := Dotted.join package service.name
  let operations ← service.methods.zipIdx.mapM fun (method, index) =>
    method.operation context fullName path index
  pure
    { name := context.name .service service.name ++ "Service"
      fullName := fullName
      leading := (context.comment path).leading
      operations := operations }

def File.typing (settings : Settings) (file : File) : ResolveM FileTyping := do
  let context : TypingContext := ⟨settings, file.path, file.locations⟩
  let package := file.packageName
  let messages ← Message.allTypings context package [] .fileMessage 0 file.messages
  let services ← file.services.zipIdx.mapM fun (service, index) =>
    service.typing context package (PathStep.fileService.child [] index)
  pure
    { enums := EnumType.allTypings context package [] .fileEnum file.enums
      messages := messages.map (·.1)
      services := services }

end ProtoTypings
