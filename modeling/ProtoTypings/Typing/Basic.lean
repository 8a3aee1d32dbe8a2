import ProtoTypings.Descriptor.Comment
import ProtoTypings.Typing.CallType
import ProtoTypings.Typing.ValueType
/-!
# Typed declarations

The declarations of a file with every type worked out and every comment
found, as they go into a declaration file.
-/
namespace ProtoTypings

/-- A property of an interface, from a field. -/
structure Property where
  name : String
  type : ValueType
  comment : Comment := {}
  deriving DecidableEq, Repr, Inhabited

structure Enumerator where
  name : String
  number : Int32
  comment : Comment := {}
  deriving DecidableEq, Repr, Inhabited

/-- A method of a service interface. -/
structure Operation where
  name : String
  type : CallType
  comment : Comment := {}
  deriving DecidableEq, Repr, Inhabited

structure EnumTyping where
  name : String
  fullName : String := ""
  leading : Option String := none
  enumerators : List Enumerator := []
  deriving DecidableEq, Repr, Inhabited

structure ServiceTyping where
  name : String
  fullName : String := ""
  leading : Option String := none
  operations : List Operation := []
  deriving DecidableEq, Repr, Inhabited

structure MessageTyping where
  name : String
  fullName : String := ""
  leading : Option String := none
  properties : List Property := []
  enums : List EnumTyping := []
  /-- The messages inside that are no map entries. -/
  nested : List MessageTyping := []
  /-- The entry types of maps, in the order of the fields that use them. -/
  mapEntries : List MessageTyping := []
  deriving Inhabited

structure FileTyping where
  enums : List EnumTyping := []
  messages : List MessageTyping := []
  services : List ServiceTyping := []
  deriving Inhabited

end ProtoTypings
