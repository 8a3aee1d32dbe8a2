import ProtoTypings.Dotted
import ProtoTypings.Fault
import ProtoTypings.Typing.Basic
/-!
# Outline of a declaration file

The declarations of a file arranged in scopes. A message is an interface; if
it declares types of its own, a scope of the same name follows right after the
interface and holds them. Within a scope enums come first, then messages, and
at the top level services last.

Names must be unique in every scope, but for an interface and its own scope.
-/
namespace ProtoTypings

inductive Item where
  /-- The interface of a message. -/
  | interface (name : String) (leading : Option String) (properties : List Property)
  | enumeration (typing : EnumTyping)
  /-- The interface of a service. -/
  | service (typing : ServiceTyping)
  /-- A scope that holds the types of a message. -/
  | scope (name : String) (items : List Item)
  deriving Inhabited

namespace Item

def name : Item → String
  | interface name _ _ => name
  | enumeration typing => typing.name
  | service typing => typing.name
  | scope name _ => name

/-- Whether an item may follow an item of the same name: a scope may follow an
interface. -/
def extendsItem : Item → Item → Bool
  | scope _ _, interface _ _ _ => true
  | _, _ => false

/-- Whether an item repeats a name of `before`, the items before it with the
last one first. -/
def clashes (before : List Item) (item : Item) : Bool :=
  match before.find? (·.name = item.name) with
  | some previous => !item.extendsItem previous
  | none => false

mutual

/-- The first name that is declared twice inside an item of the scope `path`. -/
def innerClash? (path : String) : Item → Option String
  | scope name items => firstClash? (Dotted.join path name) [] items
  | interface .. | enumeration _ | service _ => none

/-- The first name that is declared twice in the scope `path` or in a scope
inside it, `before` being the items already met with the last one first. -/
def firstClash? (path : String) (before : List Item) : List Item → Option String
  | [] => none
  | item :: rest =>
    if item.clashes before then some (Dotted.join path item.name)
    else
      match innerClash? path item with
      | some name => some name
      | none => firstClash? path (item :: before) rest

end

end Item

/-- The items for a message without the types inside it, given its scope's
items: no scope is made for none. -/
def MessageTyping.withScope (name : String) (leading : Option String)
    (properties : List Property) (items : List Item) : List Item :=
  .interface name leading properties ::
    match items with
    | [] => []
    | first :: rest => [.scope name (first :: rest)]

mutual

def MessageTyping.items : MessageTyping → List Item
  | .mk name _ leading properties enums nested mapEntries =>
    MessageTyping.withScope name leading properties
      (enums.map .enumeration ++ MessageTyping.allItems nested ++
        MessageTyping.allItems mapEntries)

def MessageTyping.allItems : List MessageTyping → List Item
  | [] => []
  | message :: rest => MessageTyping.items message ++ MessageTyping.allItems rest

end

def FileTyping.items (file : FileTyping) : List Item :=
  file.enums.map .enumeration ++ MessageTyping.allItems file.messages ++
    file.services.map .service

/-- The declarations of a file, under the segments of its package. -/
structure Outline where
  package : List String := []
  items : List Item := []
  deriving Inhabited

namespace Outline

def packageName (outline : Outline) : String :=
  ".".intercalate outline.package

/-- The outline of a file, if no name is declared twice in a scope. -/
def ofTyping (package file : String) (typing : FileTyping) : Except Fault Outline :=
  match Item.firstClash? package [] typing.items with
  | some path => .error (.packageConflict path file)
  | none => .ok { package := Text.splitNonempty '.' package, items := typing.items }

end Outline
end ProtoTypings
