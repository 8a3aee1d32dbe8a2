import ProtoTypings.Outline.Basic
import ProtoTypings.Reference.Import
import ProtoTypings.Settings
import ProtoTypings.Text.Blank
/-!
# Text of a declaration file

A declaration file is a list of lines, each at a depth of indentation: a
header, the imports, and the items of the outline inside their package.

* Imports that no reference goes through are written as comments.
* A leading comment stands above its declaration, line for line as it is.
* The first line of a trailing comment follows its declaration on the same
  line and the others stand below; they are trimmed, and empty ones are left
  out.
-/
namespace ProtoTypings

inductive Line where
  | blank
  | written (depth : Nat) (text : String)
  deriving DecidableEq, Repr, Inhabited

namespace Line

/-- The text of a line with its newline; a blank line is not indented. -/
def render (indent : String) : Line → String
  | blank => "\n"
  | written depth text => String.join (List.replicate depth indent) ++ text ++ "\n"

def renderAll (indent : String) (lines : List Line) : String :=
  String.join (lines.map (render indent))

/-- Lines between an opening line and a closing brace. -/
def block (depth : Nat) (opening : String) (inside : List Line) : List Line :=
  written depth (opening ++ " \x7b") :: inside ++ [written depth "\x7d"]

end Line

namespace Comment

/-- The lines of a leading comment. A newline at the end ends the last line. -/
def leadingLines (leading : Option String) : List String :=
  match leading with
  | some text => (Text.split '\n' (Text.dropEnding "\n" text)).map ("//" ++ ·)
  | none => []

/-- The lines of a trailing comment that hold anything. -/
def trailingLines (trailing : Option String) : List String :=
  match trailing with
  | some text => ((Text.split '\n' text).map Text.trim).filter (· ≠ "")
  | none => []

/-- The text of a declaration followed by a trailing comment. -/
def followedBy (text : String) (trailing : Option String) : List String :=
  match trailingLines trailing with
  | [] => [text]
  | first :: rest => (text ++ " // " ++ first) :: rest.map ("// " ++ ·)

/-- The text of a declaration with its comments. -/
def around (comment : Comment) (text : String) : List String :=
  leadingLines comment.leading ++ followedBy text comment.trailing

end Comment

def Property.lines (property : Property) : List String :=
  property.comment.around (property.name ++ "?: " ++ property.type.text ++ ";")

def Enumerator.text (style : EnumStyle) (e : Enumerator) : String :=
  match style with
  | .numeric => e.name ++ " = " ++ toString e.number.toInt ++ ","
  | .text => e.name ++ " = \"" ++ e.name ++ "\","

def Enumerator.lines (style : EnumStyle) (e : Enumerator) : List String :=
  e.comment.around (e.text style)

def Operation.lines (operation : Operation) : List String :=
  operation.comment.around (operation.name ++ ": " ++ operation.type.text ++ ";")

/-- How a declaration is made known. -/
inductive Modifier where
  | declared
  | exported
  deriving DecidableEq, Repr, Inhabited

/-- The word in front of a declaration. -/
def Modifier.keyword : Modifier → String
  | declared => "declare"
  | exported => "export"

namespace Item

/-- The lines of a declaration with members: its leading comment, then a block
of the members' lines. -/
def membersBlock (depth : Nat) (leading : Option String) (opening : String)
    (members : List String) : List Line :=
  (Comment.leadingLines leading).map (.written depth) ++
    Line.block depth opening (members.map (.written (depth + 1)))

mutual

/-- The lines of an item. A blank line follows message interfaces and scopes. -/
def lines (settings : Settings) (depth : Nat) (modifier : Modifier) : Item → List Line
  | interface name leading properties =>
    membersBlock depth leading (modifier.keyword ++ " interface " ++ name)
      (properties.flatMap Property.lines) ++ [.blank]
  | enumeration typing =>
    membersBlock depth typing.leading (modifier.keyword ++ " enum " ++ typing.name)
      (typing.enumerators.flatMap (Enumerator.lines settings.enumStyle))
  | service typing =>
    membersBlock depth typing.leading (modifier.keyword ++ " interface " ++ typing.name)
      (typing.operations.flatMap Operation.lines)
  | scope name items =>
    Line.block depth (modifier.keyword ++ " namespace " ++ name)
      (allLines settings (depth + 1) .exported items) ++ [.blank]

def allLines (settings : Settings) (depth : Nat) (modifier : Modifier) : List Item → List Line
  | [] => []
  | item :: rest => lines settings depth modifier item ++ allLines settings depth modifier rest

end

end Item

def Import.line (i : Import) : Line :=
  let statement := "import * as " ++ i.name ++ " from \"" ++ i.specifier ++ "\""
  .written 0 (if i.used then statement else "// " ++ statement ++ " // imported but not used")

/-- The lines of the imports, set off by a blank line. -/
def Import.allLines (imports : List Import) : List Line :=
  if imports.isEmpty then [] else imports.map Import.line ++ [.blank]

/-- The lines of an outline: its items alone, or inside their package. -/
def Outline.lines (settings : Settings) (outline : Outline) : List Line :=
  if outline.package.isEmpty then Item.allLines settings 0 .declared outline.items
  else
    let modifier : Modifier := if settings.declareNamespace then .declared else .exported
    Line.block 0 (modifier.keyword ++ " namespace " ++ outline.packageName)
      (.blank :: Item.allLines settings 1 .exported outline.items)

structure Typings where
  imports : List Import := []
  outline : Outline := {}
  deriving Inhabited

namespace Typings

/-- The first line of every declaration file. -/
def header : String :=
  "// Code generated by protoc-gen-tsdecl. DO NOT EDIT."

def lines (settings : Settings) (typings : Typings) : List Line :=
  [.written 0 header, .blank] ++ Import.allLines typings.imports ++ typings.outline.lines settings

def render (settings : Settings) (typings : Typings) : String :=
  Line.renderAll settings.indent (typings.lines settings)

end Typings
end ProtoTypings
