import TreeQuery.Json.Value
import TreeQuery.Outline

/-!
# Outlines written in JSON

A node is an object with a `type` and the fields of that type, in any order, or an array with the
type first and then the fields in their fixed order. Fields that a type does not have are ignored in
an object. A field that the type has may not be repeated. Attributes and children may be left out,
and then there are none; the other fields are required.

What a JSON value means depends on where it stands: as a type, as a text, as attributes or as
children. A `Field` holds what it would mean in each place. Below the top, a type may also be given
by its number.
-/

namespace TreeQuery

/-- The types of nodes, in the order of their numbers. -/
inductive NodeType where
  | document
  | element
  | text
  | comment

namespace NodeType

/-- The type of a name. -/
def ofName? : String → Option NodeType
  | "document" => some .document
  | "element" => some .element
  | "text" => some .text
  | "comment" => some .comment
  | _ => none

/-- The type of a number. -/
def ofNumber? : Nat → Option NodeType
  | 0 => some .document
  | 1 => some .element
  | 2 => some .text
  | 3 => some .comment
  | _ => none

end NodeType

/-- What a JSON value means in each place where it can stand in a node. -/
structure Field where
  type : Option NodeType
  text : Option String
  attributes : Option Attributes
  children : Option (List Outline)

/-- The attributes of the members of an object, if all of them are texts. -/
def attributesOf (members : List Member) : Option Attributes :=
  (members.mapM fun (member : Member) =>
    match member.value with
    | .string text => some (member.name, text)
    | _ => none).map Attributes.ofList

namespace Outline

/-- The one field of a name: `some none` if there is none, and `none` if it is repeated. -/
def fieldOf (name : String) (fields : List (String × Field)) : Option (Option Field) :=
  match fields.filter fun entry => entry.1 == name with
  | [] => some none
  | [(_, field)] => some (some field)
  | _ => none

/-- What a required field means in its place. -/
def required {α : Type} (meaning : Field → Option α) (field : Option Field) : Option α :=
  field.bind meaning

/-- What a field that may be left out means in its place. -/
def optional {α : Type} (default : α) (meaning : Field → Option α) : Option Field → Option α
  | none => some default
  | some field => meaning field

/-- The node of a type and its fields, each found by its name and its number. -/
def ofType (type : NodeType) (field : String → Nat → Option (Option Field)) : Option Outline :=
  match type with
  | .document => do
    let children ← optional [] Field.children (← field "children" 0)
    some (.document children)
  | .element => do
    let tag ← required Field.text (← field "tagName" 0)
    let attributes ← optional .empty Field.attributes (← field "attributes" 1)
    let children ← optional [] Field.children (← field "children" 2)
    some (.element tag attributes children)
  | .text => do
    let content ← required Field.text (← field "content" 0)
    some (.text content)
  | .comment => do
    let content ← required Field.text (← field "content" 0)
    some (.comment content)

/-- The number of fields of a type. -/
def fieldCount : NodeType → Nat
  | .document => 1
  | .element => 3
  | .text => 1
  | .comment => 1

/-- The node that is written as an object. -/
def ofObject (fields : List (String × Field)) : Option Outline := do
  let type ← required Field.type (← fieldOf "type" fields)
  ofType type fun name _ => fieldOf name fields

/-- The node that is written as an array. -/
def ofArray : List Field → Option Outline
  | [] => none
  | first :: fields => do
    let type ← first.type
    if fields.length ≤ fieldCount type then ofType type fun _ number => some fields[number]?
    else none

end Outline

namespace Json

mutual

/-- The node that a JSON value writes below the top. -/
def decodeNested : Json → Option Outline
  | .array items => Outline.ofArray (decodeFields items)
  | .object members => Outline.ofObject (decodeMembers members)
  | .null => none
  | .bool _ => none
  | .number _ => none
  | .string _ => none
termination_by structural json => json

/-- What a JSON value means in each place. -/
def decodeField : Json → Field
  | .array items => ⟨none, none, none, decodeItems items⟩
  | .object members => ⟨none, none, attributesOf members, none⟩
  | .number numeral => ⟨numeral.word?.bind NodeType.ofNumber?, none, none, none⟩
  | .string text => ⟨NodeType.ofName? text, some text, none, none⟩
  | .null => ⟨none, none, none, none⟩
  | .bool _ => ⟨none, none, none, none⟩
termination_by structural json => json

/-- The nodes that JSON values write, if all of them write one. -/
def decodeItems : List Json → Option (List Outline)
  | [] => some []
  | json :: rest => do
    let outline ← decodeNested json
    let outlines ← decodeItems rest
    some (outline :: outlines)
termination_by structural items => items

/-- What JSON values mean in each place. -/
def decodeFields : List Json → List Field
  | [] => []
  | json :: rest => decodeField json :: decodeFields rest
termination_by structural items => items

/-- What the members of an object mean in each place. -/
def decodeMembers : List Member → List (String × Field)
  | [] => []
  | member :: rest => decodeMember member :: decodeMembers rest
termination_by structural members => members

/-- What a member of an object means in each place. -/
def decodeMember : Member → String × Field
  | ⟨name, value⟩ => (name, decodeField value)
termination_by structural member => member

end

/-- A JSON value whose meaning as a type is that of its text alone. -/
def namesTypes : Json → Bool
  | .number _ => false
  | _ => true

/-- The node that a JSON value writes at the top, where the type has to be named. -/
def decode (json : Json) : Option Outline :=
  match json with
  | .object members =>
    if members.any fun member => member.name == "type" && !namesTypes member.value then none
    else decodeNested json
  | .array (first :: _) => if namesTypes first then decodeNested json else none
  | _ => none

end Json

/-- The outline that a JSON text writes. What is wrong with a text that writes none is left unsaid. -/
def Outline.ofJson : Decoder := fun text =>
  match (Json.parse? text).bind Json.decode with
  | none => .error none
  | some outline => .ok outline

/-- The tree that a JSON text writes. -/
def Tree.parse (text : String) : Except LoadError Tree := Tree.ofText Outline.ofJson text

end TreeQuery
