import TreeQuery.Json.Token

/-!
# JSON values

A JSON text holds exactly one value. Reading is a machine that takes the tokens one by one: it keeps
the containers that are still open, the innermost first, and what may come next. Containers may nest
127 deep.

The members of an object are kept in order, with repeated names as often as they occur, so that a
reader of the value can have its own rule for them.
-/

namespace TreeQuery

mutual

/-- A JSON value. -/
inductive Json where
  | null
  | bool (value : Bool)
  | number (numeral : Json.Numeral)
  | string (text : String)
  | array (items : List Json)
  | object (members : List Member)

/-- A member of a JSON object. -/
structure Member where
  name : String
  value : Json

end

namespace Json

/-- How deep containers may nest. -/
def maxDepth : Nat := 127

/-- A container that is still open around a value that is due. -/
inductive Open where
  /-- An array with these items before the value, the latest first. -/
  | array (items : List Json)
  /-- An object with these members before the one of this name, the latest first. -/
  | object (members : List Member) (name : String)

/-- What may come next inside the open containers. -/
inductive Reader where
  /-- A value. -/
  | due (outer : List Open)
  /-- The first item of an array, or its end. -/
  | firstItem (outer : List Open)
  /-- A comma behind these items, or the end of the array. -/
  | afterItem (items : List Json) (outer : List Open)
  /-- The first name of an object, or its end. -/
  | firstName (outer : List Open)
  /-- Another name behind these members. -/
  | nextName (members : List Member) (outer : List Open)
  /-- The colon behind a name. -/
  | colon (members : List Member) (name : String) (outer : List Open)
  /-- A comma behind these members, or the end of the object. -/
  | afterMember (members : List Member) (outer : List Open)
  /-- Nothing, for the value is complete. -/
  | done (json : Json)

namespace Reader

/-- The reader behind a complete value. -/
def complete (json : Json) : List Open → Reader
  | [] => .done json
  | .array items :: outer => .afterItem (json :: items) outer
  | .object members name :: outer => .afterMember (⟨name, json⟩ :: members) outer

/-- The reader behind the token that begins a value. -/
def begin (outer : List Open) : Token → Option Reader
  | .null => some (complete .null outer)
  | .bool value => some (complete (.bool value) outer)
  | .numeral numeral => some (complete (.number numeral) outer)
  | .string text => some (complete (.string text) outer)
  | .openArray => if outer.length < maxDepth then some (.firstItem outer) else none
  | .openObject => if outer.length < maxDepth then some (.firstName outer) else none
  | _ => none

/-- The reader behind one more token. -/
def step : Reader → Token → Option Reader
  | .due outer, token => begin outer token
  | .firstItem outer, .closeArray => some (complete (.array []) outer)
  | .firstItem outer, token => begin (.array [] :: outer) token
  | .afterItem items outer, .comma => some (.due (.array items :: outer))
  | .afterItem items outer, .closeArray => some (complete (.array items.reverse) outer)
  | .firstName outer, .closeObject => some (complete (.object []) outer)
  | .firstName outer, .string text => some (.colon [] text outer)
  | .nextName members outer, .string text => some (.colon members text outer)
  | .colon members name outer, .colon => some (.due (.object members name :: outer))
  | .afterMember members outer, .comma => some (.nextName members outer)
  | .afterMember members outer, .closeObject => some (complete (.object members.reverse) outer)
  | _, _ => none

end Reader

/-- The value that a list of tokens writes. -/
def ofTokens? (tokens : List Token) : Option Json :=
  match tokens.foldlM Reader.step (.due []) with
  | some (.done json) => some json
  | _ => none

/-- The value that a text writes. -/
def parse? (text : String) : Option Json := (Token.readAll text.toList).bind ofTokens?

end Json

end TreeQuery
