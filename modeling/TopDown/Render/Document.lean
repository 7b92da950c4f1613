import TopDown.Text.Hex

/-!
# JSON documents

A document is written in printable ASCII: every other character of a text is escaped, by a letter or
by its UTF-16 units. On one line, items are separated by a comma and a space. Spread over lines, each
item stands on a line of its own, indented by its level; a negative indent is none.
-/

namespace TopDown

inductive Document where
  | null
  | bool (value : Bool)
  | number (value : Nat)
  | text (value : String)
  | list (items : List Document)
  | record (fields : List (String × Document))

namespace Document

/-- The UTF-16 code units of a character. -/
def units (c : Char) : List Nat :=
  if c.toNat < 0x10000 then [c.toNat]
  else [0xD800 + (c.toNat - 0x10000) / 0x400, 0xDC00 + (c.toNat - 0x10000) % 0x400]

/-- How a character is written in a text. -/
def escape (c : Char) : List Char :=
  if c = '"' ∨ c = '\\' then ['\\', c]
  else if c = '\n' then ['\\', 'n']
  else if c = '\r' then ['\\', 'r']
  else if c = '\t' then ['\\', 't']
  else if c = '\x0c' then ['\\', 'f']
  else if c = '\x08' then ['\\', 'b']
  else if 0x20 ≤ c.toNat ∧ c.toNat ≤ 0x7E then [c]
  else (units c).flatMap fun unit => '\\' :: 'u' :: Text.hex 4 unit

def quote (text : String) : List Char :=
  '"' :: text.toList.flatMap escape ++ ['"']

/-- How a document is laid out. -/
inductive Layout where
  | oneLine
  | spread (indent : Int)
  deriving DecidableEq, Inhabited

/-- The start of a line at the given level. -/
def Layout.newLine : Layout → (level : Nat) → List Char
  | oneLine, _ => []
  | spread indent, level => '\n' :: List.replicate (indent.toNat * level) ' '

/-- What stands between two items at the given level. -/
def Layout.separator (layout : Layout) (level : Nat) : List Char :=
  match layout with
  | oneLine => [',', ' ']
  | spread _ => ',' :: layout.newLine level

/-- Items between brackets, the brackets at the given level. -/
def Layout.enclose (layout : Layout) (level : Nat) (opening closing : Char) :
    List (List Char) → List Char
  | [] => [opening, closing]
  | items =>
    opening :: layout.newLine (level + 1)
      ++ (layout.separator (level + 1)).intercalate items
      ++ layout.newLine level ++ [closing]

mutual
/-- The text of a document whose brackets stand at the given level. -/
def write (layout : Layout) (level : Nat) : Document → List Char
  | .null => "null".toList
  | .bool true => "true".toList
  | .bool false => "false".toList
  | .number n => (toString n).toList
  | .text s => quote s
  | .list items => layout.enclose level '[' ']' (writeItems layout (level + 1) items)
  | .record fields => layout.enclose level '\x7b' '\x7d' (writeFields layout (level + 1) fields)
def writeItems (layout : Layout) (level : Nat) : List Document → List (List Char)
  | [] => []
  | item :: rest => write layout level item :: writeItems layout level rest
def writeFields (layout : Layout) (level : Nat) : List (String × Document) → List (List Char)
  | [] => []
  | (key, value) :: rest =>
    (quote key ++ ':' :: ' ' :: write layout level value) :: writeFields layout level rest
end

end Document

end TopDown
