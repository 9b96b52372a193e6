import PageScript.Json.Value

/-!
# Writing JSON

`Value.chars` writes a value in one of two layouts: `compact`, without any space, or `indented`,
where every item and member stands on a line of its own, two spaces further in than its
container, and an empty container stays on one line.

In a string only the quote, the backslash and the characters below the space are escaped, with
the short forms where there is one.
-/

namespace PageScript.Json

inductive Layout where
  | compact
  | indented (depth : Nat)

namespace Layout

def deeper : Layout → Layout
  | .compact => .compact
  | .indented n => .indented (n + 1)

/-- What stands between a container's bracket or comma and the next item. -/
def newline : Layout → List Char
  | .compact => []
  | .indented n => '\n' :: List.replicate (2 * n) ' '

/-- What stands between a key and its value. -/
def colon : Layout → List Char
  | .compact => [':']
  | .indented _ => [':', ' ']

end Layout

namespace Text

def escape (c : Char) : List Char :=
  match c with
  | '"' => ['\\', '"']
  | '\\' => ['\\', '\\']
  | '\n' => ['\\', 'n']
  | '\r' => ['\\', 'r']
  | '\t' => ['\\', 't']
  | '\x08' => ['\\', 'b']
  | '\x0c' => ['\\', 'f']
  | c =>
    if c.toNat < 32 then
      ['\\', 'u', '0', '0', Numeral.hexDigit (c.toNat / 16), Numeral.hexDigit (c.toNat % 16)]
    else [c]

def quote (s : String) : List Char :=
  '"' :: s.toList.flatMap escape ++ ['"']

end Text

namespace Value

mutual

def chars (lay : Layout) : Value → List Char
  | .null => ['n', 'u', 'l', 'l']
  | .bool true => ['t', 'r', 'u', 'e']
  | .bool false => ['f', 'a', 'l', 's', 'e']
  | .number n => n.chars
  | .string s => Text.quote s
  | .array [] => ['[', ']']
  | .array (v :: rest) =>
    '[' :: lay.deeper.newline ++ (v.chars lay.deeper ++ itemsChars lay.deeper rest) ++
      lay.newline ++ [']']
  | .object [] => ['{', '}']
  | .object ((k, v) :: rest) =>
    '{' :: lay.deeper.newline ++
      (Text.quote k ++ lay.colon ++ v.chars lay.deeper ++ membersChars lay.deeper rest) ++
      lay.newline ++ ['}']

/-- The items after the first, each with the comma before it. -/
def itemsChars (lay : Layout) : List Value → List Char
  | [] => []
  | v :: rest => ',' :: lay.newline ++ (v.chars lay ++ itemsChars lay rest)

def membersChars (lay : Layout) : List (String × Value) → List Char
  | [] => []
  | (k, v) :: rest =>
    ',' :: lay.newline ++ (Text.quote k ++ lay.colon ++ v.chars lay ++ membersChars lay rest)

end

def compact (v : Value) : String :=
  String.ofList (v.chars .compact)

def indented (v : Value) : String :=
  String.ofList (v.chars (.indented 0))

end Value

end PageScript.Json
