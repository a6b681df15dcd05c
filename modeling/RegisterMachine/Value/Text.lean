import RegisterMachine.Number.Shortest
import RegisterMachine.Text.Blank
import RegisterMachine.Text.Quoted
import RegisterMachine.Value.Basic

/-!
# The text of values

How an atom of source text becomes a value, and how a value is written. A symbol is written bare
when it would be scanned and read back as that very symbol, and quoted otherwise. What is written is
not always readable: source text has no escapes, no spelling for a position or an unassigned
register, and takes `inf` for a symbol.
-/

namespace RegisterMachine.Value

/-- Whether an atom begins like a number: behind any signs, and then any points, with a digit. -/
def looksNumeric (atom : String) : Bool :=
  let unsigned := atom.toList.dropWhile fun c => c = '-' || c = '+'
  (unsigned.dropWhile (· = '.')).head?.any Char.isDigit

/-- The value of a bare atom: a truth value, a number if it begins like one and is read as one, else
a symbol. Doubles can be read from words such as `inf` too, which are symbols here. -/
def ofAtom (atom : String) : Value :=
  if atom = "true" then bool true
  else if atom = "false" then bool false
  else if looksNumeric atom then
    match Number.readDouble atom.toList with
    | some n => number n
    | none => symbol atom
  else symbol atom

/-- The value of a setting on the command line. Unlike an atom it may also be a word for an infinite
double or for the one that is no number. -/
def ofSetting (text : String) : Value :=
  if text = "true" then bool true
  else if text = "false" then bool false
  else match Number.readDouble text.toList with
    | some n => number n
    | none => symbol text

/-- A character that ends a bare symbol or stands for something else in source text. -/
def isDelimiter (c : Char) : Bool := c = '(' || c = ')' || c = '"' || c = ';'

/-- Symbols that would not be read back from their bare text. -/
def needsQuotes (s : String) : Bool :=
  s.isEmpty || s.toList.any (fun c => Text.isBlank c || isDelimiter c) || ofAtom s ≠ symbol s

/-- A value as it is printed. -/
def text : Value → String
  | unassigned => "*unassigned*"
  | number n => n.text
  | bool b => if b then "true" else "false"
  | symbol s => if needsQuotes s then Text.quote s else s
  | position k => "#<position " ++ toString k ++ ">"

end RegisterMachine.Value
