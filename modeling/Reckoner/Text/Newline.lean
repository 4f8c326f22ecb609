/-!
# Newlines of a file

In a file a line may end with a newline, with a return, or with a return and a newline.
Each of these is read as one newline.
-/

namespace Reckoner.Text

/-- Makes every line end a single newline. -/
def foldNewlines : List Char → List Char
  | [] => []
  | '\r' :: '\n' :: rest => '\n' :: foldNewlines rest
  | '\r' :: rest => '\n' :: foldNewlines rest
  | c :: rest => c :: foldNewlines rest

/-- The text of a file, if its bytes are well-formed UTF-8; a byte-order mark is kept. -/
def ofBytes? (bytes : ByteArray) : Option String :=
  (String.fromUTF8? bytes).map fun s => String.ofList (foldNewlines s.toList)

end Reckoner.Text
