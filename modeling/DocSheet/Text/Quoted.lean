import DocSheet.Text.Hexadecimal
import DocSheet.Text.Shapeless

/-!
# Quoted texts in messages

A message quotes a text between double quotes. Quotes and backslashes are escaped,
so are the controls with a letter of their own, and every character without a shape
is shown by its number in hexadecimal.
-/

namespace DocSheet.Text

def quotedChar (c : Char) : List Char :=
  match c with
  | '\x00' => ['\\', '0']
  | '\t' => ['\\', 't']
  | '\r' => ['\\', 'r']
  | '\n' => ['\\', 'n']
  | '\\' => ['\\', '\\']
  | '"' => ['\\', '"']
  | _ =>
    if isShapeless c then byCodePoint c else [c]

def quoted (text : String) : String :=
  String.ofList ('"' :: text.toList.flatMap quotedChar ++ ['"'])

end DocSheet.Text
