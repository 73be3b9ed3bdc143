/-!
# Errors of markup reading

Each cause is a constructor; `Error.message` holds the wording. Positions count bytes
of the tag or text that the error is in.
-/

namespace DocSheet.Markup

/-- A construct that a text opens and does not close. -/
inductive Construct
  | tag
  | comment
  | cdata
  | doctype
  | instruction
  deriving DecidableEq, Repr

/-- What is wrong with a reference to a character by its number. -/
inductive ReferenceFault
  | sign
  | empty
  | invalidDigit
  | tooLarge
  | zero
  | noCharacter (code : Nat)
  deriving DecidableEq, Repr

inductive Error
  | unclosed (construct : Construct)
  | unknownMarkup
  | namelessDoctype
  | wrongClosing (expected found : String)
  | strayClosing (found : String)
  | missingEquals (position : Nat)
  | missingValue (position : Nat)
  | unquotedValue (position : Nat)
  | missingQuote (position : Nat) (quote : Char)
  | unterminatedEntity (first last : Nat)
  | unknownEntity (first last : Nat) (name : String)
  | badReference (fault : ReferenceFault)
  deriving DecidableEq, Repr

namespace Construct

def message : Construct → String
  | tag => "tag not closed: `>` not found before end of input"
  | comment => "comment not closed: `-->` not found before end of input"
  | cdata => "CDATA not closed: `]]>` not found before end of input"
  | doctype => "DOCTYPE not closed: `>` not found before end of input"
  | instruction =>
    "processing instruction or xml declaration not closed: `?>` not found before end of input"

end Construct

namespace ReferenceFault

def message : ReferenceFault → String
  | sign => "unexpected number sign"
  | empty => "cannot parse integer from empty string"
  | invalidDigit => "invalid digit found in string"
  | tooLarge => "number too large to fit in target type"
  | zero => "0x0 character is not permitted in XML"
  | noCharacter code => "`" ++ toString code ++ "` is not a valid codepoint"

end ReferenceFault

namespace Error

def closingTag (name : String) : String :=
  "`</" ++ name ++ ">`"

def inAttribute (position : Nat) (problem : String) : String :=
  "error while parsing attribute: position " ++ toString position ++ ": " ++ problem

def range (first last : Nat) : String :=
  toString first ++ ".." ++ toString last

def message : Error → String
  | unclosed construct => "syntax error: " ++ construct.message
  | unknownMarkup => "syntax error: unknown or missed symbol in markup"
  | namelessDoctype =>
    "ill-formed document: `<!DOCTYPE>` declaration does not contain a name of a document type"
  | wrongClosing expected found =>
    "ill-formed document: expected " ++ closingTag expected ++ ", but " ++ closingTag found ++
      " was found"
  | strayClosing found =>
    "ill-formed document: close tag " ++ closingTag found ++ " does not match any open tag"
  | missingEquals position =>
    inAttribute position "attribute key must be directly followed by `=` or space"
  | missingValue position =>
    inAttribute position "`=` must be followed by an attribute value"
  | unquotedValue position =>
    inAttribute position "attribute value must be enclosed in `\"` or `'`"
  | missingQuote position quote =>
    inAttribute position ("missing closing quote `" ++ String.singleton quote ++
      "` in attribute value")
  | unterminatedEntity first last =>
    "Error while escaping character at range " ++ range first last ++
      ": Cannot find ';' after '&'"
  | unknownEntity first last name =>
    "at " ++ range first last ++ ": unrecognized entity `" ++ name ++ "`"
  | badReference fault => "invalid character reference: " ++ fault.message

end Error

end DocSheet.Markup
