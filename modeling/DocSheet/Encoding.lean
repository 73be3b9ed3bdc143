import DocSheet.Text.Utf16

/-!
# Encodings of the finished text

UTF-8 is written as it is. UTF-16 is written little-endian behind a byte-order mark,
so a reader can tell the byte order from the first two bytes alone.
-/

namespace DocSheet

inductive Encoding
  | utf16
  | utf8
  deriving DecidableEq, Repr

namespace Encoding

/-- The spelling of an encoding on a command line. -/
def ofName? (name : String) : Option Encoding :=
  if name = "utf16" then some .utf16
  else if name = "utf8" then some .utf8
  else none

/-- The name of an encoding in a log line. -/
def title : Encoding → String
  | utf16 => "Utf16"
  | utf8 => "Utf8"

/-- U+FEFF as two little-endian bytes. -/
def byteOrderMark : List UInt8 := [0xFF, 0xFE]

def littleEndian (unit : Nat) : List UInt8 :=
  [(unit % 0x100).toUInt8, (unit / 0x100).toUInt8]

def encode (text : String) : Encoding → List UInt8
  | utf8 => text.toUTF8.data.toList
  | utf16 => byteOrderMark ++ (text.toList.flatMap Text.Utf16.units).flatMap littleEndian

end Encoding

/-- The text that a list of bytes spells in UTF-8, if it spells one. -/
def readUtf8? (bytes : List UInt8) : Option String :=
  String.fromUTF8? ⟨bytes.toArray⟩

end DocSheet
