import CaveMap.Text.CodePage
import CaveMap.Text.Letter
import CaveMap.Text.Split
import CaveMap.Text.Utf16
import CaveMap.Text.Utf8

namespace CaveMap.Text

inductive Encoding
  | utf8
  /-- UTF-8 with a byte order mark in front. -/
  | markedUtf8
  | utf16 (order : ByteOrder)
  /-- UTF-16 with a byte order mark in front, which tells the order; little-endian when written. -/
  | markedUtf16
  | bytewise (page : CodePage)
  deriving DecidableEq

namespace Encoding

def all : List (Encoding × List String) :=
  [(utf8, ["utf_8", "utf8", "utf", "u8", "cp65001", "utf8_ucs2", "utf8_ucs4"]),
   (markedUtf8, ["utf_8_sig"]),
   (markedUtf16, ["utf_16", "utf16", "u16"]),
   (utf16 .little, ["utf_16_le", "utf_16le", "unicodelittleunmarked"]),
   (utf16 .big, ["utf_16_be", "utf_16be", "unicodebigunmarked"]),
   (bytewise .ascii,
    ["ascii", "us_ascii", "us", "646", "iso646_us", "cp367", "ibm367", "csascii", "iso_ir_6",
     "ansi_x3_4_1968", "ansi_x3.4_1968", "ansi_x3.4_1986", "iso_646.irv_1991"]),
   (bytewise .latin1,
    ["latin_1", "latin1", "latin", "l1", "iso_8859_1", "iso8859_1", "iso8859", "8859", "cp819", "ibm819",
     "csisolatin1", "iso_ir_100", "iso_8859_1_1987"]),
   (bytewise .latin2,
    ["iso8859_2", "iso_8859_2", "latin2", "l2", "csisolatin2", "iso_ir_101", "iso_8859_2_1987"]),
   (bytewise .windows1250, ["cp1250", "1250", "windows_1250"]),
   (bytewise .windows1252, ["cp1252", "1252", "windows_1252"])]

def plainName (name : String) : String :=
  let separates (c : Char) : Bool := !(c.isAlphanum || c = '.')
  String.intercalate "_" ((pieces separates (lower name.toList)).map String.ofList)

def ofName? (name : String) : Option Encoding :=
  (all.find? (·.2.contains (plainName name))).map (·.1)

def byteOrderMark : Char := '\uFEFF'

def unmarked : List Char → List Char
  | [] => []
  | c :: rest => if c = byteOrderMark then rest else c :: rest

def encode? : Encoding → List Char → Option (List UInt8)
  | utf8, text => some (Text.utf8 text)
  | markedUtf8, text => some (Text.utf8 (byteOrderMark :: text))
  | utf16 order, text => some (Text.utf16 order text)
  | markedUtf16, text => some (Text.utf16 .little (byteOrderMark :: text))
  | bytewise page, text => page.encode? text

def replacement : Char := '\uFFFD'

def replaced (chars : List (Option Char)) : List Char := chars.map (·.getD replacement)

/-- A mark tells the byte order. Without one there is no text, unless the bytes are too few for a mark. -/
def decodeMarkedUtf16? : List UInt8 → Option (List (Option Char))
  | 0xFF :: 0xFE :: rest => some (decodeUtf16 .little rest)
  | 0xFE :: 0xFF :: rest => some (decodeUtf16 .big rest)
  | [] => some []
  | [_] => some [none]
  | _ => none

/-- The text of bytes, with a replacement character for what is malformed. -/
def decode? : Encoding → List UInt8 → Option (List Char)
  | utf8, bytes => some (replaced (decodeUtf8 bytes))
  | markedUtf8, bytes => some (unmarked (replaced (decodeUtf8 bytes)))
  | utf16 order, bytes => some (replaced (decodeUtf16 order bytes))
  | markedUtf16, bytes => (decodeMarkedUtf16? bytes).map replaced
  | bytewise page, bytes => some (replaced (page.decode bytes))

end Encoding

end CaveMap.Text
