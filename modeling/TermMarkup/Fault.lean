/-
  TermMarkup.Fault
  ────────────────
  WHAT CAN GO WRONG.  A fault is a CAUSE with the data that its message shows;
  the wording stands in one function, `Fault.message`, and `Fault.kind` sorts
  the causes for callers that handle some of them.
-/
import TermMarkup.Text.Quoted
import TermMarkup.Utf8

namespace TermMarkup

/-! ## §1. Causes. -/

/-- Why an operation failed. -/
inductive Fault where
  /-- A tag that another brace or the end of the text cuts off. -/
  | unterminatedTag (source : Text)
  /-- A style word that is no attribute, role or color. -/
  | unknownStyle (word tag : Text)
  /-- A style word that has the form of a color but denotes none. -/
  | unusableColor (word tag : Text) (cause : Fault)
  /-- A text that is no integer. -/
  | notInteger (literal : Text)
  /-- An integer with more digits than are read. -/
  | integerTooLong (digits : Nat)
  /-- A color that no form of color covers. -/
  | unknownColor (spec : Text)
  /-- A background color without its mark. -/
  | notBackground (spec : Text)
  /-- A color triple with malformed components. -/
  | notTriple (spec : Text)
  /-- A color triple with a component above 255. -/
  | componentOutOfRange (spec : Text)
  /-- A color component beyond every finite number. -/
  | infiniteComponent
  /-- A name that is none of the basic colors. -/
  | noBasicColor (name : Text)
  /-- A number of copies that no machine word holds. -/
  | countTooLarge
  /-- A text that no memory holds. -/
  | outOfMemory
  /-- Literal text where a style token is needed. -/
  | literalApplied
  /-- A theme with roles that do not exist. -/
  | unknownRoles (names : List Text)
  /-- A theme role with something other than text for its style. -/
  | styleNotText (role : Text)
  /-- A theme file that is not JSON, with what the reader of JSON says. -/
  | themeMalformed (path complaint : Text)
  /-- A theme file that holds some other JSON value than an object. -/
  | themeNotObject (path : Text)
  /-- A JSON array inside too many arrays and objects. -/
  | arrayTooDeep
  /-- A JSON object inside too many arrays and objects. -/
  | objectTooDeep
  /-- A null character in a path or a setting, where no system takes one. -/
  | nullCharacter
  | fileMissing (path : Text)
  | fileIsDirectory (path : Text)
  | notDirectory (path : Text)
  /-- A path with more bytes than the system takes, or with such a name. -/
  | pathTooLong (path : Text)
  /-- A path that the system refuses to follow or to read for another reason, in the system's
  words. -/
  | refusedBySystem (words : Text)
  /-- A file that is not UTF-8. -/
  | notUtf8 (fault : Utf8.Fault)
  deriving DecidableEq, Repr

/-- The classes of causes that callers tell apart. -/
inductive Fault.Kind where
  | markup
  | value
  | overflow
  | memory
  | lookup
  | type
  | encoding
  | depth
  | missingFile
  | directory
  | notDirectory
  | longPath
  | system
  deriving DecidableEq, Repr

/-- The class of a cause. -/
def Fault.kind : Fault → Fault.Kind
  | unterminatedTag _ | unknownStyle _ _ | unusableColor _ _ _ => .markup
  | notInteger _ | integerTooLong _ | unknownColor _ | notBackground _ | notTriple _
  | componentOutOfRange _ | unknownRoles _ | styleNotText _ | themeMalformed _ _
  | themeNotObject _ | nullCharacter => .value
  | infiniteComponent | countTooLarge => .overflow
  | outOfMemory => .memory
  | noBasicColor _ => .lookup
  | literalApplied => .type
  | notUtf8 _ => .encoding
  | arrayTooDeep | objectTooDeep => .depth
  | fileMissing _ => .missingFile
  | fileIsDirectory _ => .directory
  | notDirectory _ => .notDirectory
  | pathTooLong _ => .longPath
  | refusedBySystem _ => .system

/-- The tag that a markup fault points at. -/
def Fault.tag? : Fault → Option Text
  | unterminatedTag source => some source
  | unknownStyle _ tag | unusableColor _ tag _ => some tag
  | _ => none

/-! ## §2. Wording. -/

/-- The words for a malformed sequence. -/
def Utf8.Reason.message : Utf8.Reason → Text
  | .badStart => "invalid start byte".toList
  | .badContinuation => "invalid continuation byte".toList
  | .cutShort => "unexpected end of data".toList

/-- Where a malformed sequence stands: one byte by its value, several by their range. -/
def Utf8.Fault.message (f : Utf8.Fault) : Text :=
  "'utf-8' codec can't decode ".toList
    ++ (if f.size ≤ 1 then
          "byte 0x".toList ++ Hexadecimal.write 2 f.firstByte ++ " in position ".toList
            ++ digitsOf f.offset
        else
          "bytes in position ".toList ++ digitsOf f.offset ++ "-".toList
            ++ digitsOf (f.offset + f.size - 1))
    ++ ": ".toList ++ f.reason.message

/-- How much of a quoted text the message about a bad integer shows. -/
def shownLiteral : Nat := 200

/-- The message about a JSON value of some kind inside too many others. -/
def tooDeepMessage (container : Text) : Text :=
  "maximum recursion depth exceeded while decoding a JSON ".toList ++ container
    ++ " from a unicode string".toList

/-- The message of a fault. -/
def Fault.message : Fault → Text
  | unterminatedTag source => "Unterminated markup tag ".toList ++ source.quoted
  | unknownStyle word tag =>
    "Unknown style ".toList ++ word.quoted ++ " in tag ".toList ++ tag.quoted
  | unusableColor word tag cause =>
    "Invalid color ".toList ++ word.quoted ++ " in tag ".toList ++ tag.quoted ++ ": ".toList
      ++ cause.message
  | notInteger literal =>
    "invalid literal for int() with base 10: ".toList ++ literal.quoted.take shownLiteral
  | integerTooLong digits =>
    "Exceeds the limit (4300 digits) for integer string conversion: value has ".toList
      ++ digitsOf digits
      ++ " digits; use sys.set_int_max_str_digits() to increase the limit".toList
  | unknownColor spec => "Unknown color: ".toList ++ spec.quoted
  | notBackground spec => "Background color must start with 'on_': ".toList ++ spec.quoted
  | notTriple spec => "Invalid RGB color: ".toList ++ spec.quoted
  | componentOutOfRange spec => "RGB components out of range in ".toList ++ spec.quoted
  | infiniteComponent => "cannot convert float infinity to integer".toList
  | noBasicColor name => name.quoted
  | countTooLarge => "cannot fit 'int' into an index-sized integer".toList
  | outOfMemory => []
  | literalApplied => "Cannot apply Literal to a style stack".toList
  | unknownRoles names => "Unknown theme roles: ".toList ++ Text.join [',', ' '] names
  | styleNotText role =>
    "Style for role ".toList ++ role.quoted ++ " must be a string".toList
  | themeMalformed path complaint =>
    "Invalid theme file ".toList ++ path ++ ": ".toList ++ complaint
  | themeNotObject path =>
    "Theme file ".toList ++ path ++ " must contain a JSON object".toList
  | arrayTooDeep => tooDeepMessage "array".toList
  | objectTooDeep => tooDeepMessage "object".toList
  | nullCharacter => "embedded null byte".toList
  | fileMissing path => "[Errno 2] No such file or directory: ".toList ++ path.quoted
  | fileIsDirectory path => "[Errno 21] Is a directory: ".toList ++ path.quoted
  | notDirectory path => "[Errno 20] Not a directory: ".toList ++ path.quoted
  | pathTooLong path => "[Errno 36] File name too long: ".toList ++ path.quoted
  | refusedBySystem words => words
  | notUtf8 fault => fault.message

end TermMarkup
