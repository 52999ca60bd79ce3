/-!
The header fields of a finished message. Names are compared without regard to ASCII case, a name
may have several values, and not every text is a name or a value.
-/

namespace HttpReply

/-- The bytes of a text in UTF-8. -/
def utf8 (s : String) : List UInt8 :=
  s.toByteArray.data.toList

theorem length_utf8 (s : String) : (utf8 s).length = s.utf8ByteSize := rfl

namespace Field

/-- The signs that a name may contain beside letters and digits. -/
def nameSigns : List Char :=
  ['!', '#', '$', '%', '&', '\x27', '*', '+', '-', '.', '^', '_', '\x60', '|', '~']

/-- A byte of a name: an ASCII letter, a digit or one of the signs. -/
def isNameByte (b : UInt8) : Bool :=
  let c := Char.ofNat b.toNat
  c.isAlphanum || nameSigns.contains c

/-- The longest name, in bytes. -/
def maxNameLength : Nat := 65535

/-- Whether a text is a name. -/
def isName (s : String) : Bool :=
  let bytes := utf8 s
  !bytes.isEmpty && bytes.length ≤ maxNameLength && bytes.all isNameByte

/-- A byte of a value: a tab, or none of the control characters of ASCII. -/
def isValueByte (b : UInt8) : Bool :=
  b == 9 || (32 ≤ b && b != 127)

/-- Whether a text is a value. The empty text is one. -/
def isValue (s : String) : Bool :=
  (utf8 s).all isValueByte

/-- The form under which a name is listed. -/
def canonicalName (s : String) : String :=
  s.map Char.toLower

end Field

/-- Names in increasing order, each with its values in the order in which they were added. -/
abbrev Fields := List (String × List String)

/-- Add a value under a name that is already in its canonical form. -/
def Fields.add (name value : String) : Fields → Fields
  | [] => [(name, [value])]
  | (n, values) :: rest =>
    if name < n then (name, [value]) :: (n, values) :: rest
    else if name = n then (n, values ++ [value]) :: rest
    else (n, values) :: Fields.add name value rest

/-- The values listed under a name. -/
def Fields.values (fields : Fields) (name : String) : List String :=
  (fields.lookup name).getD []

end HttpReply
