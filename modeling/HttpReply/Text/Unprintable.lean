/-!
Characters that a quoted text does not show as themselves: they draw nothing, or they change
what stands beside them. Which characters these are depends on the version of the character tables,
so descriptions take the set as a parameter. The set given here is the one they have by default; it
covers the blocks that several scripts share.
-/

namespace HttpReply.Text

/-- A run of code points, both ends included. -/
structure Span where
  first : Nat
  last : Nat

def Span.contains (s : Span) (codePoint : Nat) : Bool :=
  s.first ≤ codePoint && codePoint ≤ s.last

/-- The control characters of ASCII and of the Latin-1 supplement. -/
def controls : List Span := [⟨0x00, 0x1f⟩, ⟨0x7f, 0x9f⟩]

/-- Spaces and line separators, the plain space excepted. -/
def blanks : List Span :=
  [⟨0xa0, 0xa0⟩, ⟨0x1680, 0x1680⟩, ⟨0x2000, 0x200a⟩,
   ⟨0x2028, 0x2029⟩, ⟨0x202f, 0x202f⟩, ⟨0x205f, 0x205f⟩,
   ⟨0x3000, 0x3000⟩]

/-- Format characters: soft hyphen, joiners, direction marks, the byte order mark, tags. -/
def formats : List Span :=
  [⟨0xad, 0xad⟩, ⟨0x600, 0x605⟩, ⟨0x61c, 0x61c⟩,
   ⟨0x6dd, 0x6dd⟩, ⟨0x70f, 0x70f⟩, ⟨0x890, 0x891⟩,
   ⟨0x8e2, 0x8e2⟩, ⟨0x180e, 0x180e⟩, ⟨0x200b, 0x200f⟩,
   ⟨0x202a, 0x202e⟩, ⟨0x2060, 0x206f⟩, ⟨0xfeff, 0xfeff⟩,
   ⟨0xfff9, 0xfffb⟩, ⟨0x110bd, 0x110bd⟩, ⟨0x110cd, 0x110cd⟩,
   ⟨0x13430, 0x1343f⟩, ⟨0x1bca0, 0x1bca3⟩, ⟨0x1d173, 0x1d17a⟩,
   ⟨0xe0001, 0xe0001⟩, ⟨0xe0020, 0xe007f⟩]

/-- The shared blocks of combining marks, and the variation selectors. -/
def marks : List Span :=
  [⟨0x300, 0x36f⟩, ⟨0x1ab0, 0x1aff⟩, ⟨0x1dc0, 0x1dff⟩,
   ⟨0x20d0, 0x20ff⟩, ⟨0xfe00, 0xfe0f⟩, ⟨0xfe20, 0xfe2f⟩,
   ⟨0xe0100, 0xe01ef⟩]

/-- The private use areas, which hold no character of the standard. The last two code points of
the supplementary areas are listed with the noncharacters. -/
def privateUse : List Span :=
  [⟨0xe000, 0xf8ff⟩, ⟨0xf0000, 0xffffd⟩, ⟨0x100000, 0x10fffd⟩]

/-- The block of noncharacters; `isNoncharacter` adds the last two code points of each plane. -/
def noncharacters : List Span := [⟨0xfdd0, 0xfdef⟩]

/-- A code point that never stands for a character. -/
def isNoncharacter (codePoint : Nat) : Bool :=
  noncharacters.any (·.contains codePoint) || 0xfffe ≤ codePoint % 0x10000

/-- Whether a character is written by its number instead of as itself, unless another set of
characters is asked for. -/
def isUnprintable (c : Char) : Bool :=
  (controls ++ blanks ++ formats ++ marks ++ privateUse).any (·.contains c.toNat)
    || isNoncharacter c.toNat

end HttpReply.Text
