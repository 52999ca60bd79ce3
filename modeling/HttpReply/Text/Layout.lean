import HttpReply.Text.Quoted

/-!
Descriptions of structured values. A description is set on one line, or with every part on a
line of its own, indented by four blanks a level and ended by a comma.
-/

namespace HttpReply.Text

/-- How the parts of a description are set. -/
inductive Layout where
  | oneLine
  | indented
  deriving DecidableEq, Repr

/-- What encloses the parts of a description. On one line, `padding` stands between the
brackets and the parts. -/
structure Frame where
  opening : List Char
  closing : List Char
  padding : List Char := []

def Frame.list : Frame := ⟨['['], [']'], []⟩

def Frame.map : Frame := ⟨['\x7b'], ['\x7d'], []⟩

/-- The frame of a value with named fields. -/
def Frame.record (name : String) : Frame := ⟨name.toList ++ [' ', '\x7b'], ['\x7d'], [' ']⟩

/-- The frame of a value with a name and unnamed fields. -/
def Frame.tuple (name : String) : Frame := ⟨name.toList ++ ['('], [')'], []⟩

def indentation (depth : Nat) : List Char :=
  List.replicate (4 * depth) ' '

/-- Lines of their own for the parts, one level below `depth`. -/
def partLines (depth : Nat) (parts : List (List Char)) : List Char :=
  parts.flatMap fun part => indentation (depth + 1) ++ part ++ [',', '\n']

/-- Set `parts` in a frame that itself stands at `depth`. Without parts, the brackets meet in
either layout. -/
def Layout.enclose (layout : Layout) (frame : Frame) (depth : Nat)
    (parts : List (List Char)) : List Char :=
  match parts with
  | [] => frame.opening ++ frame.closing
  | _ =>
    match layout with
    | .oneLine =>
      frame.opening ++ frame.padding ++ [',', ' '].intercalate parts ++ frame.padding
        ++ frame.closing
    | .indented =>
      frame.opening ++ ['\n'] ++ partLines depth parts ++ indentation depth ++ frame.closing

/-- A part with a label before it: a named field, or an entry of a map. -/
def labelled (label value : List Char) : List Char :=
  label ++ [':', ' '] ++ value

end HttpReply.Text
