import HttpReply.Decimal.Positional

/-!
Values that can be written to a response or set as a header. What a response keeps of a value is
its text.
-/

namespace HttpReply

/-- A value that has a text. -/
inductive Value where
  | text (s : String)
  | bool (b : Bool)
  | int (n : Int)
  | char (c : Char)
  | float (x : Float)
  /-- An amount, followed directly by its unit. -/
  | quantity (amount : Int) (unit : String)
  /-- One text, `count` times in a row. -/
  | repeated (s : String) (count : Nat)

/-- The text of a value. -/
def Value.toText : Value → String
  | .text s => s
  | .bool b => if b then "true" else "false"
  | .int n => n.repr
  | .char c => c.toString
  | .float x => Decimal.text x
  | .quantity amount unit => amount.repr ++ unit
  | .repeated s count => String.join (List.replicate count s)

instance : ToString Value := ⟨Value.toText⟩

end HttpReply
