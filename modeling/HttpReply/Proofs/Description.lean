import HttpReply.Response.Describe

/-!
What can be read off the description of a response: its last field tells whether a source is
held, and nothing that stands before it can be taken for it.
-/

namespace HttpReply.Text

theorem suffix_intercalate (separator last : List Char) (parts : List (List Char)) :
    last <:+ separator.intercalate (parts ++ [last]) := by
  induction parts with
  | nil => simp
  | cons part rest ih =>
      have hRest : rest ++ [last] ≠ [] := by simp
      rw [List.cons_append, List.intercalate_cons_of_ne_nil hRest]
      exact ih.trans (List.suffix_append _ _)

/-- The last part of a description on one line is followed by the closing of the frame only. -/
theorem suffix_enclose_oneLine (frame : Frame) (depth : Nat) (parts : List (List Char))
    (last : List Char) :
    last ++ frame.padding ++ frame.closing <:+
      Layout.oneLine.enclose frame depth (parts ++ [last]) := by
  obtain ⟨front, hFront⟩ := suffix_intercalate [',', ' '] last parts
  refine ⟨frame.opening ++ frame.padding ++ front, ?_⟩
  rw [Layout.enclose, ← hFront]
  · simp
  · simp

/-- The last part of an indented description has the line before the closing of the frame. -/
theorem suffix_enclose_indented (frame : Frame) (depth : Nat) (parts : List (List Char))
    (last : List Char) :
    indentation (depth + 1) ++ last ++ [',', '\n'] ++ indentation depth ++ frame.closing <:+
      Layout.indented.enclose frame depth (parts ++ [last]) := by
  refine ⟨frame.opening ++ ['\n'] ++ partLines depth parts, ?_⟩
  rw [Layout.enclose]
  · simp [partLines]
  · simp

end HttpReply.Text

namespace HttpReply.Response

open Text

/-- How a description of a response ends: with the field that tells whether a source is held. -/
def closableEnding (held : Bool) : Layout → String
  | .oneLine => "closable: " ++ toString held ++ " \x7d"
  | .indented => "    closable: " ++ toString held ++ ",\n\x7d"

theorem closableEnding_suffix_describe (r : Response) (layout : Layout)
    (hidden : Char → Bool) :
    (closableEnding r.source.isSome layout).toList <:+ (r.describe layout hidden).toList := by
  have hLabel : (if r.source.isSome then "true".toList else "false".toList) =
      (toString r.source.isSome).toList := by
    cases r.source.isSome <;> rfl
  rw [describe, String.toList_ofList, hLabel]
  generalize r.source.isSome = held
  cases layout with
  | oneLine =>
      have hEnding : (closableEnding held .oneLine).toList =
          labelled "closable".toList (toString held).toList ++
            (Frame.record "HttpResponse").padding ++ (Frame.record "HttpResponse").closing := by
        cases held <;> rfl
      rw [hEnding]
      exact suffix_enclose_oneLine _ _ [_, _, _, _] _
  | indented =>
      have hEnding : (closableEnding held .indented).toList =
          indentation 1 ++ labelled "closable".toList (toString held).toList ++ [',', '\n'] ++
            indentation 0 ++ (Frame.record "HttpResponse").closing := by
        cases held <;> rfl
      rw [hEnding]
      exact suffix_enclose_indented _ _ [_, _, _, _] _

end HttpReply.Response
