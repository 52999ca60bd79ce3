import HttpReply.Response.Basic

/-!
Descriptions of a response under construction.
-/

namespace HttpReply.Response

open Text

/-- Describe everything about a response except the source itself, of which only its presence is
shown. -/
def describe (r : Response) (layout : Layout) (hidden : Char → Bool := isUnprintable) : String :=
  String.ofList <| layout.enclose (Frame.record "HttpResponse") 0
    [labelled "status".toList (Nat.toDigits 10 r.status.toNat),
     labelled "headers".toList (r.headers.describeAt layout 1 hidden),
     labelled "body".toList (layout.enclose Frame.list 1 (r.body.map (quoted hidden))),
     labelled "length".toList (Nat.toDigits 10 r.length),
     labelled "closable".toList (if r.source.isSome then "true".toList else "false".toList)]

end HttpReply.Response
